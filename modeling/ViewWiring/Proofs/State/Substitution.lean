import ViewWiring.Proofs.State.Access

namespace ViewWiring.Address

namespace Segment

def placeholder? : Segment → Option String
  | placeholder name => some name
  | key _ | index _ => none

/-- A step that comes after the steps `before`. A placeholder becomes the literal
index at its own position among the placeholders. -/
def filled (before : List Segment) (is : List Nat) : Segment → Segment
  | placeholder name =>
      match is[before.countP isPlaceholder]? with
      | some i => index i
      | none => placeholder name
  | s => s

def filledAll (ss : List Segment) (is : List Nat) : List Segment :=
  ss.mapIdx fun n s => s.filled (ss.take n) is

def unnamed : Segment → Segment
  | key name => key name
  | index i => index i
  | placeholder _ => placeholder ""

end Segment

namespace Path

def placeholderNames (p : Path) : List String := p.steps.filterMap Segment.placeholder?

def filled (p : Path) (is : List Nat) : Path := ⟨p.field, Segment.filledAll p.steps is⟩

def unnamed (p : Path) : Path := ⟨p.field, p.steps.map Segment.unnamed⟩

end Path

namespace Segment

variable {s : Segment} {before ss : List Segment} {is : List Nat}

theorem countP_placeholder_cons (name : String) (ss : List Segment) :
    (placeholder name :: ss).countP isPlaceholder = ss.countP isPlaceholder + 1 :=
  List.countP_cons_of_pos rfl

theorem filled_cons (h : s.isPlaceholder = false) (t : Segment) :
    t.filled (s :: before) is = t.filled before is := by
  cases t <;> simp [filled, h]

theorem filled_placeholder_cons (name : String) (i : Nat) (t : Segment) :
    t.filled (.placeholder name :: before) (i :: is) = t.filled before is := by
  cases t <;> simp [filled, countP_placeholder_cons]

theorem filledAll_cons (s : Segment) (ss : List Segment) (is : List Nat) :
    filledAll (s :: ss) is = s.filled [] is :: ss.mapIdx fun n t => t.filled (s :: ss.take n) is := by
  rw [filledAll, List.mapIdx_cons]
  rfl

theorem filledAll_placeholder_cons (name : String) (ss : List Segment) (i : Nat) (is : List Nat) :
    filledAll (.placeholder name :: ss) (i :: is) = .index i :: filledAll ss is := by
  rw [filledAll_cons]
  simp only [filled_placeholder_cons]
  rfl

theorem filledAll_cons_of_not (h : s.isPlaceholder = false) :
    filledAll (s :: ss) is = s :: filledAll ss is := by
  have hs : s.filled [] is = s := by
    cases s with
    | placeholder name => cases h
    | key name | index i => rfl
  rw [filledAll_cons, hs]
  simp only [filled_cons h]
  rfl

end Segment

end ViewWiring.Address

namespace ViewWiring.State

open Address

section

variable {ss : List Segment} {is : List Nat}

/-- The first placeholder that is left without an index is the one behind as many
as there are indices. -/
theorem keysOf_short (h : is.length < ss.countP Segment.isPlaceholder) :
    ∃ name, (ss.filterMap Segment.placeholder?)[is.length]? = some name ∧
      keysOf ss is = .error (.unresolvedIndex name) := by
  fun_induction keysOf ss is with
  | case1 is => cases h
  | case2 name ss is ih | case3 i ss is ih =>
      obtain ⟨name, hname, hkeys⟩ := ih h
      exact ⟨name, hname, by rw [hkeys]; rfl⟩
  | case4 name ss => exact ⟨name, rfl, rfl⟩
  | case5 name ss i is ih =>
      rw [Segment.countP_placeholder_cons, List.length_cons] at h
      obtain ⟨name, hname, hkeys⟩ := ih (by omega)
      exact ⟨name, hname, by rw [hkeys]; rfl⟩

theorem keysOf_filledAll (h : ss.countP Segment.isPlaceholder ≤ is.length) :
    keysOf (Segment.filledAll ss is) [] = keysOf ss is := by
  fun_induction keysOf ss is with
  | case1 is => rfl
  | case2 name ss is ih | case3 i ss is ih => rw [Segment.filledAll_cons_of_not rfl, keysOf, ih h]
  | case4 name ss =>
      rw [Segment.countP_placeholder_cons] at h
      cases h
  | case5 name ss i is ih =>
      rw [Segment.countP_placeholder_cons, List.length_cons] at h
      rw [Segment.filledAll_placeholder_cons, keysOf, ih (by omega)]

end

theorem keysOf_take (ss : List Segment) (is : List Nat) :
    keysOf ss (is.take (ss.countP Segment.isPlaceholder)) = keysOf ss is := by
  fun_induction keysOf ss is with
  | case1 is => rfl
  | case2 name ss is ih | case3 i ss is ih => exact congrArg (Except.map _) ih
  | case4 name ss => rw [List.take_nil, keysOf]
  | case5 name ss i is ih =>
      rw [Segment.countP_placeholder_cons, List.take_succ_cons, keysOf, ih]

theorem keysOf_unnamed (ss : List Segment) (is : List Nat) :
    (keysOf (ss.map Segment.unnamed) is).toOption = (keysOf ss is).toOption := by
  fun_induction keysOf ss is with
  | case1 is => rfl
  | case2 name ss is ih | case3 i ss is ih | case5 name ss i is ih =>
      rw [List.map_cons, Segment.unnamed, keysOf, toOption_map, toOption_map, ih]
  | case4 name ss => rfl

theorem countP_unnamed (ss : List Segment) :
    (ss.map Segment.unnamed).countP Segment.isPlaceholder = ss.countP Segment.isPlaceholder := by
  rw [List.countP_map]
  congr 1
  funext s
  cases s <;> rfl

/-- Neither names nor surplus indices decide which keys there are. -/
theorem keysOf_congr {ss ts : List Segment} {is js : List Nat}
    (hsteps : ss.map Segment.unnamed = ts.map Segment.unnamed)
    (his : is.take (ts.countP Segment.isPlaceholder) = js.take (ts.countP Segment.isPlaceholder)) :
    (keysOf ss is).toOption = (keysOf ts js).toOption := by
  have hcount : ss.countP Segment.isPlaceholder = ts.countP Segment.isPlaceholder := by
    rw [← countP_unnamed ss, hsteps, countP_unnamed]
  rw [← keysOf_take ss, ← keysOf_take ts, hcount, his, ← keysOf_unnamed ss, hsteps, keysOf_unnamed]

section

variable (root : Value) (p : Path) (it : Option Iteration)

theorem resolve_eq_along : root.resolve p it =
    along p (keysOf p.steps (suppliedIndices it) >>= root.locate (.field p.field)) :=
  (along_bind p _ _).symm

theorem lookup_eq_along : root.lookup p it =
    along p (keysOf p.steps (suppliedIndices it) >>= fun ks => root.follow (.field p.field :: ks)) :=
  (along_bind p _ _).symm

end

theorem along_along {α : Type} (p q : Path) (r : Except Fault α) :
    (along q r).mapError (fun e => ⟨p, e.fault⟩) = along p r := by
  cases r <;> rfl

theorem along_toOption {α : Type} (p : Path) (r : Except Fault α) : (along p r).toOption = r.toOption := by
  cases r <;> rfl

/-- With too few indices the tree is never looked at. With enough of them a path
leads where it does with literal indices in their place, whatever its placeholders
are called and however many indices are left over. -/
theorem placeholders_are_substituted (root : Value) (p : Path) (it : Option Iteration) :
    (if (suppliedIndices it).length < p.placeholders then
      ∃ name, p.placeholderNames[(suppliedIndices it).length]? = some name ∧
        root.resolve p it = .error ⟨p, .unresolvedIndex name⟩ ∧
        root.lookup p it = .error ⟨p, .unresolvedIndex name⟩
    else
      root.resolve p it =
        (root.resolve (p.filled (suppliedIndices it)) none).mapError (fun e => ⟨p, e.fault⟩) ∧
      root.lookup p it =
        (root.lookup (p.filled (suppliedIndices it)) none).mapError fun e => ⟨p, e.fault⟩) ∧
    ∀ q jt, q.unnamed = p.unnamed →
      (suppliedIndices jt).take p.placeholders = (suppliedIndices it).take p.placeholders →
      (root.resolve q jt).toOption = (root.resolve p it).toOption ∧
        (root.lookup q jt).toOption = (root.lookup p it).toOption := by
  constructor
  · split
    · rename_i hshort
      obtain ⟨name, hname, hkeys⟩ := keysOf_short hshort
      refine ⟨name, hname, ?_, ?_⟩
      · rw [resolve_eq_along, hkeys]
        rfl
      · rw [lookup_eq_along, hkeys]
        rfl
    · rename_i henough
      have hkeys := keysOf_filledAll (Nat.not_lt.mp henough)
      constructor
      · rw [resolve_eq_along, resolve_eq_along, along_along, ← hkeys]
        rfl
      · rw [lookup_eq_along, lookup_eq_along, along_along, ← hkeys]
        rfl
  · intro q jt hq hjt
    obtain ⟨hfield, hsteps⟩ : q.field = p.field ∧ q.steps.map Segment.unnamed = p.steps.map Segment.unnamed :=
      Address.Path.mk.inj hq
    have hkeys := keysOf_congr hsteps hjt
    constructor
    · rw [resolve_eq_along, resolve_eq_along, along_toOption, along_toOption, hfield]
      exact toOption_bind_congr hkeys fun _ => rfl
    · rw [lookup_eq_along, lookup_eq_along, along_toOption, along_toOption, hfield]
      exact toOption_bind_congr hkeys fun _ => rfl

/-- The literal index takes none of the three, and the last one is left over. -/
example : keysOf [.index 2, .placeholder "r", .key "cells", .placeholder "c"] [4, 7, 9] =
    .ok [.index 2, .index 4, .field "cells", .index 7] :=
  rfl

end ViewWiring.State
