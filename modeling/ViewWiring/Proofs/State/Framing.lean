import ViewWiring.Proofs.State.Writing

namespace ViewWiring.State

open Address

theorem child_map (es : Entries String Value) (name : String) :
    (Value.map es).child (.field name) = match es.get? name with
      | some v => .ok v
      | none => .error (.missingField name) := rfl

theorem child_sequence (xs : List Value) (i : Nat) :
    (Value.sequence xs).child (.index i) = match xs[i]? with
      | some v => .ok v
      | none => .error (.indexOutOfRange i xs.length) := by
  rw [Value.child, Value.slot]
  by_cases hi : i < xs.length
  · rw [if_pos hi]
    rfl
  · rw [if_neg hi, List.getElem?_eq_none (Nat.not_lt.mp hi)]
    rfl

section

variable {c : Value} {k l : Key} {s : Slot}

theorem child_put (h : c.slot k = .ok s) (v : Value) : (s.put v).child k = .ok v :=
  bind_eq_ok.mpr ⟨s.filled v, Slot.slot_put h v, Slot.value_eq_ok.mpr (Slot.current_filled h v)⟩

/-- A slot that was written changes nothing that another key of its container
gives, be it a value or a fault. -/
theorem child_put_of_ne (h : c.slot k = .ok s) (v : Value) (hne : k ≠ l) :
    (s.put v).child l = c.child l := by
  rcases slot_cases h with ⟨es, name, rfl, rfl, rfl⟩ | ⟨xs, i, rfl, rfl, -, rfl⟩
  · cases l with
    | field other =>
        have hother : other ≠ name := fun he => hne (congrArg Key.field he.symm)
        rw [Slot.put, child_map, child_map, Entries.get?_put_of_ne es v hother]
    | index j => rfl
  · cases l with
    | field other => rfl
    | index j =>
        have hj : i ≠ j := fun he => hne (congrArg Key.index he)
        rw [Slot.put, child_sequence, child_sequence, List.getElem?_set_ne hj, List.length_set]

end

/-- A tree `v'` that is `v` but for `c'` in place of `c`, to which the keys lead. -/
inductive Grafted (c c' : Value) : List Key → Value → Value → Prop
  | here : Grafted c c' [] c c'
  | inside {k : Key} {ks : List Key} {v w w' : Value} {s : Slot} (hs : v.slot k = .ok s)
      (hw : s.value = .ok w) (h : Grafted c c' ks w w') : Grafted c c' (k :: ks) v (s.put w')

namespace Grafted

variable {c c' v v' : Value} {ks : List Key}

theorem follow_before (h : Grafted c c' ks v v') (ls : List Key) : v.follow (ks ++ ls) = c.follow ls := by
  induction h with
  | here => rfl
  | @inside k ks v w w' s hs hw _ ih =>
      have hchild : v.child k = .ok w := bind_eq_ok.mpr ⟨s, hs, hw⟩
      rw [List.cons_append, Value.follow, hchild]
      exact ih

theorem follow_after (h : Grafted c c' ks v v') (ls : List Key) : v'.follow (ks ++ ls) = c'.follow ls := by
  induction h with
  | here => rfl
  | inside hs _ _ ih =>
      rw [List.cons_append, Value.follow, child_put hs]
      exact ih

theorem follow_ends (h : Grafted c c' ks v v') : v.follow ks = .ok c ∧ v'.follow ks = .ok c' := by
  have hbefore := h.follow_before []
  have hafter := h.follow_after []
  rw [List.append_nil] at hbefore hafter
  exact ⟨hbefore, hafter⟩

/-- Wherever the way to `c` is cut, all that changed lies in the slot that comes
next. -/
theorem cut {before after : List Key} {k : Key} (h : Grafted c c' (before ++ k :: after) v v') :
    ∃ (d : Value) (s : Slot) (w : Value), d.slot k = .ok s ∧ Grafted d (s.put w) before v v' := by
  induction before generalizing v v' with
  | nil =>
      cases h with
      | inside hs _ _ => exact ⟨v, _, _, hs, .here⟩
  | cons b before ih =>
      cases h with
      | inside hs hw h =>
          obtain ⟨d, s, w, hd, hbefore⟩ := ih h
          exact ⟨d, s, w, hd, .inside hs hw hbefore⟩

theorem aside {k l : Key} {s : Slot} {w : Value} (hs : c.slot k = .ok s) (h : Grafted c (s.put w) ks v v')
    (hne : k ≠ l) (rest : List Key) : v'.follow (ks ++ l :: rest) = v.follow (ks ++ l :: rest) := by
  rw [h.follow_after, h.follow_before, Value.follow, Value.follow, child_put_of_ne hs w hne]

end Grafted

theorem grafted_of_locate {v : Value} {k : Key} {ks : List Key} {p : Place} (h : v.locate k ks = .ok p) :
    ∃ (init : List Key) (last : Key) (c : Value), k :: ks = init ++ [last] ∧ c.slot last = .ok p.slot ∧
      ∀ c', Grafted c c' init v (p.rebuild c') := by
  induction ks generalizing v k p with
  | nil =>
      obtain ⟨s, hs, hp⟩ := bind_eq_ok.mp h
      cases hp
      exact ⟨[], k, v, rfl, hs, fun _ => .here⟩
  | cons k' ks ih =>
      obtain ⟨s, hs, h⟩ := bind_eq_ok.mp h
      obtain ⟨w, hw, h⟩ := bind_eq_ok.mp h
      obtain ⟨q, hq, hp⟩ := bind_eq_ok.mp h
      cases hp
      obtain ⟨init, last, c, hkeys, hc, hgraft⟩ := ih hq
      refine ⟨k :: init, last, c, ?_, hc, fun c' => .inside hs hw (hgraft c')⟩
      rw [hkeys, List.cons_append]

variable {root : Value} {p : Path} {it : Option Iteration} {place : Place}

/-- A resolved place is a slot of the container that all keys but the last lead
to, and to rebuild the tree is to replace that container. -/
theorem grafted_of_resolve (h : root.resolve p it = .ok place) :
    ∃ (init : List Key) (last : Key) (c : Value), concreteKeys p it = .ok (init ++ [last]) ∧
      c.slot last = .ok place.slot ∧ ∀ c', Grafted c c' init root (place.rebuild c') := by
  obtain ⟨ks, hks, h⟩ := bind_eq_ok.mp h
  obtain ⟨init, last, c, hkeys, hc, hgraft⟩ := grafted_of_locate (mapError_eq_ok.mp h)
  refine ⟨init, last, c, ?_, hc, hgraft⟩
  rw [← hkeys]
  exact map_eq_ok.mpr ⟨ks, mapError_eq_ok.mp hks, rfl⟩

/-- The same seen from any key on the way: what is set lies in that key's slot. -/
theorem grafted_of_set (h : root.resolve p it = .ok place) (x : Value) {before after : List Key} {k : Key}
    (hkeys : concreteKeys p it = .ok (before ++ k :: after)) :
    ∃ (d : Value) (s : Slot) (w : Value), d.slot k = .ok s ∧
      Grafted d (s.put w) before root (place.set x) := by
  obtain ⟨init, last, c, hinit, hc, hgraft⟩ := grafted_of_resolve h
  have hsplit : before ++ k :: after = init ++ [last] := Except.ok.inj (hkeys.symm.trans hinit)
  rcases List.eq_nil_or_concat' after with rfl | ⟨after, last', rfl⟩
  · obtain ⟨rfl, hlast⟩ := List.append_inj' hsplit rfl
    cases hlast
    exact ⟨c, place.slot, x, hc, hgraft _⟩
  · rw [← List.cons_append, ← List.append_assoc] at hsplit
    obtain ⟨rfl, -⟩ := List.append_inj' hsplit rfl
    exact (hgraft _).cut

/-- Two ways through a tree that take different keys at a position that both have. -/
def Parts (ks ls : List Key) : Prop :=
  ∃ (n : Nat) (k l : Key), ks[n]? = some k ∧ ls[n]? = some l ∧ k ≠ l

/-- They are the same up to the first such position. -/
theorem Parts.split {ks ls : List Key} (h : Parts ks ls) :
    ∃ before k after l rest, ks = before ++ k :: after ∧ ls = before ++ l :: rest ∧ k ≠ l := by
  induction ks generalizing ls with
  | nil =>
      obtain ⟨n, k, l, hk, -, -⟩ := h
      cases hk
  | cons k ks ih =>
      obtain ⟨n, k', l', hk, hl, hne⟩ := h
      cases ls with
      | nil => cases hl
      | cons l ls =>
          by_cases hkl : k = l
          · subst l
            cases n with
            | zero => exact absurd (Option.some.inj (hk.symm.trans hl)) hne
            | succ n =>
                obtain ⟨before, a, after, b, rest, rfl, rfl, hab⟩ := ih ⟨n, k', l', hk, hl, hne⟩
                exact ⟨k :: before, a, after, b, rest, rfl, rfl, hab⟩
          · exact ⟨[], k, ks, l, ls, rfl, rfl, hkl⟩

inductive Overwritten (root : Value) (p : Path) (it : Option Iteration) (new : Value) : Prop
  | set {v : Value} {old : Option Value} (h : root.set p it v = .ok (old, new))
  | toggle {b : Bool} (h : root.toggle p it = .ok (b, new))

theorem Overwritten.exists_place {new : Value} (h : Overwritten root p it new) :
    ∃ place x, root.resolve p it = .ok place ∧ new = place.set x := by
  cases h with
  | @set v old h =>
      obtain ⟨place, hplace, hnew⟩ := bind_eq_ok.mp h
      cases hnew
      exact ⟨place, v, hplace, rfl⟩
  | toggle h =>
      obtain ⟨place, hplace, h⟩ := bind_eq_ok.mp h
      obtain ⟨v, hv, hnew⟩ := bind_eq_ok.mp (mapError_eq_ok.mp h)
      cases v with
      | boolean b =>
          cases hnew
          exact ⟨place, _, hplace, rfl⟩
      | null | number n | string s | sequence xs | map es => cases hnew

/-- An overwritten place does not show at a path that parts from the way to it,
and every sequence on that way keeps its other elements. -/
theorem overwriting_stays_in_place {new : Value} (h : Overwritten root p it new) :
    ∃ ks, concreteKeys p it = .ok ks ∧
      (∀ q jt ls, concreteKeys q jt = .ok ls → Parts ks ls → new.lookup q jt = root.lookup q jt) ∧
      ∀ before i after, ks = before ++ .index i :: after →
        ∃ xs ys, root.follow before = .ok (.sequence xs) ∧ new.follow before = .ok (.sequence ys) ∧
          ys.length = xs.length ∧ ∀ j, j ≠ i → ys[j]? = xs[j]? := by
  obtain ⟨place, x, hplace, rfl⟩ := h.exists_place
  obtain ⟨init, last, c, hkeys, -, -⟩ := grafted_of_resolve hplace
  refine ⟨init ++ [last], hkeys, ?_, ?_⟩
  · intro q jt ls hls hparts
    obtain ⟨before, k, after, l, rest, hsplit, rfl, hne⟩ := hparts.split
    rw [hsplit] at hkeys
    obtain ⟨d, s, w, hd, hgraft⟩ := grafted_of_set hplace x hkeys
    rw [lookup_of_keys hls, lookup_of_keys hls, hgraft.aside hd hne]
  · intro before i after hsplit
    rw [hsplit] at hkeys
    obtain ⟨d, s, w, hd, hgraft⟩ := grafted_of_set hplace x hkeys
    obtain ⟨hbefore, hafter⟩ := hgraft.follow_ends
    rcases slot_cases hd with ⟨es, name, -, hk, -⟩ | ⟨xs, j, rfl, hk, -, rfl⟩
    · cases hk
    · cases hk
      refine ⟨xs, xs.set i w, hbefore, hafter, List.length_set, ?_⟩
      intro j hj
      exact List.getElem?_set_ne hj.symm

def errands : Value :=
  .map [("items", .sequence [.map [("done", .boolean false)], .map [("done", .boolean false)]]),
    ("filter", .string "all")]

def secondDone : Value :=
  .map [("items", .sequence [.map [("done", .boolean false)], .map [("done", .boolean true)]]),
    ("filter", .string "all")]

def donePath : Path := ⟨"items", [.placeholder "i", .key "done"]⟩

/-- Ticking the second errand shows neither at the first one nor at a path that
takes the items for a map. -/
theorem ticking_stays_in_place :
    errands.toggle donePath (some ⟨[1]⟩) = .ok (true, secondDone) ∧
    secondDone.lookup donePath (some ⟨[0]⟩) = errands.lookup donePath (some ⟨[0]⟩) ∧
    secondDone.lookup ⟨"items", [.key "size"]⟩ none = errands.lookup ⟨"items", [.key "size"]⟩ none := by
  have htoggle : errands.toggle donePath (some ⟨[1]⟩) = .ok (true, secondDone) := rfl
  obtain ⟨ks, hks, haside, -⟩ := overwriting_stays_in_place (.toggle htoggle)
  obtain rfl : [.field "items", .index 1, .field "done"] = ks := Except.ok.inj hks
  refine ⟨htoggle, haside _ _ _ rfl ?_, haside _ _ _ rfl ?_⟩
  · exact ⟨1, _, _, rfl, rfl, by decide⟩
  · exact ⟨1, _, _, rfl, rfl, by decide⟩

end ViewWiring.State
