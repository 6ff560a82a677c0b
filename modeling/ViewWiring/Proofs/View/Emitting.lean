import ViewWiring.Proofs.View.Agreement
import ViewWiring.Proofs.View.Storage
import ViewWiring.View.Emission

namespace ViewWiring.View

open Address Binding Component

def asking (ds : List Directive) : Option Directive := ds.find? fun v => !v.isRepeat

theorem isSome_tag? (v : Directive) : v.tag?.isSome = !v.isRepeat := by
  cases v <;> rfl

theorem asking_eq_none {ds : List Directive} : asking ds = none ↔ ds.all Directive.isRepeat := by
  simp [asking, List.find?_eq_none]

theorem asking_joined (ds : List Directive) (v : Directive) :
    asking (joined ds v) ≠ none ↔ asking ds ≠ none ∨ v.tag?.isSome := by
  have hjoined : asking (joined ds v) = none ↔ asking ds = none ∧ v.isRepeat := by
    simp only [asking_eq_none, List.all_eq_true, mem_joined, or_imp, forall_and, forall_eq]
  rw [ne_eq, hjoined, isSome_tag?, Decidable.not_and_iff_or_not, Bool.not_eq_true']
  simp

/-- Keeping a record of the settled tags comes to the same as looking at the directives
that are there. -/
theorem Node.attach_eq {n : Node} {typed : Prop} [Decidable typed] (h : typed ↔ asking n.directives ≠ none)
    (v : Directive) :
    n.attach v =
      { n with tag := (if typed then none else v.tag?).getD n.tag, directives := joined n.directives v } := by
  have hall : n.directives.all Directive.isRepeat ↔ ¬ typed := by
    rw [h, not_not, asking_eq_none]
  by_cases hv : v ∈ n.directives
  · have htag : (if typed then none else v.tag?) = none := by
      split
      case isTrue => rfl
      case isFalse htyped =>
        have hrepeat := List.all_eq_true.mp (hall.mpr htyped) v hv
        rw [← Option.not_isSome_iff_eq_none, isSome_tag?, hrepeat]
        nofun
    rw [Node.attach, joined, if_pos hv, if_pos hv, htag, Option.getD_none]
  · by_cases htyped : typed <;> simp [Node.attach, joined, hv, hall, htyped]

namespace Forest

variable {f : Forest} {parent : Option Nat} {name : String}

theorem places_eq_some_iff {id : Nat} :
    f.places[id]? = some (parent, name) ↔ id ∈ f.below parent ∧ (f.node? id).any fun n => n.name = name := by
  rw [mem_below]
  constructor
  · intro h
    obtain ⟨n, hn, hname, _⟩ := node?_of_places h
    exact ⟨⟨name, h⟩, by simp [hn, hname]⟩
  · rintro ⟨⟨other, h⟩, hany⟩
    obtain ⟨n, hn, rfl, _⟩ := node?_of_places h
    rw [hn, Option.any_some, decide_eq_true_eq] at hany
    rw [h, hany]

/-- Siblings have different names, so it does not matter where the search begins. -/
theorem Ordered.findChild_stored (hf : f.Ordered) (parent : Option Nat) (name : String) :
    f.stored.findChild parent name = f.findBelow parent name := by
  have hbelow : parent.elim f.stored.roots f.stored.children = f.below parent := by
    rw [hf.rising.children_stored]
    cases parent <;> rfl
  rw [Arena.findChild, hbelow, node?_stored]
  cases hfound : (f.below parent).find? fun id => (f.node? id).any fun n => n.name = name with
  | some id =>
      have hname := List.find?_some (p := fun id => (f.node? id).any fun n => n.name = name) hfound
      have hplace := places_eq_some_iff.mpr ⟨List.mem_of_find?_eq_some hfound, hname⟩
      exact ((findBelow_eq_some hf).mpr hplace).symm
  | none =>
      cases hid : f.findBelow parent name with
      | none => rfl
      | some id =>
          obtain ⟨hmem, hname⟩ := places_eq_some_iff.mp (places_of_findBelow hid)
          exact absurd hname (List.find?_eq_none.mp hfound id hmem)

theorem Ordered.find_stored (hf : f.Ordered) (s : Selector) : f.stored.find s = f.find s := by
  have hreach : s.scopes.foldlM (fun parent scope => (f.stored.findChild parent scope).map some) none =
      f.reach s.scopes := by
    simp only [hf.findChild_stored]
    rfl
  rw [Arena.find, hreach]
  apply Option.ext
  intro id
  rw [Option.join_eq_some_iff, find_eq_some]

theorem Ordered.ensureChild_stored (hf : f.Ordered) (parent : Option Nat) (name : String) :
    f.stored.ensureChild parent name = ((f.ensureBelow parent name).1.stored, (f.ensureBelow parent name).2) := by
  rw [Arena.ensureChild, ensureBelow, hf.findChild_stored]
  cases f.findBelow parent name with
  | some id => rfl
  | none =>
      cases parent with
      | none => simp [hf.rising.stored_insertRoot, size_stored]
      | some p => simp [hf.rising.stored_insertChild, size_stored]

theorem Ordered.ensureFrom_stored (hf : f.Ordered) (hp : ∀ p, parent = some p → p < f.size) (rest : List String) :
    f.stored.ensureFrom parent name rest =
      ((f.ensureFrom parent name rest).1.stored, (f.ensureFrom parent name rest).2) := by
  induction rest generalizing f parent name with
  | nil => exact hf.ensureChild_stored parent name
  | cons next rest ih =>
      obtain ⟨hg, hid⟩ := @ensureBelow_ensures f parent name hf hp
      rw [Arena.ensureFrom, hf.ensureChild_stored, ensureFrom]
      apply ih hg.ordered
      rintro _ ⟨⟩
      exact lt_size_of_places (places_of_findBelow hid)

theorem Ordered.ensure_stored (hf : f.Ordered) (s : Selector) :
    f.stored.ensure s = ((f.ensure s).1.stored, (f.ensure s).2) :=
  hf.ensureFrom_stored (by simp) s.inner

end Forest

structure Arena.Answers (a : Arena) (f : Forest) : Prop where
  size : a.size = f.size
  node? : a.node? = f.node?
  parent? : a.parent? = f.parent?
  roots : a.roots = f.roots
  children : a.children = f.children
  ancestors? : ∀ id, a.ancestors? id = some (f.ancestors id)
  findChild : a.findChild = f.findBelow
  find : a.find = f.find
  selectorOf? : ∀ id, a.selectorOf? id = some (f.address? id)

theorem Forest.Ordered.answers {f : Forest} (hf : f.Ordered) : f.stored.Answers f where
  size := f.size_stored
  node? := f.node?_stored
  parent? := f.parent?_stored
  roots := f.roots_stored
  children := hf.rising.children_stored
  ancestors? := hf.rising.ancestors?_stored
  findChild := funext fun parent => funext (hf.findChild_stored parent)
  find := funext hf.find_stored
  selectorOf? := hf.rising.selectorOf?_stored

theorem Arena.modify_congr {a : Arena} {id : Nat} {change change' : Node → Node}
    (h : ∀ n, a.node? id = some n → change n = change' n) : a.modify id change = a.modify id change' := by
  rw [Arena.modify, Arena.modify]
  congr 1
  apply List.ext_getElem?
  intro j
  rw [List.getElem?_modify, List.getElem?_modify]
  by_cases hj : id = j
  · subst j
    cases hn : a.nodes[id]? with
    | none => rfl
    | some n => simp [h n hn]
  · simp [hj]

structure Emitter.Keeps (e : Emitter) (f : Forest) : Prop where
  ordered : f.Ordered
  arena : e.arena = f.stored
  typed : ∀ id, id ∈ e.typed ↔ ∃ n, f.node? id = some n ∧ asking n.directives ≠ none

namespace Emitter

variable {e : Emitter} {f g : Forest}

theorem keeps_start : start.Keeps .empty := by
  constructor
  case ordered => exact Forest.shows_empty.ordered
  case arena => rfl
  case typed => simp [start, Forest.node?, Forest.empty]

theorem asking_extends (h : f.Extends g) (id : Nat) :
    (∃ n, g.node? id = some n ∧ asking n.directives ≠ none) ↔
      ∃ n, f.node? id = some n ∧ asking n.directives ≠ none := by
  by_cases hid : id < f.size
  · rw [h.node? hid]
  -- a node that is new carries nothing yet
  · constructor
    · rintro ⟨n, hn, hasking⟩
      rw [h.directives_of_le hn (Nat.le_of_not_lt hid)] at hasking
      exact absurd rfl hasking
    · rintro ⟨n, hn, _⟩
      exact absurd (Forest.lt_size_of_node? hn) hid

theorem Keeps.push (h : e.Keeps f) (s : Selector) (v : Directive) : (e.push s v.tag? v).Keeps (f.attach s v) := by
  have hensure := h.ordered.ensure_stored s
  obtain ⟨⟨hg, hext⟩, hfound⟩ := Forest.ensure_ensures h.ordered s
  have hordered := Forest.ordered_attach h.ordered s v
  rw [Forest.attach] at hordered ⊢
  rw [Emitter.push, h.arena, hensure]
  generalize f.ensure s = r at hg hext hfound hordered
  obtain ⟨g, id⟩ := r
  obtain ⟨n, hn⟩ := Forest.exists_node?_of_lt (Forest.lt_size_of_find hfound)
  have htyped (j : Nat) : j ∈ e.typed ↔ ∃ n, g.node? j = some n ∧ asking n.directives ≠ none := by
    rw [h.typed, asking_extends hext]
  constructor
  case ordered => exact hordered
  case arena =>
    rw [Forest.stored_modify]
    apply Arena.modify_congr
    intro m hm
    obtain rfl : n = m := Option.some.inj (hn.symm.trans (congrFun (Forest.node?_stored g) id ▸ hm))
    have hid : id ∈ e.typed ↔ asking n.directives ≠ none := by simp [htyped, hn]
    exact (Node.attach_eq hid v).symm
  case typed =>
    intro j
    rw [Forest.node?_modify]
    have hmem : (j ∈ if v.tag?.isSome then e.typed.insert id else e.typed) ↔
        (j = id ∧ v.tag?.isSome) ∨ j ∈ e.typed := by
      split <;> simp [*]
    rw [hmem, htyped]
    by_cases hj : j = id
    · subst j
      simp [hn, Node.directives_attach, asking_joined, or_comm]
    · simp [hj]

theorem Keeps.place (h : e.Keeps f) (member : String) (a : Annotation) :
    (e.place member a).Keeps
      (((directive? member a).map fun v => (a.selector, v)).elim f fun p => f.attach p.1 p.2) := by
  cases a with
  | viewFor s => exact h.push s (.eachItem (.key member))
  | event k s => exact h.push s (.on k member)
  | mutation k path s =>
      cases k with
      | bind => exact h.push s (.bind path)
      | toggle => exact h
      | remove => exact h

theorem Keeps.annotations (h : e.Keeps f) (member : String) (as : List Annotation) :
    (as.foldl (Emitter.place member) e).Keeps ((as.filterMap fun a =>
      (directive? member a).map fun v => (a.selector, v)).foldl (fun f p => f.attach p.1 p.2) f) := by
  induction as generalizing e f with
  | nil => exact h
  | cons a as ih =>
      have hrest := ih (h.place member a)
      rw [List.foldl_cons, List.filterMap_cons]
      cases hv : (directive? member a).map fun v => (a.selector, v) with
      | none => rwa [hv] at hrest
      | some p => rwa [hv] at hrest

theorem Keeps.triggers (h : e.Keeps f) (member : String) (ts : List Trigger) :
    (ts.foldl (fun e t => e.on t.selector t.event member) e).Keeps
      ((ts.map fun t => (t.selector, Directive.on t.event member)).foldl (fun f p => f.attach p.1 p.2) f) := by
  induction ts generalizing e f with
  | nil => exact h
  | cons t ts ih => exact ih (h.push t.selector (.on t.event member))

theorem Keeps.member (h : e.Keeps f) (d : Descriptor) :
    (e.member d).Keeps ((placements d).foldl (fun f p => f.attach p.1 p.2) f) := by
  rw [placements, List.foldl_append]
  exact (h.annotations d.name d.annotations).triggers d.name _

theorem Keeps.members (h : e.Keeps f) (ds : List Descriptor) :
    (ds.foldl Emitter.member e).Keeps ((ds.flatMap placements).foldl (fun f p => f.attach p.1 p.2) f) := by
  induction ds generalizing e f with
  | nil => exact h
  | cons d ds ih =>
      rw [List.flatMap_cons, List.foldl_append]
      exact ih (h.member d)

end Emitter

/-- What is emitted is what is shown. -/
theorem emitted_eq_stored (s : Spec) : s.emitted = s.shown.stored :=
  (Emitter.keeps_start.members s.members).arena

theorem emitted_answers (s : Spec) : s.emitted.Answers s.shown := by
  rw [emitted_eq_stored]
  exact (shows_shown s).ordered.answers

end ViewWiring.View
