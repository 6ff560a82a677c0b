import Mathlib.Data.List.Nodup
import ViewWiring.Proofs.View.Storage

namespace ViewWiring.View

namespace Tree

def number : Tree → Nat
  | grown id _ _ => id

theorem preorderAll_eq (ts : List Tree) : preorderAll ts = ts.flatMap preorder := by
  induction ts with
  | nil => rfl
  | cons t ts ih => rw [preorderAll, List.flatMap_cons, ih]

theorem preorder_grown (id : Nat) (n : Node) (ts : List Tree) :
    (grown id n ts).preorder = id :: ts.flatMap preorder := by
  rw [preorder, preorderAll_eq]

theorem number_mem_preorder (t : Tree) : t.number ∈ t.preorder := by
  cases t with
  | grown id n ts =>
      rw [preorder_grown]
      exact List.mem_cons_self

end Tree

namespace Forest

inductive Holds (f : Forest) : Tree → Prop
  | grown {id : Nat} {n : Node} {ts : List Tree} (hn : f.node? id = some n)
      (hc : f.children id = ts.map Tree.number) (hts : ∀ t ∈ ts, f.Holds t) : f.Holds (.grown id n ts)

variable {f : Forest} {start : Nat} {p : Planted} {ps : List Planted}

theorem grow_cons (start : Nat) (p : Planted) (ps : List Planted) :
    grow start (p :: ps) =
      (p.parent, .grown start p.node (((grow (start + 1) ps).filter fun t => t.1 = some start).map Prod.snd)) ::
        (grow (start + 1) ps).filter fun t => !decide (t.1 = some start) := by
  rw [grow, List.partition_eq_filter_filter]
  rfl

theorem preorder_grow (start : Nat) (ps : List Planted) :
    ((grow start ps).flatMap fun t => t.2.preorder).Perm (List.range' start ps.length) := by
  induction ps generalizing start with
  | nil => exact .nil
  | cons p ps ih =>
      have hparted := (List.filter_append_perm (fun t => t.1 = some start) (grow (start + 1) ps)).flatMap_right
        fun t => t.2.preorder
      rw [grow_cons, List.flatMap_cons, Tree.preorder_grown, List.flatMap_map, List.length_cons,
        List.range'_succ, List.cons_append, ← List.flatMap_append]
      exact (hparted.trans (ih (start + 1))).cons start

theorem Rising.children_eq (hf : f.Rising) (h : start < f.size) :
    f.children start =
      (List.range' (start + 1) (f.size - (start + 1))).filter fun id => f.parent? id = some start := by
  have hsplit : List.range f.size = List.range (start + 1) ++ List.range' (start + 1) (f.size - (start + 1)) := by
    have happend := @List.range'_append_1 0 (start + 1) (f.size - (start + 1))
    rw [Nat.zero_add, Nat.add_sub_cancel' h] at happend
    rw [List.range_eq_range', List.range_eq_range', happend]
  have hbefore : (List.range (start + 1)).filter (fun id => f.parent? id = some start) = [] := by
    rw [List.filter_eq_nil_iff]
    intro id hid hparent
    have hlt := hf id start (of_decide_eq_true hparent)
    exact absurd (List.mem_range.mp hid) (Nat.not_lt_of_le hlt)
  rw [children, below_eq, hsplit, List.filter_append, hbefore, List.nil_append]

/-- The trees are those of the nodes whose parents come before `start`, each with its
parent, out of `count` nodes from there on. -/
def Waiting (f : Forest) (start count : Nat) (ts : List (Option Nat × Tree)) : Prop :=
  ts.map (fun t => (t.1, t.2.number)) =
    ((List.range' start count).filter fun id => (f.parent? id).all (· < start)).map fun id => (f.parent? id, id)

theorem Waiting.filter {count : Nat} {ts : List (Option Nat × Tree)} (h : f.Waiting start count ts)
    (c : Option Nat → Bool) : (ts.filter fun t => c t.1).map (fun t => (t.1, t.2.number)) =
      ((List.range' start count).filter fun id => c (f.parent? id) && (f.parent? id).all (· < start)).map
        fun id => (f.parent? id, id) := by
  have hmap := congrArg (List.filter fun x => c x.1) h
  simpa only [List.filter_map, List.filter_filter, Function.comp_def] using hmap

/-- Out of the trees that wait, a node takes its children. -/
theorem Waiting.own {ts : List (Option Nat × Tree)} (hf : f.Rising) (hlt : start < f.size)
    (h : f.Waiting (start + 1) (f.size - (start + 1)) ts) :
    ((ts.filter fun t => t.1 = some start).map Prod.snd).map Tree.number = f.children start := by
  have hsnd := congrArg (List.map Prod.snd) (h.filter fun parent => parent = some start)
  rw [hf.children_eq hlt]
  simp only [List.map_map, Function.comp_def] at hsnd ⊢
  rw [hsnd, List.map_id']
  apply List.filter_congr
  intro id _
  by_cases hid : f.parent? id = some start <;> simp [hid]

theorem Waiting.others {count : Nat} {ts : List (Option Nat × Tree)} (h : f.Waiting (start + 1) count ts) :
    (ts.filter fun t => !decide (t.1 = some start)).map (fun t => (t.1, t.2.number)) =
      ((List.range' (start + 1) count).filter fun id => (f.parent? id).all (· < start)).map
        fun id => (f.parent? id, id) := by
  rw [h.filter fun parent => !decide (parent = some start)]
  congr 1
  apply List.filter_congr
  intro id _
  cases f.parent? id with
  | none => rfl
  | some q =>
      rw [Bool.eq_iff_iff]
      simp only [Option.all_some, Option.some.injEq, Bool.and_eq_true, Bool.not_eq_true', decide_eq_true_eq,
        decide_eq_false_iff_not]
      omega

/-- The trees that are grown from a number on are held, and those wait that have no
parent from there on. -/
theorem grow_waiting (hf : f.Rising) (h : f.planted.drop start = ps) :
    (∀ t ∈ grow start ps, f.Holds t.2) ∧ f.Waiting start ps.length (grow start ps) := by
  induction ps generalizing start with
  | nil => exact ⟨by simp [grow], rfl⟩
  | cons p ps ih =>
      have hp : f.planted[start]? = some p := by
        rw [← List.head?_drop, h]
        rfl
      have hrest : f.planted.drop (start + 1) = ps := by
        rw [← List.tail_drop, h]
        rfl
      have hlt : start < f.size := (List.getElem?_eq_some_iff.mp hp).1
      have hlength : ps.length = f.size - (start + 1) := by
        rw [← hrest, List.length_drop, size]
      obtain ⟨hheld, hwaiting⟩ := ih hrest
      rw [grow_cons]
      constructor
      · have hnode : f.node? start = some p.node := by rw [node?, hp, Option.map_some]
        have hown := (hlength ▸ hwaiting).own hf hlt
        have hgrown : ∀ t ∈ ((grow (start + 1) ps).filter fun t => t.1 = some start).map Prod.snd, f.Holds t := by
          intro t ht
          obtain ⟨x, hx, rfl⟩ := List.mem_map.mp ht
          exact hheld x (List.mem_of_mem_filter hx)
        rw [List.forall_mem_cons]
        exact ⟨.grown hnode hown.symm hgrown, fun t ht => hheld t (List.mem_of_mem_filter ht)⟩
      · have hparent : f.parent? start = p.parent := by
          rw [parent?, hp]
          rfl
        have hfirst : (f.parent? start).all (· < start) = true := by
          cases hq : f.parent? start with
          | none => rfl
          | some q => exact decide_eq_true (hf start q hq)
        rw [Waiting, List.map_cons, hwaiting.others, List.length_cons, List.range'_succ,
          List.filter_cons_of_pos (p := fun id => (f.parent? id).all (· < start)) hfirst, List.map_cons, hparent,
          Tree.number]

/-- No tree is left waiting, since no number comes before the first. -/
theorem Rising.grow_zero (hf : f.Rising) :
    (grow 0 f.planted).map (fun t => (t.1, t.2.number)) = f.roots.map fun id => (none, id) := by
  rw [(grow_waiting hf List.drop_zero).2, roots, below_eq, List.range_eq_range', size]
  have hroot (id : Nat) : (f.parent? id).all (· < 0) = decide (f.parent? id = none) := by
    cases f.parent? id <;> simp
  simp only [hroot]
  apply List.map_congr_left
  intro id hid
  have hnone : f.parent? id = none := by simpa using List.of_mem_filter hid
  rw [hnone]

theorem Rising.trees_eq (hf : f.Rising) : f.trees = (grow 0 f.planted).map Prod.snd := by
  rw [trees, List.filter_eq_self.mpr]
  intro t ht
  have hpair := List.mem_map_of_mem (f := fun t : Option Nat × Tree => (t.1, t.2.number)) ht
  rw [hf.grow_zero, List.mem_map] at hpair
  obtain ⟨id, _, heq⟩ := hpair
  exact decide_eq_true (congrArg Prod.fst heq).symm

theorem Rising.number_trees (hf : f.Rising) : f.trees.map Tree.number = f.roots := by
  have hsnd := congrArg (List.map Prod.snd) hf.grow_zero
  simpa [hf.trees_eq, Function.comp_def] using hsnd

theorem Rising.holds_trees (hf : f.Rising) : ∀ t ∈ f.trees, f.Holds t := by
  intro t ht
  rw [hf.trees_eq] at ht
  obtain ⟨x, hx, rfl⟩ := List.mem_map.mp ht
  exact (grow_waiting hf List.drop_zero).1 x hx

theorem Rising.preorder_trees (hf : f.Rising) : (Tree.preorderAll f.trees).Perm (List.range f.size) := by
  rw [Tree.preorderAll_eq, hf.trees_eq, List.flatMap_map, List.range_eq_range']
  exact preorder_grow 0 f.planted

/-- Below a node that is held, every node is. -/
theorem Holds.of_mem_preorder {t : Tree} (ht : f.Holds t) {id : Nat} (hid : id ∈ t.preorder) :
    ∃ u, f.Holds u ∧ u.number = id := by
  induction ht with
  | @grown root n ts hn hc hts ih =>
      rw [Tree.preorder_grown, List.mem_cons, List.mem_flatMap] at hid
      rcases hid with rfl | ⟨t, ht, hid⟩
      · exact ⟨_, .grown hn hc hts, rfl⟩
      · exact ih t ht hid

theorem Rising.exists_holds (hf : f.Rising) {id : Nat} (h : id < f.size) : ∃ t, f.Holds t ∧ t.number = id := by
  have hmem := hf.preorder_trees.mem_iff.mpr (List.mem_range.mpr h)
  rw [Tree.preorderAll_eq, List.mem_flatMap] at hmem
  obtain ⟨t, ht, hid⟩ := hmem
  exact (hf.holds_trees t ht).of_mem_preorder hid

end Forest

end ViewWiring.View
