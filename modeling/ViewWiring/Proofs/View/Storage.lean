import Mathlib.Data.List.Nodup
import ViewWiring.Proofs.View.Standing
import ViewWiring.View.Arena

namespace ViewWiring.View

namespace Arena

/-- What comes about by putting in nodes, below nodes that are there, and changing them. -/
inductive Built : Arena → Prop
  | empty : Built .empty
  | root {a : Arena} (h : a.Built) (n : Node) : (a.insertRoot n).Built
  | child {a : Arena} (h : a.Built) {p : Nat} (hp : p < a.size) (n : Node) : (a.insertChild p n).Built
  | edit {a : Arena} (h : a.Built) (id : Nat) (change : Node → Node) : (a.modify id change).Built

end Arena

namespace Forest

def Rising (f : Forest) : Prop := ∀ id p, f.parent? id = some p → p < id

def stored (f : Forest) : Arena :=
  ⟨f.planted.map Planted.node, (List.range f.size).map f.children, f.planted.map Planted.parent, f.roots⟩

variable {f : Forest} {parent : Option Nat} {id p q : Nat}

theorem lt_size_of_parent? (h : f.parent? id = some p) : id < f.size := by
  obtain ⟨x, hx, _⟩ := Option.bind_eq_some_iff.mp h
  exact (List.getElem?_eq_some_iff.mp hx).1

theorem lt_size_of_node? {n : Node} (h : f.node? id = some n) : id < f.size := by
  obtain ⟨x, hx, _⟩ := Option.map_eq_some_iff.mp h
  exact (List.getElem?_eq_some_iff.mp hx).1

theorem mem_below_iff : id ∈ f.below parent ↔ id < f.size ∧ f.parent? id = parent := by
  rw [mem_below]
  constructor
  · rintro ⟨name, hplace⟩
    obtain ⟨_, _, _, hparent⟩ := node?_of_places hplace
    exact ⟨lt_size_of_places hplace, hparent⟩
  · rintro ⟨hid, rfl⟩
    obtain ⟨n, hn⟩ := exists_node?_of_lt hid
    obtain ⟨parent, hplace⟩ := places_of_node? hn
    obtain ⟨_, _, _, hparent⟩ := node?_of_places hplace
    exact ⟨n.name, hparent ▸ hplace⟩

theorem mem_children_iff : id ∈ f.children p ↔ f.parent? id = some p := by
  rw [children, mem_below_iff, and_iff_right_of_imp lt_size_of_parent?]

/-- The nodes in one place are in the order of their numbers. -/
theorem below_eq (f : Forest) (parent : Option Nat) :
    f.below parent = (List.range f.size).filter fun id => f.parent? id = parent := by
  have hbelow := f.below_increasing parent
  have hrange : ((List.range f.size).filter fun id => f.parent? id = parent).Pairwise (· < ·) :=
    List.pairwise_lt_range.filter _
  have hperm : (f.below parent).Perm ((List.range f.size).filter fun id => f.parent? id = parent) := by
    rw [List.perm_ext_iff_of_nodup (hbelow.imp Nat.ne_of_lt) (hrange.imp Nat.ne_of_lt)]
    intro id
    simp [mem_below_iff]
  exact hperm.eq_of_pairwise (fun i j _ _ hij hji => absurd hij (Nat.lt_asymm hji)) hbelow hrange

theorem planted_insert (f : Forest) (parent : Option Nat) (n : Node) :
    (f.insert parent n).planted = f.planted ++ [⟨n, parent⟩] := rfl

theorem size_insert (f : Forest) (parent : Option Nat) (n : Node) : (f.insert parent n).size = f.size + 1 :=
  List.length_append

theorem parent?_insert (f : Forest) (parent : Option Nat) (n : Node) (id : Nat) :
    (f.insert parent n).parent? id = if id = f.size then parent else f.parent? id := by
  rw [parent?, planted_insert, List.getElem?_append, ← size]
  rcases Nat.lt_trichotomy id f.size with hlt | rfl | hgt
  · rw [if_pos hlt, if_neg (Nat.ne_of_lt hlt), parent?]
  · simp [size]
  · have hnone : f.parent? id = none := by
      rw [parent?, List.getElem?_eq_none (Nat.le_of_lt hgt)]
      rfl
    rw [if_neg (Nat.not_lt_of_lt hgt), if_neg (Nat.ne_of_gt hgt), hnone,
      List.getElem?_eq_none (Nat.le_sub_of_add_le' hgt)]
    rfl

theorem below_insert (f : Forest) (parent q : Option Nat) (n : Node) :
    (f.insert parent n).below q = f.below q ++ if parent = q then [f.size] else [] := by
  rw [below_eq, below_eq, size_insert, List.range_succ, List.filter_append]
  congr 1
  · apply List.filter_congr
    intro id hid
    rw [parent?_insert, if_neg (Nat.ne_of_lt (List.mem_range.mp hid))]
  · by_cases h : parent = q <;> simp [parent?_insert, h]

theorem children_insert (f : Forest) (parent : Option Nat) (n : Node) :
    (f.insert parent n).children = fun id => f.children id ++ if parent = some id then [f.size] else [] :=
  funext fun id => below_insert f parent (some id) n

theorem roots_insert (f : Forest) (parent : Option Nat) (n : Node) :
    (f.insert parent n).roots = f.roots ++ if parent = none then [f.size] else [] :=
  below_insert f parent none n

theorem parent?_modify (f : Forest) (id : Nat) (change : Node → Node) :
    (f.modify id change).parent? = f.parent? := by
  funext j
  rw [parent?, modify, List.getElem?_modify]
  by_cases h : id = j <;> cases hj : f.planted[j]? <;> simp [parent?, h, hj]

theorem size_modify (f : Forest) (id : Nat) (change : Node → Node) : (f.modify id change).size = f.size :=
  List.length_modify ..

theorem below_modify (f : Forest) (id : Nat) (change : Node → Node) : (f.modify id change).below = f.below := by
  funext parent
  rw [below_eq, below_eq, size_modify, parent?_modify]

theorem children_modify (f : Forest) (id : Nat) (change : Node → Node) :
    (f.modify id change).children = f.children := by
  funext p
  rw [children, below_modify, children]

theorem rising_empty : Forest.empty.Rising := by
  intro id p h
  exact absurd (lt_size_of_parent? h) (Nat.not_lt_zero id)

theorem Rising.insert (hf : f.Rising) (hp : ∀ p, parent = some p → p < f.size) (n : Node) :
    (f.insert parent n).Rising := by
  intro id p h
  rw [parent?_insert] at h
  split at h
  case isTrue heq => exact heq ▸ hp p h
  case isFalse => exact hf id p h

theorem Rising.modify (hf : f.Rising) (id : Nat) (change : Node → Node) : (f.modify id change).Rising := by
  rw [Rising, parent?_modify]
  exact hf

theorem Rising.children_of_le (hf : f.Rising) (h : f.size ≤ p) : f.children p = [] := by
  apply List.eq_nil_iff_forall_not_mem.mpr
  intro id hid
  have hparent := mem_children_iff.mp hid
  exact absurd (Nat.lt_trans (hf id p hparent) (lt_size_of_parent? hparent)) (Nat.not_lt_of_le h)

theorem Ordered.rising (hf : f.Ordered) : f.Rising := by
  intro id p h
  obtain ⟨n, hn⟩ := exists_node?_of_lt (lt_size_of_parent? h)
  obtain ⟨parent, hplace⟩ := places_of_node? hn
  obtain ⟨_, _, _, hparent⟩ := node?_of_places hplace
  obtain rfl := hparent.symm.trans h
  exact hf.parents id p n.name hplace

theorem size_stored (f : Forest) : f.stored.size = f.size := List.length_map _

theorem node?_stored (f : Forest) : f.stored.node? = f.node? := by
  funext id
  exact List.getElem?_map ..

theorem parent?_stored (f : Forest) : f.stored.parent? = f.parent? := by
  funext id
  rw [Arena.parent?, stored, List.getElem?_map, parent?]
  cases f.planted[id]? <;> rfl

theorem roots_stored (f : Forest) : f.stored.roots = f.roots := rfl

theorem Rising.children_stored (hf : f.Rising) : f.stored.children = f.children := by
  funext id
  rw [Arena.children, stored, List.getElem?_map]
  by_cases h : id < f.size
  · simp [h]
  · rw [hf.children_of_le (Nat.le_of_not_lt h), List.getElem?_eq_none (by simpa using h)]
    rfl

theorem Rising.childLists_snoc (hf : f.Rising) :
    f.stored.childLists ++ [[]] = (List.range (f.size + 1)).map f.children := by
  rw [List.range_succ, List.map_append, List.map_singleton, hf.children_of_le (Nat.le_refl _), stored]

theorem modify_map_range (g : Nat → List Nat) (n p : Nat) (more : List Nat) :
    ((List.range n).map g).modify p (· ++ more) =
      (List.range n).map fun id => g id ++ if p = id then more else [] := by
  apply List.ext_getElem?
  intro id
  rw [List.getElem?_modify, List.getElem?_map, List.getElem?_map]
  by_cases hid : id < n
  · by_cases hp : p = id <;> simp [hid, hp]
  · simp [hid]

theorem Rising.stored_insertRoot (hf : f.Rising) (n : Node) :
    (f.insert none n).stored = f.stored.insertRoot n := by
  rw [Arena.insertRoot, Arena.mk.injEq, hf.childLists_snoc, size_stored]
  refine ⟨?_, ?_, ?_, ?_⟩
  · simp [stored, planted_insert]
  · simp [stored, size_insert, children_insert]
  · simp [stored, planted_insert]
  · simp [roots_stored, roots_insert]

theorem Rising.stored_insertChild (hf : f.Rising) (p : Nat) (n : Node) :
    (f.insert (some p) n).stored = f.stored.insertChild p n := by
  rw [Arena.insertChild, Arena.mk.injEq, hf.childLists_snoc, size_stored, modify_map_range]
  refine ⟨?_, ?_, ?_, ?_⟩
  · simp [stored, planted_insert]
  · simp [stored, size_insert, children_insert]
  · simp [stored, planted_insert]
  · simp [roots_stored, roots_insert]

theorem stored_modify (f : Forest) (id : Nat) (change : Node → Node) :
    (f.modify id change).stored = f.stored.modify id change := by
  have hnodes : (f.modify id change).stored.nodes = f.stored.nodes.modify id change := by
    apply List.ext_getElem?
    intro j
    simp only [stored, modify, List.getElem?_map, List.getElem?_modify]
    by_cases h : id = j <;> cases f.planted[j]? <;> simp [h]
  have hparents : (f.modify id change).stored.parents = f.stored.parents := by
    apply List.ext_getElem?
    intro j
    simp only [stored, modify, List.getElem?_map, List.getElem?_modify]
    by_cases h : id = j <;> cases f.planted[j]? <;> simp [h]
  rw [Arena.modify, Arena.mk.injEq]
  refine ⟨hnodes, ?_, hparents, congrFun (below_modify f id change) none⟩
  rw [stored, size_modify, children_modify, stored]

theorem ancestors_of_root (h : f.parent? id = none) : f.ancestors id = [] := by
  rw [ancestors, h]

theorem Rising.ancestors_of_child (hf : f.Rising) (h : f.parent? id = some p) :
    f.ancestors id = p :: f.ancestors p := by
  rw [ancestors, h]
  exact if_pos (hf id p h)

theorem Rising.lt_of_mem_ancestors (hf : f.Rising) (h : q ∈ f.ancestors id) : q < id := by
  induction id using Nat.strongRecOn with
  | ind id ih =>
      cases hparent : f.parent? id with
      | none =>
          rw [ancestors_of_root hparent] at h
          cases h
      | some p =>
          have hlt := hf id p hparent
          rw [hf.ancestors_of_child hparent] at h
          rcases List.mem_cons.mp h with rfl | h
          · exact hlt
          · exact Nat.lt_trans (ih p hlt h) hlt

theorem Rising.climb_stored (hf : f.Rising) (id : Nat) (passed : List Nat) :
    f.stored.climb id passed = some (passed ++ f.ancestors id) := by
  induction id using Nat.strongRecOn generalizing passed with
  | ind id ih =>
      rw [Arena.climb, parent?_stored]
      cases hparent : f.parent? id with
      | none => simp [ancestors_of_root hparent]
      | some p => simp [ih p (hf id p hparent), hf.ancestors_of_child hparent]

theorem Rising.ancestors?_stored (hf : f.Rising) (id : Nat) :
    f.stored.ancestors? id = some (f.ancestors id) := hf.climb_stored id []

theorem Rising.mapM_ancestors (hf : f.Rising) (id : Nat) :
    (f.ancestors id).mapM f.node? = some ((f.ancestors id).filterMap f.node?) := by
  induction id using Nat.strongRecOn with
  | ind id ih =>
      cases hparent : f.parent? id with
      | none =>
          rw [ancestors_of_root hparent]
          rfl
      | some p =>
          have hlt := hf id p hparent
          obtain ⟨n, hn⟩ := exists_node?_of_lt (Nat.lt_trans hlt (lt_size_of_parent? hparent))
          simp [hf.ancestors_of_child hparent, hn, ih p hlt]

theorem Rising.selectorOf?_stored (hf : f.Rising) (id : Nat) :
    f.stored.selectorOf? id = some (f.address? id) := by
  rw [Arena.selectorOf?, hf.ancestors?_stored, node?_stored, address?]
  cases f.node? id with
  | none => rfl
  | some n =>
      dsimp only [Option.bind_eq_bind, Option.bind_some]
      rw [hf.mapM_ancestors, Option.bind_some]
      cases ((f.ancestors id).filterMap f.node?).reverse.map Node.name <;> rfl

end Forest

/-- Whatever is built keeps a forest. -/
theorem Arena.Built.exists_forest {a : Arena} (h : a.Built) : ∃ f : Forest, f.Rising ∧ f.stored = a := by
  induction h with
  | empty => exact ⟨.empty, Forest.rising_empty, rfl⟩
  | root _ n ih =>
      obtain ⟨f, hf, rfl⟩ := ih
      exact ⟨f.insert none n, hf.insert (by simp) n, hf.stored_insertRoot n⟩
  | child _ hp n ih =>
      obtain ⟨f, hf, rfl⟩ := ih
      rw [Forest.size_stored] at hp
      exact ⟨f.insert (some _) n, hf.insert (fun q hq => Option.some.inj hq ▸ hp) n, hf.stored_insertChild _ n⟩
  | edit _ id change ih =>
      obtain ⟨f, hf, rfl⟩ := ih
      exact ⟨f.modify id change, hf.modify id change, f.stored_modify id change⟩

end ViewWiring.View
