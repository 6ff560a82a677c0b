import Mathlib.Data.List.Forall2
import ViewWiring.Proofs.View.Trees

namespace ViewWiring.View

namespace Arena

def preorder? (a : Arena) (id : Nat) : Option (List Nat) :=
  if id < a.size then do
    let below ← (a.children id).mapM fun c => a |>.preorder? c
    return id :: below.flatten
  else return []
partial_fixpoint

structure WellFormed (a : Arena) : Prop where
  linked : ∀ id q, (a.children q).count id = if a.parent? id = some q then 1 else 0
  rooted : ∀ id, a.roots.count id = if id < a.size ∧ a.parent? id = none then 1 else 0
  inserted : a.roots.Pairwise (· < ·) ∧ ∀ q, (a.children q).Pairwise (· < ·)
  climbs : ∀ id, ∃ up, a.ancestors? id = some up ∧ id ∉ up
  descends : ∀ id, ∃ order, a.walkFrom? id = some order ∧ a.preorder? id = some order
  walks : ∃ order, a.walk? = some order ∧ order.Perm (List.range a.size) ∧ order.length = a.size ∧
    a.roots.Sublist order ∧ ∀ q < a.size, (q :: a.children q).Sublist order

end Arena

namespace Forest

variable {f : Forest} {t : Tree} {id q : Nat}

theorem mapM_map_eq_some {α β γ : Type} {g : α → β} {run : β → Option γ} {result : α → γ} {as : List α}
    (h : ∀ a ∈ as, run (g a) = some (result a)) : (as.map g).mapM run = some (as.map result) := by
  induction as with
  | nil => rfl
  | cons a as ih =>
      obtain ⟨ha, has⟩ := List.forall_mem_cons.mp h
      rw [List.map_cons, List.mapM_cons, ha, ih has]
      rfl

theorem Holds.lt_size (ht : f.Holds t) : t.number < f.size := by
  cases ht with
  | grown hn => exact lt_size_of_node? hn

theorem preorder_sublist {ts : List Tree} (h : t ∈ ts) : t.preorder.Sublist (ts.flatMap Tree.preorder) :=
  List.sublist_flatten_of_mem (List.mem_map_of_mem h)

/-- The node on top of the stack is visited with all that is below it before the rest. -/
theorem Rising.descend_stored (hf : f.Rising) (ht : f.Holds t) (stack visited : List Nat) :
    f.stored.descend (t.number :: stack) visited = f.stored.descend stack (visited ++ t.preorder) := by
  induction ht generalizing stack visited with
  | @grown id n ts hn hc hts ih =>
      -- for any of the children that are left, since the ones before have been visited by then
      have hall (us : List Tree) (hus : us ⊆ ts) (visited : List Nat) :
          f.stored.descend (us.map Tree.number ++ stack) visited =
            f.stored.descend stack (visited ++ us.flatMap Tree.preorder) := by
        induction us generalizing visited with
        | nil => simp
        | cons u us ihu =>
            obtain ⟨hu, hus⟩ := List.cons_subset.mp hus
            rw [List.map_cons, List.cons_append, ih u hu, ihu hus, List.flatMap_cons, List.append_assoc]
      have hstack : (f.stored.children id).reverse.foldl (fun stack c => c :: stack) stack =
          ts.map Tree.number ++ stack := by
        rw [hf.children_stored, hc]
        simp
      have hlt : id < f.stored.size := by
        rw [size_stored]
        exact lt_size_of_node? hn
      rw [Tree.number, Arena.descend]
      simp only [hlt, if_true, hstack, hall ts (List.Subset.refl ts), Tree.preorder_grown, List.append_assoc,
        List.singleton_append]

theorem Rising.walkFrom?_stored (hf : f.Rising) (ht : f.Holds t) :
    f.stored.walkFrom? t.number = some t.preorder := by
  rw [Arena.walkFrom?, hf.descend_stored ht, Arena.descend]
  rfl

/-- Counting the nodes that are left cuts no walk short. -/
theorem Holds.visit_eq (ht : f.Holds t) (left : Nat) (waiting : List Nat) :
    f.visit (t.preorder.length + left) (t.number :: waiting) = t.preorder ++ f.visit left waiting := by
  induction ht generalizing left waiting with
  | @grown id n ts hn hc hts ih =>
      have hall (us : List Tree) (hus : us ⊆ ts) (left : Nat) :
          f.visit ((us.flatMap Tree.preorder).length + left) (us.map Tree.number ++ waiting) =
            us.flatMap Tree.preorder ++ f.visit left waiting := by
        induction us generalizing left with
        | nil => simp
        | cons u us ihu =>
            obtain ⟨hu, hus⟩ := List.cons_subset.mp hus
            rw [List.flatMap_cons, List.length_append, List.map_cons, List.cons_append, Nat.add_assoc,
              ih u hu, ihu hus, List.append_assoc]
      rw [Tree.preorder_grown, List.length_cons, Nat.add_right_comm, Tree.number, visit, hc,
        hall ts (List.Subset.refl ts), List.cons_append]

theorem Rising.walk_eq (hf : f.Rising) : f.walk = Tree.preorderAll f.trees := by
  rw [walk, ← hf.number_trees, Tree.preorderAll_eq, List.flatMap_map]
  apply List.flatMap_congr
  intro t ht
  have hheld := hf.holds_trees t ht
  have hle : t.preorder.length ≤ f.size := by
    have hlength := hf.preorder_trees.length_eq
    rw [Tree.preorderAll_eq, List.length_range] at hlength
    exact hlength ▸ (preorder_sublist ht).length_le
  obtain ⟨left, hleft⟩ := Nat.exists_eq_add_of_le hle
  have hvisit := hheld.visit_eq left []
  rw [walkFrom, if_pos hheld.lt_size, hleft, hvisit]
  cases left <;> simp [visit]

/-- The walk of the whole is the walks of its trees, one after the other. -/
theorem Rising.walk?_stored (hf : f.Rising) : f.stored.walk? = some f.walk := by
  have hwalks := mapM_map_eq_some fun t ht => hf.walkFrom?_stored (hf.holds_trees t ht)
  rw [Arena.walk?, roots_stored, ← hf.number_trees, hwalks, hf.walk_eq, Tree.preorderAll_eq, List.flatMap_def,
    Option.map_some]

theorem Rising.preorder?_stored (hf : f.Rising) (ht : f.Holds t) :
    f.stored.preorder? t.number = some t.preorder := by
  induction ht with
  | @grown id n ts hn hc hts ih =>
      have hlt : id < f.stored.size := by
        rw [size_stored]
        exact lt_size_of_node? hn
      rw [Tree.number, Arena.preorder?, if_pos hlt, hf.children_stored, hc, mapM_map_eq_some ih,
        Tree.preorder_grown, List.flatMap_def]
      rfl

theorem not_stored {id : Nat} (h : ¬ id < f.size) :
    f.stored.walkFrom? id = some [] ∧ f.stored.preorder? id = some [] := by
  rw [← size_stored] at h
  rw [Arena.walkFrom?, Arena.descend, Arena.preorder?, if_neg h]
  simp only [h, if_false, Arena.descend]
  exact ⟨trivial, rfl⟩

theorem numbers_sublist_preorder (ts : List Tree) :
    (ts.map Tree.number).Sublist (ts.flatMap Tree.preorder) := by
  induction ts with
  | nil => exact .slnil
  | cons t ts ih =>
      have ht : [t.number].Sublist t.preorder := List.singleton_sublist.mpr t.number_mem_preorder
      rw [List.map_cons, List.flatMap_cons]
      exact ht.append ih

/-- A node comes before its children, and they in their order. -/
theorem Holds.sublist_preorder (ht : f.Holds t) (hq : q ∈ t.preorder) :
    (q :: f.children q).Sublist t.preorder := by
  induction ht with
  | @grown id n ts hn hc hts ih =>
      rw [Tree.preorder_grown, List.mem_cons, List.mem_flatMap] at hq
      rw [Tree.preorder_grown]
      rcases hq with rfl | ⟨t, ht, hq⟩
      · rw [hc]
        exact (numbers_sublist_preorder ts).cons_cons q
      · exact ((ih t ht hq).trans (preorder_sublist ht)).cons id

theorem Rising.wellFormed (hf : f.Rising) : f.stored.WellFormed := by
  have hbelow (parent : Option Nat) : (f.below parent).Nodup := (f.below_increasing parent).imp Nat.ne_of_lt
  have hwalk := hf.preorder_trees
  have hnumbers := hf.number_trees
  rw [Tree.preorderAll_eq] at hwalk
  constructor
  case linked =>
    intro id q
    rw [hf.children_stored, parent?_stored, children, (hbelow (some q)).count, ← children]
    simp only [mem_children_iff]
  case rooted =>
    intro id
    rw [roots_stored, size_stored, parent?_stored, roots, (hbelow none).count]
    simp only [mem_below_iff]
  case inserted =>
    rw [hf.children_stored]
    exact ⟨f.below_increasing none, fun q => f.below_increasing (some q)⟩
  case climbs =>
    intro id
    exact ⟨_, hf.ancestors?_stored id, fun h => Nat.lt_irrefl id (hf.lt_of_mem_ancestors h)⟩
  case descends =>
    intro id
    by_cases hid : id < f.size
    · obtain ⟨t, ht, rfl⟩ := hf.exists_holds hid
      exact ⟨_, hf.walkFrom?_stored ht, hf.preorder?_stored ht⟩
    · exact ⟨_, not_stored hid⟩
  case walks =>
    rw [hf.children_stored, size_stored, roots_stored, hf.walk?_stored, hf.walk_eq,
      Tree.preorderAll_eq, ← hnumbers]
    refine ⟨_, rfl, hwalk, by simp [hwalk.length_eq], numbers_sublist_preorder _, ?_⟩
    intro q hq
    obtain ⟨t, ht, hmem⟩ := List.mem_flatMap.mp (hwalk.mem_iff.mpr (List.mem_range.mpr hq))
    exact ((hf.holds_trees t ht).sublist_preorder hmem).trans (preorder_sublist ht)

end Forest

/-- However an arena is built, parents, children and roots tell of one ordered forest, and
the walk with a stack takes its nodes in preorder. -/
theorem built_links_form_forest {a : Arena} (h : a.Built) : a.WellFormed := by
  obtain ⟨f, hf, rfl⟩ := h.exists_forest
  exact hf.wellFormed

def gallery : Arena :=
  let rooted := (Arena.empty.insertRoot (.plain "photos")).insertRoot (.plain "albums")
  let filled := ((rooted.insertChild 0 (.plain "photo")).insertChild 1 (.plain "album")).insertChild 0 (.plain "more")
  filled.modify 4 fun n => { n with name := "add" }

theorem built_gallery : gallery.Built :=
  .edit (.child (.child (.child (.root (.root .empty _) _) (by decide) _) (by decide) _) (by decide) _) 4 _

theorem gallery_links_form_forest : gallery.Built ∧ gallery.children 0 = [2, 4] ∧ gallery.parent? 4 = some 0 ∧
    gallery.WellFormed := ⟨built_gallery, rfl, rfl, built_links_form_forest built_gallery⟩

end ViewWiring.View
