import Mathlib.Data.List.Induction
import ViewWiring.View.Forest

namespace ViewWiring.Address.Selector

theorem enclosing_within (s : Selector) (name : String) :
    (s.within name).enclosing = s.enclosing ++ [s.within name] := by
  have hdepth : (s.within name).depth = s.depth + 1 := by simp [within, depth]
  rw [enclosing, hdepth, List.range_succ, List.map_append, List.map_singleton, enclosing]
  congr 1
  · apply List.map_congr_left
    intro n hn
    have hle : n ≤ s.inner.length := Nat.le_of_lt_succ (List.mem_range.mp hn)
    simp [within, List.take_append_of_le_length hle]
  · simp [within, depth, List.take_of_length_le]

end ViewWiring.Address.Selector

namespace ViewWiring.View

open Address

namespace Forest

def places (f : Forest) : List (Option Nat × String) := f.planted.map fun p => (p.parent, p.node.name)

structure Ordered (f : Forest) : Prop where
  parents : ∀ (id p : Nat) (name : String), f.places[id]? = some (some p, name) → p < id
  siblings : f.places.Nodup

def reach (f : Forest) (scopes : List String) : Option (Option Nat) :=
  scopes.foldlM (fun p name => (f.findBelow p name).map some) none

variable {f : Forest}

theorem length_places (f : Forest) : f.places.length = f.size := List.length_map _

theorem lt_size_of_places {id : Nat} {x : Option Nat × String} (h : f.places[id]? = some x) :
    id < f.size := by
  rw [← f.length_places]
  exact (List.getElem?_eq_some_iff.mp h).1

theorem places_of_findBelow {parent : Option Nat} {name : String} {id : Nat}
    (h : f.findBelow parent name = some id) : f.places[id]? = some (parent, name) := by
  obtain ⟨hid, hp, _⟩ := List.findIdx?_eq_some_iff_getElem.mp h
  simp only [Bool.and_eq_true, decide_eq_true_eq] at hp
  rw [places, List.getElem?_map, List.getElem?_eq_getElem hid]
  simp [hp]

theorem findBelow_eq_some (hf : f.Ordered) {parent : Option Nat} {name : String} {id : Nat} :
    f.findBelow parent name = some id ↔ f.places[id]? = some (parent, name) := by
  refine ⟨places_of_findBelow, fun h => ?_⟩
  cases hj : f.findBelow parent name with
  | none =>
      obtain ⟨p, hp, hpl⟩ := List.mem_map.mp (List.mem_of_getElem? h)
      have hno := List.findIdx?_eq_none_iff.mp hj p hp
      cases hpl
      simp at hno
  | some j =>
      have hplaces := (places_of_findBelow hj).trans h.symm
      have hlt : j < f.places.length := by
        rw [length_places]
        exact lt_size_of_places (places_of_findBelow hj)
      rw [(List.getElem?_inj hlt hf.siblings).mp hplaces]

theorem reach_nil (f : Forest) : f.reach [] = some none := rfl

theorem reach_snoc {scopes : List String} {name : String} {id : Nat} :
    f.reach (scopes ++ [name]) = some (some id) ↔
      ∃ parent, f.reach scopes = some parent ∧ f.findBelow parent name = some id := by
  simp [reach, List.foldlM_append, Option.bind_eq_some_iff]

theorem reach_snoc_ne (f : Forest) (scopes : List String) (name : String) :
    f.reach (scopes ++ [name]) ≠ some none := by
  simp [reach, List.foldlM_append, Option.bind_eq_some_iff]

theorem eq_nil_of_reach {scopes : List String} (h : f.reach scopes = some none) : scopes = [] := by
  induction scopes using List.reverseRecOn with
  | nil => rfl
  | append_singleton scopes name => exact absurd h (f.reach_snoc_ne scopes name)

theorem findFrom_eq (f : Forest) (parent : Option Nat) (name : String) (rest : List String) :
    (f.findFrom parent name rest).map some =
      (name :: rest).foldlM (fun p name => (f.findBelow p name).map some) parent := by
  induction rest generalizing parent name with
  | nil => simp [findFrom]
  | cons next rest ih =>
      rw [findFrom, List.foldlM_cons]
      cases f.findBelow parent name with
      | none => rfl
      | some id => exact ih (some id) next

theorem find_eq_some {s : Selector} {id : Nat} : f.find s = some id ↔ f.reach s.scopes = some (some id) := by
  rw [reach, Selector.scopes, ← findFrom_eq, find]
  simp

theorem reach_inj {scopes scopes' : List String} {id : Nat}
    (h : f.reach scopes = some (some id)) (h' : f.reach scopes' = some (some id)) : scopes = scopes' := by
  induction scopes using List.reverseRecOn generalizing scopes' id with
  | nil => simp [reach_nil] at h
  | append_singleton scopes name ih =>
      rcases List.eq_nil_or_concat scopes' with rfl | ⟨scopes', name', rfl⟩
      · simp [reach_nil] at h'
      obtain ⟨parent, hp, hname⟩ := reach_snoc.mp h
      rw [List.concat_eq_append] at h' ⊢
      obtain ⟨parent', hp', hname'⟩ := reach_snoc.mp h'
      have hsame := (places_of_findBelow hname).symm.trans (places_of_findBelow hname')
      obtain ⟨rfl, rfl⟩ : parent = parent' ∧ name = name' := by simpa using hsame
      cases parent with
      | none => rw [eq_nil_of_reach hp, eq_nil_of_reach hp']
      | some p => rw [ih hp hp']

theorem scopes_injective {s t : Selector} (h : s.scopes = t.scopes) : s = t := by
  cases s
  cases t
  simpa [Selector.scopes] using h

theorem find_inj {s t : Selector} {id : Nat} (hs : f.find s = some id) (ht : f.find t = some id) : s = t :=
  scopes_injective (reach_inj (find_eq_some.mp hs) (find_eq_some.mp ht))

def around (f : Forest) (id : Nat) : List String :=
  ((f.ancestors id).filterMap f.node?).reverse.map Node.name

theorem node?_of_places {id : Nat} {parent : Option Nat} {name : String}
    (h : f.places[id]? = some (parent, name)) :
    ∃ n, f.node? id = some n ∧ n.name = name ∧ f.parent? id = parent := by
  rw [places, List.getElem?_map, Option.map_eq_some_iff] at h
  obtain ⟨p, hp, hpl⟩ := h
  cases hpl
  exact ⟨p.node, by simp [node?, hp], rfl, by simp [parent?, hp]⟩

theorem exists_node?_of_lt {id : Nat} (h : id < f.size) : ∃ n, f.node? id = some n := by
  rw [node?, List.getElem?_eq_getElem h]
  exact ⟨_, rfl⟩

theorem places_of_node? {id : Nat} {n : Node} (h : f.node? id = some n) :
    ∃ parent, f.places[id]? = some (parent, n.name) := by
  obtain ⟨p, hp, rfl⟩ := Option.map_eq_some_iff.mp h
  exact ⟨p.parent, by simp [places, hp]⟩

theorem around_of_root {id : Nat} (h : f.parent? id = none) : f.around id = [] := by
  rw [around, ancestors, h]
  rfl

theorem around_of_child {id p : Nat} {n : Node} (h : f.parent? id = some p) (hlt : p < id)
    (hn : f.node? p = some n) : f.around id = f.around p ++ [n.name] := by
  rw [around, ancestors, h]
  simp [hlt, hn, around]

theorem reach_around (hf : f.Ordered) {id : Nat} {n : Node} (h : f.node? id = some n) :
    f.reach (f.around id ++ [n.name]) = some (some id) := by
  induction id using Nat.strongRecOn generalizing n with
  | ind id ih =>
      obtain ⟨parent, hplace⟩ := places_of_node? h
      obtain ⟨_, _, _, hparent⟩ := node?_of_places hplace
      refine reach_snoc.mpr ⟨parent, ?_, (findBelow_eq_some hf).mpr hplace⟩
      cases parent with
      | none => rw [around_of_root hparent, reach_nil]
      | some p =>
          have hlt := hf.parents id p n.name hplace
          obtain ⟨m, hm⟩ := exists_node?_of_lt (Nat.lt_trans hlt (lt_size_of_places hplace))
          rw [around_of_child hparent hlt hm]
          exact ih p hlt hm

theorem scopes_address? {id : Nat} {n : Node} (h : f.node? id = some n) :
    ∃ s, f.address? id = some s ∧ s.scopes = f.around id ++ [n.name] := by
  rw [address?, h]
  simp only [around]
  cases ((f.ancestors id).filterMap f.node?).reverse.map Node.name with
  | nil => exact ⟨_, rfl, rfl⟩
  | cons outermost inner => exact ⟨_, rfl, rfl⟩

theorem find_address? (hf : f.Ordered) {id : Nat} {n : Node} (h : f.node? id = some n) :
    ∃ s, f.address? id = some s ∧ f.find s = some id := by
  obtain ⟨s, hs, hscopes⟩ := scopes_address? h
  refine ⟨s, hs, find_eq_some.mpr ?_⟩
  rw [hscopes]
  exact reach_around hf h

theorem address?_of_root {id : Nat} {n : Node} (h : f.node? id = some n) (hp : f.parent? id = none) :
    f.address? id = some ⟨n.name, []⟩ := by
  obtain ⟨s, hs, hscopes⟩ := scopes_address? h
  rw [around_of_root hp] at hscopes
  obtain rfl : s = ⟨n.name, []⟩ := scopes_injective hscopes
  exact hs

theorem address?_of_child {id p : Nat} {n m : Node} {s : Selector} (h : f.node? id = some n)
    (hp : f.parent? id = some p) (hlt : p < id) (hm : f.node? p = some m) (hs : f.address? p = some s) :
    f.address? id = some (s.within n.name) := by
  obtain ⟨t, ht, hscopes⟩ := scopes_address? h
  obtain ⟨s', hs', hscopes'⟩ := scopes_address? hm
  obtain rfl : s = s' := Option.some.inj (hs.symm.trans hs')
  have hwithin : (s.within n.name).scopes = s.scopes ++ [n.name] := rfl
  rw [around_of_child hp hlt hm, ← hscopes', ← hwithin] at hscopes
  obtain rfl : t = s.within n.name := scopes_injective hscopes
  exact ht

/-- The enclosing scopes of a node's address are its ancestors and the node. -/
theorem find_enclosing (hf : f.Ordered) {id : Nat} {n : Node} {s : Selector} (h : f.node? id = some n)
    (hs : f.address? id = some s) : s.enclosing.map f.find = (id :: f.ancestors id).reverse.map some := by
  induction id using Nat.strongRecOn generalizing n s with
  | ind id ih =>
      obtain ⟨parent, hplace⟩ := places_of_node? h
      obtain ⟨_, _, _, hparent⟩ := node?_of_places hplace
      obtain ⟨s', hs', hfind⟩ := find_address? hf h
      obtain rfl : s = s' := Option.some.inj (hs.symm.trans hs')
      cases parent with
      | none =>
          have haddress := address?_of_root h hparent
          obtain rfl : s = ⟨n.name, []⟩ := Option.some.inj (hs.symm.trans haddress)
          rw [ancestors, hparent]
          simp [Selector.enclosing, Selector.depth, hfind]
      | some p =>
          have hlt := hf.parents id p n.name hplace
          obtain ⟨m, hm⟩ := exists_node?_of_lt (Nat.lt_trans hlt (lt_size_of_places hplace))
          obtain ⟨r, hr, _⟩ := scopes_address? hm
          have haddress := address?_of_child h hparent hlt hm hr
          obtain rfl : s = r.within n.name := Option.some.inj (hs.symm.trans haddress)
          have hancestors : f.ancestors id = p :: f.ancestors p := by
            rw [ancestors, hparent]
            simp [hlt]
          rw [Selector.enclosing_within, List.map_append, ih p hlt hm hr, List.map_singleton, hfind, hancestors]
          simp

theorem mem_below {parent : Option Nat} {id : Nat} :
    id ∈ f.below parent ↔ ∃ name, f.places[id]? = some (parent, name) := by
  simp only [below, places, List.mem_filterMap, Prod.exists, List.mem_zipIdx_iff_getElem?,
    List.getElem?_map, Option.map_eq_some_iff, Prod.mk.injEq]
  constructor
  · rintro ⟨p, j, hj, h⟩
    obtain ⟨hp, rfl⟩ : p.parent = parent ∧ j = id := by simpa using h
    exact ⟨p.node.name, p, hj, hp, rfl⟩
  · rintro ⟨_, p, hp, hparent, rfl⟩
    exact ⟨p, id, hp, by rw [if_pos hparent]⟩

theorem below_increasing (f : Forest) (parent : Option Nat) : (f.below parent).Pairwise (· < ·) := by
  have hids : (f.planted.zipIdx.map Prod.snd).Pairwise (· < ·) := by
    rw [List.zipIdx_map_snd]
    exact List.pairwise_lt_range'
  rw [below, List.pairwise_filterMap]
  refine (List.pairwise_map.mp hids).imp ?_
  intro x y hlt i hi j hj
  obtain ⟨_, rfl⟩ : x.1.parent = parent ∧ x.2 = i := by simpa using hi
  obtain ⟨_, rfl⟩ : y.1.parent = parent ∧ y.2 = j := by simpa using hj
  exact hlt

end Forest

end ViewWiring.View
