import Mathlib.Data.List.Nodup
import ViewWiring.Proofs.View.Standing
import ViewWiring.View.OfSpec

namespace ViewWiring.View

open Address

namespace Forest

def Extends (f g : Forest) : Prop :=
  ∃ more : List Planted, g.planted = f.planted ++ more ∧ ∀ p ∈ more, p.node.directives = []

def nodeAt (f : Forest) (s : Selector) : Option Node := (f.find s).bind f.node?

def directivesAt (f : Forest) (s : Selector) : List Directive := (f.nodeAt s).elim [] Node.directives

variable {f g : Forest} {parent : Option Nat} {name : String}

theorem lt_size_of_reach {scopes : List String} {id : Nat} (h : f.reach scopes = some (some id)) :
    id < f.size := by
  rcases List.eq_nil_or_concat scopes with rfl | ⟨scopes, name, rfl⟩
  · simp [reach_nil] at h
  · rw [List.concat_eq_append] at h
    obtain ⟨_, _, hname⟩ := reach_snoc.mp h
    exact lt_size_of_places (places_of_findBelow hname)

theorem lt_size_of_find {s : Selector} {id : Nat} (h : f.find s = some id) : id < f.size :=
  lt_size_of_reach (find_eq_some.mp h)

theorem address?_eq_some_iff (hf : f.Ordered) {id : Nat} {r : Selector} :
    f.address? id = some r ↔ f.find r = some id := by
  have hnode {n : Node} (hn : f.node? id = some n) : f.address? id = some r ↔ f.find r = some id := by
    obtain ⟨s, hs, hfind⟩ := find_address? hf hn
    constructor
    · intro h
      rwa [Option.some.inj (h.symm.trans hs)]
    · intro h
      rwa [find_inj h hfind]
  cases hn : f.node? id with
  | some n => exact hnode hn
  | none =>
      refine ⟨fun h => by simp [address?, hn] at h, fun h => ?_⟩
      obtain ⟨n, hn'⟩ := exists_node?_of_lt (lt_size_of_find h)
      exact (hnode hn').mpr h

theorem exists_address?_of_lt (hf : f.Ordered) {id : Nat} (h : id < f.size) :
    ∃ r, f.address? id = some r ∧ f.find r = some id := by
  obtain ⟨n, hn⟩ := exists_node?_of_lt h
  exact find_address? hf hn

theorem find_empty (s : Selector) : Forest.empty.find s = none := by
  cases hid : Forest.empty.find s with
  | none => rfl
  | some id => exact absurd (lt_size_of_find hid) (Nat.not_lt_zero id)

theorem Extends.refl (f : Forest) : f.Extends f := ⟨[], by simp, by simp⟩

theorem Extends.trans {e : Forest} (h : e.Extends f) (h' : f.Extends g) : e.Extends g := by
  obtain ⟨ps, hps, hplain⟩ := h
  obtain ⟨qs, hqs, hplain'⟩ := h'
  refine ⟨ps ++ qs, by rw [hqs, hps, List.append_assoc], ?_⟩
  intro p hp
  rcases List.mem_append.mp hp with hp | hp
  · exact hplain p hp
  · exact hplain' p hp

theorem Extends.findBelow (h : f.Extends g) {id : Nat} (hid : f.findBelow parent name = some id) :
    g.findBelow parent name = some id := by
  obtain ⟨more, hmore, _⟩ := h
  rw [Forest.findBelow, hmore, List.findIdx?_append, ← Forest.findBelow, hid]
  rfl

theorem Extends.reach (h : f.Extends g) {scopes : List String} {place : Option Nat}
    (hr : f.reach scopes = some place) : g.reach scopes = some place := by
  induction scopes using List.reverseRecOn generalizing place with
  | nil => exact hr
  | append_singleton scopes name ih =>
      cases place with
      | none => exact absurd hr (f.reach_snoc_ne scopes name)
      | some id =>
          obtain ⟨parent, hp, hname⟩ := reach_snoc.mp hr
          exact reach_snoc.mpr ⟨parent, ih hp, h.findBelow hname⟩

theorem Extends.places (h : f.Extends g) {id : Nat} (hid : id < f.size) : g.places[id]? = f.places[id]? := by
  obtain ⟨more, hmore, _⟩ := h
  rw [Forest.places, hmore, List.map_append, ← Forest.places, List.getElem?_append_left]
  rwa [length_places]

theorem Extends.node? (h : f.Extends g) {id : Nat} (hid : id < f.size) : g.node? id = f.node? id := by
  obtain ⟨more, hmore, _⟩ := h
  rw [Forest.node?, hmore, List.getElem?_append_left hid, Forest.node?]

theorem Extends.reach_of_lt (h : f.Extends g) (hf : f.Ordered) (hg : g.Ordered) {scopes : List String}
    {id : Nat} (hr : g.reach scopes = some (some id)) (hid : id < f.size) :
    f.reach scopes = some (some id) := by
  induction scopes using List.reverseRecOn generalizing id with
  | nil => simp [reach_nil] at hr
  | append_singleton scopes name ih =>
      obtain ⟨parent, hp, hname⟩ := reach_snoc.mp hr
      have hplace := (h.places hid).symm.trans (places_of_findBelow hname)
      refine reach_snoc.mpr ⟨parent, ?_, (findBelow_eq_some hf).mpr hplace⟩
      -- A parent has a smaller number than its child, so the way to it is old as well.
      cases parent with
      | none => rw [eq_nil_of_reach hp, reach_nil]
      | some p => exact ih hp (Nat.lt_trans (hg.parents id p name (places_of_findBelow hname)) hid)

theorem Extends.find (h : f.Extends g) {s : Selector} {id : Nat} (hid : f.find s = some id) :
    g.find s = some id :=
  find_eq_some.mpr (h.reach (find_eq_some.mp hid))

theorem Extends.le_of_find (h : f.Extends g) (hf : f.Ordered) (hg : g.Ordered) {s : Selector} {id : Nat}
    (hid : g.find s = some id) (hnone : f.find s = none) : f.size ≤ id := by
  apply Nat.le_of_not_lt
  intro hlt
  have hfound := find_eq_some.mpr (h.reach_of_lt hf hg (find_eq_some.mp hid) hlt)
  rw [hnone] at hfound
  cases hfound

theorem Extends.directives_of_le (h : f.Extends g) {id : Nat} {n : Node} (hn : g.node? id = some n)
    (hle : f.size ≤ id) : n.directives = [] := by
  obtain ⟨more, hmore, hplain⟩ := h
  obtain ⟨p, hp, rfl⟩ := Option.map_eq_some_iff.mp hn
  rw [hmore, List.getElem?_append_right hle] at hp
  exact hplain p (List.mem_of_getElem? hp)

/-- New nodes carry nothing, so no selector shows more than before. -/
theorem Extends.directivesAt (h : f.Extends g) (hf : f.Ordered) (hg : g.Ordered) (s : Selector) :
    g.directivesAt s = f.directivesAt s := by
  cases hold : f.find s with
  | some id =>
      have hlt := lt_size_of_find hold
      simp only [Forest.directivesAt, nodeAt, hold, h.find hold, Option.bind_some, h.node? hlt]
  | none =>
      simp only [Forest.directivesAt, nodeAt, hold, Option.bind_none, Option.elim_none]
      cases hnew : g.find s with
      | none => rfl
      | some id =>
          have hle := h.le_of_find hf hg hnew hold
          cases hn : g.node? id with
          | none => simp [hn]
          | some n => simp [hn, h.directives_of_le hn hle]

theorem places_insert (f : Forest) (parent : Option Nat) (n : Node) :
    (f.insert parent n).places = f.places ++ [(parent, n.name)] := List.map_append

theorem findBelow_eq_none (hf : f.Ordered) :
    f.findBelow parent name = none ↔ (parent, name) ∉ f.places := by
  rw [← not_iff_not, not_not, ← ne_eq, Option.ne_none_iff_exists', List.mem_iff_getElem?]
  simp only [findBelow_eq_some hf]

theorem ordered_insert (hf : f.Ordered) (hp : ∀ p, parent = some p → p < f.size)
    (hnone : f.findBelow parent name = none) : (f.insert parent (.plain name)).Ordered := by
  constructor
  · intro id p n h
    rw [places_insert] at h
    by_cases hid : id < f.places.length
    · rw [List.getElem?_append_left hid] at h
      exact hf.parents id p n h
    · have hle : f.size ≤ id := by
        rw [← length_places]
        exact Nat.le_of_not_lt hid
      rw [List.getElem?_append_right (Nat.le_of_not_lt hid), List.getElem?_singleton] at h
      split at h
      · exact Nat.lt_of_lt_of_le (hp p (congrArg Prod.fst (Option.some.inj h))) hle
      · cases h
  · rw [places_insert, ← List.concat_eq_append]
    exact .concat ((findBelow_eq_none hf).mp hnone) hf.siblings

structure Ensures (f g : Forest) : Prop where
  ordered : g.Ordered
  extend : f.Extends g

theorem ensureBelow_ensures (hf : f.Ordered) (hp : ∀ p, parent = some p → p < f.size) :
    f.Ensures (f.ensureBelow parent name).1 ∧
      (f.ensureBelow parent name).1.findBelow parent name = some (f.ensureBelow parent name).2 := by
  cases hid : f.findBelow parent name with
  | some id => simpa [ensureBelow, hid] using ⟨hf, Extends.refl f⟩
  | none =>
      have hg := ordered_insert hf hp hid
      have hplace : (f.insert parent (.plain name)).places[f.size]? = some (parent, name) := by
        rw [places_insert, ← length_places]
        simp [Node.plain]
      simp only [ensureBelow, hid]
      exact ⟨⟨hg, [⟨.plain name, parent⟩], rfl, by simp [Node.plain]⟩, (findBelow_eq_some hg).mpr hplace⟩

theorem ensureFrom_ensures (hf : f.Ordered) (hp : ∀ p, parent = some p → p < f.size)
    (rest : List String) : f.Ensures (f.ensureFrom parent name rest).1 ∧
      (f.ensureFrom parent name rest).1.findFrom parent name rest = some (f.ensureFrom parent name rest).2 := by
  induction rest generalizing f parent name with
  | nil => exact ensureBelow_ensures hf hp
  | cons next rest ih =>
      obtain ⟨hg, hid⟩ := @ensureBelow_ensures f parent name hf hp
      rw [ensureFrom]
      generalize f.ensureBelow parent name = r at hg hid
      obtain ⟨g, id⟩ := r
      have hsize : ∀ p, some id = some p → p < g.size := by
        rintro _ ⟨⟩
        exact lt_size_of_places (places_of_findBelow hid)
      obtain ⟨hh, hrest⟩ := @ih g (some id) next hg.ordered hsize
      refine ⟨⟨hh.ordered, hg.extend.trans hh.extend⟩, ?_⟩
      rw [findFrom, hh.extend.findBelow hid]
      exact hrest

theorem ensure_ensures (hf : f.Ordered) (s : Selector) :
    f.Ensures (f.ensure s).1 ∧ (f.ensure s).1.find s = some (f.ensure s).2 :=
  ensureFrom_ensures hf (by simp) s.inner

theorem places_modify (f : Forest) (id : Nat) {change : Node → Node} (h : ∀ n, (change n).name = n.name) :
    (f.modify id change).places = f.places := by
  apply List.ext_getElem?
  intro j
  simp only [places, modify, List.getElem?_map, List.getElem?_modify]
  by_cases hj : id = j
  · cases f.planted[j]? <;> simp [hj, h]
  · simp [hj]

theorem node?_modify (f : Forest) (id j : Nat) (change : Node → Node) :
    (f.modify id change).node? j = (f.node? j).map fun n => if j = id then change n else n := by
  simp only [node?, modify, List.getElem?_modify]
  by_cases hj : id = j
  · cases f.planted[j]? <;> simp [hj]
  · simp [hj, Ne.symm hj, Function.comp_def]

theorem findBelow_of_places (h : g.places = f.places) : g.findBelow = f.findBelow := by
  have hidx (e : Forest) (parent : Option Nat) (name : String) :
      e.findBelow parent name = e.places.findIdx? fun x => x.1 = parent && x.2 = name := by
    rw [findBelow, places, List.findIdx?_map]
    rfl
  funext parent name
  rw [hidx, hidx, h]

theorem find_of_places (h : g.places = f.places) (s : Selector) : g.find s = f.find s := by
  have hreach : g.reach s.scopes = f.reach s.scopes := by
    rw [reach, reach, findBelow_of_places h]
  apply Option.ext
  intro id
  rw [find_eq_some, find_eq_some, hreach]

theorem Ordered.of_places (hf : f.Ordered) (h : g.places = f.places) : g.Ordered :=
  ⟨h ▸ hf.parents, h ▸ hf.siblings⟩

end Forest

def joined (ds : List Directive) (v : Directive) : List Directive := if v ∈ ds then ds else ds ++ [v]

theorem Node.name_attach (n : Node) (v : Directive) : (n.attach v).name = n.name := by
  rw [attach]
  split <;> rfl

theorem Node.directives_attach (n : Node) (v : Directive) :
    (n.attach v).directives = joined n.directives v := by
  rw [attach, joined]
  split <;> rfl

theorem mem_joined {ds : List Directive} {u v : Directive} : u ∈ joined ds v ↔ u ∈ ds ∨ u = v := by
  rw [joined]
  split
  · exact ⟨.inl, fun h => h.elim id fun h => h ▸ ‹_›⟩
  · simp

theorem nodup_joined {ds : List Directive} (h : ds.Nodup) (v : Directive) : (joined ds v).Nodup := by
  rw [joined]
  split
  · exact h
  · rw [← List.concat_eq_append]
    exact .concat ‹_› h

namespace Forest

variable {f : Forest}

theorem ordered_attach (hf : f.Ordered) (s : Selector) (v : Directive) : (f.attach s v).Ordered :=
  (ensure_ensures hf s).1.ordered.of_places (places_modify _ _ fun n => n.name_attach v)

theorem directivesAt_attach (hf : f.Ordered) (s t : Selector) (v : Directive) :
    (f.attach s v).directivesAt t = if t = s then joined (f.directivesAt s) v else f.directivesAt t := by
  obtain ⟨⟨hg, hext⟩, hid⟩ := ensure_ensures hf s
  have hfind := find_of_places (places_modify (f.ensure s).1 (f.ensure s).2 fun n => n.name_attach v)
  rw [← hext.directivesAt hf hg s, ← hext.directivesAt hf hg t]
  simp only [attach, directivesAt, nodeAt, hfind]
  by_cases ht : t = s
  · obtain ⟨n, hn⟩ := exists_node?_of_lt (lt_size_of_find hid)
    simp [ht, hid, node?_modify, hn, Node.directives_attach]
  · rw [if_neg ht]
    cases hj : (f.ensure s).1.find t with
    | none => rfl
    | some j =>
        have hne : j ≠ (f.ensure s).2 := fun h => ht (find_inj hj (h ▸ hid))
        simp [node?_modify, hne]

end Forest

end ViewWiring.View
