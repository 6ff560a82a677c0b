import ViewWiring.Proofs.View.Growth

namespace ViewWiring.Address.Selector

theorem parent?_within (s : Selector) (name : String) : (s.within name).parent? = some s := by
  simp [parent?, within]

end ViewWiring.Address.Selector

namespace ViewWiring.View

open Address Component

namespace Forest

structure Unfolds (f : Forest) (rs : List Selector) : Prop where
  addresses : Set.BijOn f.address? {id | id < f.size} (some '' {r | Names rs r})
  parents : ∀ id r, f.address? id = some r → (f.parent? id).map f.address? = r.parent?.map some
  roots : (f.roots.map fun id => (f.node? id).map Node.name).Nodup
  children : ∀ id, ((f.children id).map fun j => (f.node? j).map Node.name).Nodup
  finds : ∀ id < f.size, (f.address? id).bind f.find = some id
  found : ∀ r id, f.find r = some id → f.address? id = some r
  missing : ∀ r, f.find r = none ↔ ¬ Names rs r

variable {f : Forest} {rs : List Selector}

theorem parent?_address? (hf : f.Ordered) {id : Nat} {r : Selector} (h : f.address? id = some r) :
    (f.parent? id).map f.address? = r.parent?.map some := by
  obtain ⟨n, hn⟩ := exists_node?_of_lt (lt_size_of_find ((address?_eq_some_iff hf).mp h))
  obtain ⟨parent, hplace⟩ := places_of_node? hn
  obtain ⟨_, _, _, hparent⟩ := node?_of_places hplace
  cases parent with
  | none =>
      obtain rfl := Option.some.inj (h.symm.trans (address?_of_root hn hparent))
      rw [hparent]
      rfl
  | some p =>
      have hlt := hf.parents id p n.name hplace
      have hp := Nat.lt_trans hlt (lt_size_of_places hplace)
      obtain ⟨m, hm⟩ := exists_node?_of_lt hp
      obtain ⟨q, hq, _⟩ := exists_address?_of_lt hf hp
      obtain rfl := Option.some.inj (h.symm.trans (address?_of_child hn hparent hlt hm hq))
      rw [hparent, Selector.parent?_within, Option.map_some, Option.map_some, hq]

theorem nodup_names_below (hf : f.Ordered) (parent : Option Nat) :
    ((f.below parent).map fun id => (f.node? id).map Node.name).Nodup := by
  apply List.Nodup.map_on
  · intro i hi j hj hname
    obtain ⟨m, hi⟩ := mem_below.mp hi
    obtain ⟨n, hj⟩ := mem_below.mp hj
    obtain ⟨x, hx, rfl, _⟩ := node?_of_places hi
    obtain ⟨y, hy, rfl, _⟩ := node?_of_places hj
    rw [hx, hy, Option.map_some, Option.map_some, Option.some.injEq] at hname
    rw [hname] at hi
    exact Option.some.inj (((findBelow_eq_some hf).mpr hi).symm.trans ((findBelow_eq_some hf).mpr hj))
  · exact (f.below_increasing parent).imp Nat.ne_of_lt

theorem unfolds_of_named (hf : f.Ordered) (hnamed : ∀ r, (f.find r).isSome ↔ Names rs r) : f.Unfolds rs := by
  constructor
  case addresses =>
    refine ⟨?_, ?_, ?_⟩
    · intro id hid
      obtain ⟨r, hr, hfind⟩ := exists_address?_of_lt hf hid
      exact ⟨r, (hnamed r).mp (hfind ▸ rfl), hr.symm⟩
    · intro i hi j _ hsame
      obtain ⟨r, hr, hfind⟩ := exists_address?_of_lt hf hi
      have hj := (address?_eq_some_iff hf).mp (hsame.symm.trans hr)
      exact Option.some.inj (hfind.symm.trans hj)
    · rintro _ ⟨r, hr, rfl⟩
      obtain ⟨id, hid⟩ := Option.isSome_iff_exists.mp ((hnamed r).mpr hr)
      exact ⟨id, lt_size_of_find hid, (address?_eq_some_iff hf).mpr hid⟩
  case parents => exact fun id r => parent?_address? hf
  case roots => exact nodup_names_below hf none
  case children => exact fun id => nodup_names_below hf (some id)
  case finds =>
    intro id hid
    obtain ⟨r, hr, hfind⟩ := exists_address?_of_lt hf hid
    rw [hr, Option.bind_some, hfind]
  case found => exact fun r id => (address?_eq_some_iff hf).mpr
  case missing =>
    intro r
    rw [← hnamed r, Option.not_isSome_iff_eq_none]

end Forest

/-- The scopes that a definition names are shown, each by one node. -/
theorem shown_unfolds_selectors {d : Definition} {s : Spec} (h : d.validate = .ok s) :
    s.shown.Unfolds d.selectors := by
  have hgrown := grownAlong_shown (Spec.compiles_of_validate h)
  apply Forest.unfolds_of_named hgrown.ordered
  intro r
  rw [hgrown.named, d.names_showing]

theorem lamp_shown_unfolds : lamp.validate = .ok lampSpec ∧ lampSpec.shown.Unfolds lamp.selectors ∧
    lampSpec.shown.find ⟨"lamp", []⟩ ≠ none ∧ lampSpec.shown.find ⟨"lamp", ["shade"]⟩ = none := by
  have hs : lamp.validate = .ok lampSpec := by cbv
  have hunfolds := shown_unfolds_selectors hs
  have hselectors : lamp.selectors =
      [⟨"lamp", ["switch"]⟩, ⟨"lamp", ["label"]⟩, ⟨"lamp", ["label"]⟩] := by cbv
  refine ⟨hs, hunfolds, ?_, ?_⟩
  · rw [ne_eq, hunfolds.missing, not_not, hselectors]
    exact ⟨_, List.mem_cons_self, by decide⟩
  · rw [hunfolds.missing, hselectors, ← firstAt_lt_iff]
    decide

end ViewWiring.View
