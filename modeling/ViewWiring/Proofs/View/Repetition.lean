import ViewWiring.Proofs.View.Agreement

namespace ViewWiring.View

open Address Binding Component

namespace Forest

variable {f : Forest}

def repeatedAround (f : Forest) (id : Nat) : Nat :=
  (id :: f.ancestors id).countP fun j => (f.node? j).any fun n => n.directives.any Directive.isRepeat

theorem repeatedAround_eq (hf : f.Ordered) {id : Nat} {r : Selector} (h : f.address? id = some r) :
    f.repeatedAround id = r.enclosing.countP fun t => (f.directivesAt t).any Directive.isRepeat := by
  obtain ⟨n, hn⟩ := exists_node?_of_lt (lt_size_of_find ((address?_eq_some_iff hf).mp h))
  let repeated (place : Option Nat) : Bool :=
    ((place.bind f.node?).elim [] Node.directives).any Directive.isRepeat
  have hnode (j : Nat) : repeated (some j) =
      (f.node? j).any fun n => n.directives.any Directive.isRepeat := by
    cases hj : f.node? j <;> simp [repeated, hj]
  calc f.repeatedAround id
      = (id :: f.ancestors id).countP (repeated ∘ some) := by
        simp only [repeatedAround, Function.comp_def, hnode]
    _ = ((id :: f.ancestors id).reverse.map some).countP repeated := by
        rw [List.countP_map, List.countP_reverse]
    _ = r.enclosing.countP (repeated ∘ f.find) := by
        rw [← find_enclosing hf hn h, List.countP_map]

end Forest

theorem repeat_mem_placements {d : Descriptor} {r : Selector} {v : Directive} (hv : v.isRepeat) :
    (r, v) ∈ placements d ↔ .viewFor r ∈ d.annotations ∧ v = .eachItem (.key d.name) := by
  simp only [placements, List.mem_append, List.mem_filterMap, List.mem_map, Option.map_eq_some_iff]
  constructor
  · rintro (⟨a, ha, u, hu, hp⟩ | ⟨t, _, hp⟩)
    · obtain ⟨rfl, rfl⟩ := Prod.mk.inj hp
      cases a with
      | viewFor s => exact ⟨ha, (Option.some.inj hu).symm⟩
      | event e s => cases hu; cases hv
      | mutation op p s => cases op <;> cases hu; cases hv
    · cases hp; cases hv
  · rintro ⟨ha, rfl⟩
    exact .inl ⟨_, ha, _, rfl, rfl⟩

theorem repeat_mem_shown {s : Spec} {r : Selector} {v : Directive} (hv : v.isRepeat) :
    v ∈ s.shown.directivesAt r ↔
      ∃ d ∈ s.members, .viewFor r ∈ d.annotations ∧ v = .eachItem (.key d.name) := by
  rw [(shows_shown s).mem_iff, List.mem_flatMap]
  simp only [repeat_mem_placements hv]

theorem viewFor_of_repeated? {d : Descriptor} {r : Selector} (h : d.repeated? = some r) :
    .viewFor r ∈ d.annotations := by
  obtain ⟨a, ha, hr⟩ := List.exists_of_findSome?_eq_some h
  cases a with
  | viewFor s => exact Option.some.inj hr ▸ ha
  | event e s | mutation op p s => cases hr

end ViewWiring.View

namespace ViewWiring.Component.Spec

open Address Binding View

def ViewsOnce (s : Spec) : Prop :=
  ∀ d ∈ s.members, ∀ r r', .viewFor r ∈ d.annotations → .viewFor r' ∈ d.annotations → r = r'

structure RepeatsAgree (s : Spec) : Prop where
  scopes : ∀ r c, (∃ n item index, s.shown.nodeAt r = some n ∧ .each c item index ∈ n.directives) ↔
    ∃ p, s.wiring.repeatAt r = some p ∧ p.collection = c
  single : ∀ id n, s.shown.node? id = some n → n.directives.countP Directive.isRepeat ≤ 1
  depth : ∀ id r, s.shown.address? id = some r → s.shown.repeatedAround id = s.wiring.repeatsAround r

variable {s : Spec} {ms : List Member} (h : s.Compiles ms)

theorem ViewsOnce.repeated? (hs : s.ViewsOnce) {d : Descriptor} (hd : d ∈ s.members) {r : Selector}
    (hr : .viewFor r ∈ d.annotations) : d.repeated? = some r := by
  cases hfirst : d.repeated? with
  | none =>
      have hno := List.findSome?_eq_none_iff.mp hfirst _ hr
      cases hno
  | some r' => rw [hs d hd r' r (viewFor_of_repeated? hfirst) hr]

namespace Compiles

include h

theorem repeat_shown {r : Selector} {p : Repetition} (hp : s.wiring.repeatAt r = some p) :
    .eachItem p.collection ∈ s.shown.directivesAt r := by
  obtain ⟨d, hd, hr, rfl⟩ := h.repeatAt_eq_some.mp hp
  exact (repeat_mem_shown rfl).mpr ⟨d, hd, viewFor_of_repeated? hr, rfl⟩

theorem repeatsAround_le {id : Nat} {r : Selector} (hr : s.shown.address? id = some r) :
    s.wiring.repeatsAround r ≤ s.shown.repeatedAround id := by
  rw [Forest.repeatedAround_eq (shows_shown s).ordered hr, Wiring.repeatsAround]
  apply List.countP_mono_left
  intro t _ ht
  obtain ⟨p, hp⟩ := Option.isSome_iff_exists.mp ht
  exact List.any_eq_true.mpr ⟨_, h.repeat_shown hp, rfl⟩

theorem repeat_mem_iff (hs : s.ViewsOnce) {r : Selector} {v : Directive} (hv : v.isRepeat) :
    v ∈ s.shown.directivesAt r ↔ ∃ p, s.wiring.repeatAt r = some p ∧ v = .eachItem p.collection := by
  constructor
  · intro hmem
    obtain ⟨d, hd, hr, rfl⟩ := (repeat_mem_shown hv).mp hmem
    exact ⟨d.repetition, h.repeatAt_eq_some.mpr ⟨d, hd, hs.repeated? hd hr, rfl⟩, rfl⟩
  · rintro ⟨p, hp, rfl⟩
    exact h.repeat_shown hp

theorem repeatsAgree (hs : s.ViewsOnce) : s.RepeatsAgree := by
  constructor
  case scopes =>
    intro r c
    constructor
    · rintro ⟨n, i, j, hn, hmem⟩
      obtain ⟨p, hp, hv⟩ := (h.repeat_mem_iff hs rfl).mp (Forest.mem_directivesAt.mpr ⟨n, hn, hmem⟩)
      injection hv with hc
      exact ⟨p, hp, hc.symm⟩
    · rintro ⟨p, hp, rfl⟩
      obtain ⟨n, hn, hmem⟩ := Forest.mem_directivesAt.mp (h.repeat_shown hp)
      exact ⟨n, _, _, hn, hmem⟩
  case single =>
    intro id n hn
    obtain ⟨r, _, hr⟩ := Forest.directivesAt_address? (shows_shown s).ordered hn
    rw [← hr]
    apply countP_le_one ((shows_shown s).nodup r)
    intro u hu v hv hru hrv
    obtain ⟨p, hp, rfl⟩ := (h.repeat_mem_iff hs hru).mp hu
    obtain ⟨q, hq, rfl⟩ := (h.repeat_mem_iff hs hrv).mp hv
    rw [Option.some.inj (hp.symm.trans hq)]
  case depth =>
    intro id r hr
    rw [Forest.repeatedAround_eq (shows_shown s).ordered hr, Wiring.repeatsAround]
    apply List.countP_congr
    intro t _
    rw [List.any_eq_true, Option.isSome_iff_exists]
    constructor
    · rintro ⟨v, hmem, hv⟩
      obtain ⟨p, hp, _⟩ := (h.repeat_mem_iff hs hv).mp hmem
      exact ⟨p, hp⟩
    · rintro ⟨p, hp⟩
      exact ⟨_, h.repeat_shown hp, rfl⟩

theorem viewsOnce (ha : s.RepeatsAgree) : s.ViewsOnce := by
  intro d hd
  -- what the wiring repeats for a member is its first view, which leaves no room for a second
  have hfirst (r) (hr : .viewFor r ∈ d.annotations) : d.repeated? = some r := by
    have hshown : .eachItem (.key d.name) ∈ s.shown.directivesAt r :=
      (repeat_mem_shown rfl).mpr ⟨d, hd, hr, rfl⟩
    obtain ⟨n, hn, hmem⟩ := Forest.mem_directivesAt.mp hshown
    obtain ⟨p, hp, hc⟩ := (ha.scopes r (.key d.name)).mp ⟨n, _, _, hn, hmem⟩
    obtain ⟨e, he, hre, rfl⟩ := h.repeatAt_eq_some.mp hp
    have hname : e.name = d.name := congrArg Path.field hc
    obtain rfl := h.eq_of_name he hd hname
    exact hre
  intro r r' hr hr'
  exact Option.some.inj ((hfirst r hr).symm.trans (hfirst r' hr'))

end Compiles

end ViewWiring.Component.Spec

namespace ViewWiring.View

open Address Binding Component

/-- Every repetition of a wiring is shown, and never fewer scopes are shown
repeatedly around a node than the wiring counts. The two are the same exactly
when no member is a view for two scopes: a wiring holds the first view alone. -/
theorem shown_repeats_agree_iff_views_once {d : Definition} {s : Spec} (h : d.validate = .ok s) :
    (∀ r p, s.wiring.repeatAt r = some p →
      ∃ n, s.shown.nodeAt r = some n ∧ .eachItem p.collection ∈ n.directives) ∧
    (∀ id r, s.shown.address? id = some r → s.wiring.repeatsAround r ≤ s.shown.repeatedAround id) ∧
    (s.RepeatsAgree ↔ s.ViewsOnce) := by
  have hc := Spec.compiles_of_validate h
  refine ⟨?_, fun id r hr => hc.repeatsAround_le hr, hc.viewsOnce, hc.repeatsAgree⟩
  intro r p hp
  exact Forest.mem_directivesAt.mp (hc.repeat_shown hp)

def shelf : Definition :=
  ⟨"Shelf", [
    ⟨.field, "pages", none, [⟨.viewFor, some "shelf > book", none⟩]⟩,
    ⟨.field, "books", some .collection, [⟨.viewFor, some "shelf", none⟩]⟩,
    ⟨.method, "turn", none, [⟨.event .buttonTap, some "shelf > book > page", none⟩]⟩]⟩

def shelfSpec : Spec :=
  let books : Selector := ⟨"shelf", []⟩
  let pages : Selector := ⟨"shelf", ["book"]⟩
  let page : Selector := ⟨"shelf", ["book", "page"]⟩
  ⟨"Shelf", [
    ⟨.field, "pages", some .collection, [.viewFor pages], []⟩,
    ⟨.field, "books", some .collection, [.viewFor books], []⟩,
    ⟨.method, "turn", none, [.event .buttonTap page], [⟨page, .buttonTap, false, []⟩]⟩],
    ⟨[((page, .buttonTap), ⟨"turn", some "turn", []⟩)],
      [(books, ⟨"books", .key "books"⟩), (pages, ⟨"pages", .key "pages"⟩)]⟩⟩

theorem shelf_repeats_agree : shelf.validate = .ok shelfSpec ∧ shelfSpec.RepeatsAgree ∧
    shelfSpec.shown.address? 2 = some ⟨"shelf", ["book", "page"]⟩ ∧ shelfSpec.shown.repeatedAround 2 = 2 := by
  have hs : shelf.validate = .ok shelfSpec := by cbv
  have honce : shelfSpec.ViewsOnce := by simp [Spec.ViewsOnce, shelfSpec]
  have hagree := (shown_repeats_agree_iff_views_once hs).2.2.mpr honce
  have haddress : shelfSpec.shown.address? 2 = some ⟨"shelf", ["book", "page"]⟩ := by cbv
  refine ⟨hs, hagree, haddress, ?_⟩
  rw [hagree.depth 2 _ haddress]
  rfl

def album : Definition :=
  ⟨"Album", [⟨.field, "photos", none, [⟨.viewFor, some "grid", none⟩, ⟨.viewFor, some "strip", none⟩]⟩]⟩

def albumSpec : Spec :=
  ⟨"Album", [⟨.field, "photos", some .collection, [.viewFor ⟨"grid", []⟩, .viewFor ⟨"strip", []⟩], []⟩],
    ⟨[], [(⟨"grid", []⟩, ⟨"photos", .key "photos"⟩)]⟩⟩

theorem album_repeats_disagree : album.validate = .ok albumSpec ∧
    (albumSpec.shown.nodeAt ⟨"strip", []⟩).map Node.directives = some [.eachItem (.key "photos")] ∧
    albumSpec.wiring.repeatAt ⟨"strip", []⟩ = none ∧ ¬ albumSpec.RepeatsAgree := by
  have hshown : (albumSpec.shown.nodeAt ⟨"strip", []⟩).map Node.directives =
      some [.eachItem (.key "photos")] := by cbv
  have hnone : albumSpec.wiring.repeatAt ⟨"strip", []⟩ = none := rfl
  refine ⟨by cbv, hshown, hnone, ?_⟩
  intro h
  obtain ⟨n, hn, hd⟩ := Option.map_eq_some_iff.mp hshown
  have hmem : .each (.key "photos") "item" "index" ∈ n.directives := by
    rw [hd]
    exact List.mem_singleton_self _
  obtain ⟨p, hp, _⟩ := (h.scopes ⟨"strip", []⟩ (.key "photos")).mp ⟨n, _, _, hn, hmem⟩
  rw [hnone] at hp
  cases hp

end ViewWiring.View
