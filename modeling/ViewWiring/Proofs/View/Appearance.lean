import ViewWiring.Proofs.View.Scopes

namespace ViewWiring.Address

variable {rs : List Selector} {r r' s : Selector}

/-- Siblings that are named by one list are first named by another in the same order. -/
def SiblingsAlike (rs rs' : List Selector) : Prop :=
  ∀ r r', r.parent? = r'.parent? → Names rs r → Names rs r' →
    firstAt rs r < firstAt rs r' → firstAt rs' r < firstAt rs' r'

theorem Selector.depth_of_parent? (h : r.parent? = r'.parent?) : r.depth = r'.depth := by
  rw [parent?, parent?] at h
  rw [depth, depth]
  by_cases hr : r.inner = [] <;> by_cases hr' : r'.inner = []
  · rw [hr, hr']
  · simp [hr, hr'] at h
  · simp [hr, hr'] at h
  · simp only [hr, hr', if_false, Option.some.injEq, Selector.mk.injEq] at h
    have hlength := congrArg List.length h.2
    have hpos := List.length_pos_iff.mpr hr
    have hpos' := List.length_pos_iff.mpr hr'
    rw [List.length_dropLast, List.length_dropLast] at hlength
    omega

theorem encloses_of_firstAt (h : rs[firstAt rs r]? = some s) : r.Encloses s := by
  obtain ⟨hlt, rfl⟩ := List.getElem?_eq_some_iff.mp h
  exact of_decide_eq_true (List.findIdx_getElem (w := hlt))

/-- No two scopes in one scope are first named by the same selector. -/
theorem scopes_of_firstAt (hr : Names rs r) (hparent : r.parent? = r'.parent?)
    (h : firstAt rs r = firstAt rs r') : r.scopes = r'.scopes := by
  have hlength : r.scopes.length = r'.scopes.length := by
    rw [r.length_scopes, r'.length_scopes, Selector.depth_of_parent? hparent]
  obtain ⟨s, hs⟩ : ∃ s, rs[firstAt rs r]? = some s :=
    ⟨_, List.getElem?_eq_getElem (firstAt_lt_iff.mpr hr)⟩
  have hencloses : r.Encloses s := encloses_of_firstAt hs
  have hencloses' : r'.Encloses s := encloses_of_firstAt (h ▸ hs)
  exact (List.prefix_of_prefix_length_le hencloses hencloses' (Nat.le_of_eq hlength)).eq_of_length hlength

end ViewWiring.Address

namespace ViewWiring.Component

open Address

def Member.ShowsFirst (m : Member) : Prop := m.annotations.Pairwise fun a b => b.kind.shows → a.kind.shows

theorem filter_append_filter {α : Type} (p : α → Bool) {as : List α} (h : as.Pairwise fun a b => p b → p a) :
    as.filter p ++ as.filter (fun a => !p a) = as := by
  induction as with
  | nil => rfl
  | cons a as ih =>
      obtain ⟨ha, has⟩ := List.pairwise_cons.mp h
      cases hp : p a with
      | true => simp [hp, ih has]
      | false =>
          have hnone : ∀ b ∈ as, p b = false := by simpa [hp] using ha
          have hfirst : as.filter p = [] := List.filter_eq_nil_iff.mpr (by simpa using hnone)
          have hlast : (as.filter fun a => !p a) = as := List.filter_eq_self.mpr (by simpa using hnone)
          simp [hp, hfirst, hlast]

theorem Member.showing_of_showsFirst {m : Member} (h : m.ShowsFirst) : m.showing = m.selectors := by
  rw [showing, selectors, ← List.filterMap_append,
    filter_append_filter (fun a : Binding.AnnotationText => a.kind.shows) h]

theorem Definition.showing_of_showsFirst {d : Definition} (h : ∀ m ∈ d.members, m.ShowsFirst) :
    d.showing = d.selectors :=
  List.flatMap_congr fun m hm => Member.showing_of_showsFirst (h m hm)

end ViewWiring.Component

namespace ViewWiring.View

open Address Component

namespace Forest

def NamedBefore (f : Forest) (rs : List Selector) (i j : Nat) : Prop :=
  ∃ r r', f.address? i = some r ∧ f.address? j = some r' ∧ firstAt rs r < firstAt rs r'

structure Follows (f : Forest) (rs : List Selector) : Prop where
  roots : f.roots.Pairwise (f.NamedBefore rs)
  children : ∀ id, (f.children id).Pairwise (f.NamedBefore rs)

variable {f : Forest} {rs rs' : List Selector} {i j : Nat} {r r' : Selector}

theorem mem_below_parent? (hf : f.Ordered) (h : f.address? i = some r) : i ∈ f.below (f.parent? i) := by
  obtain ⟨n, hn⟩ := exists_node?_of_lt (lt_size_of_find ((address?_eq_some_iff hf).mp h))
  obtain ⟨parent, hplace⟩ := places_of_node? hn
  obtain ⟨_, _, _, hparent⟩ := node?_of_places hplace
  exact mem_below.mpr ⟨n.name, hparent ▸ hplace⟩

theorem address?_of_mem_below (hf : f.Ordered) {parent : Option Nat} (h : i ∈ f.below parent) :
    f.parent? i = parent ∧ ∃ r, f.address? i = some r ∧ f.find r = some i := by
  obtain ⟨_, hplace⟩ := mem_below.mp h
  obtain ⟨_, _, _, hparent⟩ := node?_of_places hplace
  exact ⟨hparent, exists_address?_of_lt hf (lt_size_of_places hplace)⟩

theorem siblings_iff (hf : f.Ordered) (hi : f.address? i = some r) (hj : f.address? j = some r') :
    f.parent? i = f.parent? j ↔ r.parent? = r'.parent? := by
  have hparent := parent?_address? hf hi
  have hparent' := parent?_address? hf hj
  constructor
  · intro h
    rw [h, hparent'] at hparent
    exact (Option.map_injective (Option.some_injective _) hparent).symm
  · intro h
    rw [← h] at hparent'
    cases hq : r.parent? with
    | none =>
        rw [hq, Option.map_none, Option.map_eq_none_iff] at hparent hparent'
        rw [hparent, hparent']
    | some q =>
        rw [hq, Option.map_some, Option.map_eq_some_iff] at hparent hparent'
        obtain ⟨p, hp, hfind⟩ := hparent
        obtain ⟨p', hp', hfind'⟩ := hparent'
        rw [address?_eq_some_iff hf] at hfind hfind'
        rw [hp, hp', Option.some.inj (hfind.symm.trans hfind')]

theorem GrownAlong.firstAt_lt_iff (h : f.GrownAlong rs) (hi : f.address? i = some r)
    (hj : f.address? j = some r') (hparent : r.parent? = r'.parent?) :
    firstAt rs r < firstAt rs r' ↔ i < j := by
  have hfind := (address?_eq_some_iff h.ordered).mp hi
  have hfind' := (address?_eq_some_iff h.ordered).mp hj
  constructor
  · exact h.numbered r r' i j hfind hfind'
  · intro hlt
    rcases Nat.lt_trichotomy (firstAt rs r) (firstAt rs r') with hfirst | hfirst | hfirst
    · exact hfirst
    · have hr : Names rs r := (h.named r).mp (hfind ▸ rfl)
      obtain rfl := scopes_injective (scopes_of_firstAt hr hparent hfirst)
      exact absurd (Option.some.inj (hfind.symm.trans hfind')) (Nat.ne_of_lt hlt)
    · exact absurd (h.numbered r' r j i hfind' hfind hfirst) (Nat.lt_asymm hlt)

theorem rel_of_increasing {l : List Nat} {R : Nat → Nat → Prop} (hl : l.Pairwise (· < ·))
    (hR : l.Pairwise R) (hi : i ∈ l) (hj : j ∈ l) (hlt : i < j) : R i j := by
  induction l with
  | nil => cases hi
  | cons a l ih =>
      obtain ⟨ha, hl⟩ := List.pairwise_cons.mp hl
      obtain ⟨hR, hRl⟩ := List.pairwise_cons.mp hR
      rcases List.mem_cons.mp hi with hia | hi <;> rcases List.mem_cons.mp hj with hja | hj
      · exact absurd hlt (hia ▸ hja ▸ Nat.lt_irrefl a)
      · exact hia ▸ hR j hj
      · exact absurd (hja ▸ hlt) (Nat.lt_asymm (ha i hi))
      · exact ih hl hRl hi hj

/-- A forest that is grown along selectors stands in the order of any others that name
its siblings in the same order, and in no other order. -/
theorem GrownAlong.follows_iff (h : f.GrownAlong rs) : f.Follows rs' ↔ SiblingsAlike rs rs' := by
  constructor
  · intro hfollows r r' hparent hr hr' hlt
    obtain ⟨i, hi⟩ := Option.isSome_iff_exists.mp ((h.named r).mpr hr)
    obtain ⟨j, hj⟩ := Option.isSome_iff_exists.mp ((h.named r').mpr hr')
    have hi := (address?_eq_some_iff h.ordered).mpr hi
    have hj := (address?_eq_some_iff h.ordered).mpr hj
    have hbelow : (f.below (f.parent? i)).Pairwise (f.NamedBefore rs') := by
      cases f.parent? i with
      | none => exact hfollows.roots
      | some p => exact hfollows.children p
    have hmem' : j ∈ f.below (f.parent? i) :=
      (siblings_iff h.ordered hi hj).mpr hparent ▸ mem_below_parent? h.ordered hj
    obtain ⟨q, q', hq, hq', hfirst⟩ := rel_of_increasing (f.below_increasing _) hbelow
      (mem_below_parent? h.ordered hi) hmem' ((h.firstAt_lt_iff hi hj hparent).mp hlt)
    rwa [Option.some.inj (hi.symm.trans hq), Option.some.inj (hj.symm.trans hq')]
  · intro halike
    have hbelow (parent : Option Nat) : (f.below parent).Pairwise (f.NamedBefore rs') := by
      refine (f.below_increasing parent).imp_of_mem ?_
      intro i j hi hj hlt
      obtain ⟨hp, r, hr, hfind⟩ := address?_of_mem_below h.ordered hi
      obtain ⟨hp', r', hr', hfind'⟩ := address?_of_mem_below h.ordered hj
      have hparent := (siblings_iff h.ordered hr hr').mp (hp.trans hp'.symm)
      have hfirst := (h.firstAt_lt_iff hr hr' hparent).mpr hlt
      have hnames : Names rs r := (h.named r).mp (hfind ▸ rfl)
      have hnames' : Names rs r' := (h.named r').mp (hfind' ▸ rfl)
      exact ⟨r, r', hr, hr', halike r r' hparent hnames hnames' hfirst⟩
    exact ⟨hbelow none, fun id => hbelow (some id)⟩

end Forest

/-- Siblings stand in the order in which they come to be shown. That is the order in
which they are declared exactly when both orders first name siblings alike, and so
wherever every member declares its toggles and removals last. -/
theorem siblings_follow_showing {d : Definition} {s : Spec} (h : d.validate = .ok s) :
    s.shown.Follows d.showing ∧
    (s.shown.Follows d.selectors ↔ SiblingsAlike d.showing d.selectors) ∧
    ((∀ m ∈ d.members, m.ShowsFirst) → s.shown.Follows d.selectors) := by
  have hgrown := grownAlong_shown (Spec.compiles_of_validate h)
  have hshowing : s.shown.Follows d.showing := hgrown.follows_iff.mpr fun _ _ _ _ _ hlt => hlt
  exact ⟨hshowing, hgrown.follows_iff, fun hfirst => Definition.showing_of_showsFirst hfirst ▸ hshowing⟩

theorem lamp_siblings_follow_selectors :
    lamp.validate = .ok lampSpec ∧ lampSpec.shown.Follows lamp.selectors := by
  have hs : lamp.validate = .ok lampSpec := by cbv
  refine ⟨hs, (siblings_follow_showing hs).2.2 ?_⟩
  intro m hm
  rcases List.mem_pair.mp hm with rfl | rfl
  · exact List.pairwise_singleton _ _
  · exact List.pairwise_pair.mpr fun _ => rfl

def panel : Definition :=
  ⟨"Panel", [⟨.method, "press", none, [
    ⟨.mutation .toggle, some "switch", some "lit"⟩, ⟨.event .buttonTap, some "add", none⟩]⟩]⟩

def panelSpec : Spec :=
  let switch : Selector := ⟨"switch", []⟩
  let add : Selector := ⟨"add", []⟩
  ⟨"Panel", [⟨.method, "press", none, [.mutation .toggle (.key "lit") switch, .event .buttonTap add],
      [⟨add, .buttonTap, false, []⟩, ⟨switch, .checkboxChange, true, [⟨.toggle, .key "lit"⟩]⟩]⟩],
    ⟨[((add, .buttonTap), ⟨"press", some "press", []⟩),
      ((switch, .checkboxChange), ⟨"press", some "press", [⟨.toggle, .key "lit"⟩]⟩)], []⟩⟩

theorem panel_button_before_switch : panel.validate = .ok panelSpec ∧
    panel.selectors = [⟨"switch", []⟩, ⟨"add", []⟩] ∧
    panelSpec.shown.roots.map panelSpec.shown.address? = [some ⟨"add", []⟩, some ⟨"switch", []⟩] ∧
    ¬ panelSpec.shown.Follows panel.selectors := by
  have hselectors : panel.selectors = [⟨"switch", []⟩, ⟨"add", []⟩] := by cbv
  have hroots : panelSpec.shown.roots = [0, 1] := by cbv
  have hadd : panelSpec.shown.address? 0 = some ⟨"add", []⟩ := by cbv
  have hswitch : panelSpec.shown.address? 1 = some ⟨"switch", []⟩ := by cbv
  refine ⟨by cbv, hselectors, by simp [hroots, hadd, hswitch], ?_⟩
  intro h
  have hpair := h.roots
  rw [hroots, List.pairwise_pair] at hpair
  obtain ⟨r, r', hr, hr', hlt⟩ := hpair
  obtain rfl := Option.some.inj (hr.symm.trans hadd)
  obtain rfl := Option.some.inj (hr'.symm.trans hswitch)
  rw [hselectors] at hlt
  exact absurd hlt (by decide)

end ViewWiring.View
