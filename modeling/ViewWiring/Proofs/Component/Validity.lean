import ViewWiring.Proofs.Component.Compilation

namespace ViewWiring.Component

open Address Binding

structure Definition.Valid (d : Definition) : Prop where
  names : (d.members.map Member.name).Nodup
  paths : ∀ m ∈ d.members, ∀ a ∈ m.annotations, a.kind.isMutation →
    ∃ t p, a.path = some t ∧ Path.parse t = .ok p
  selectors : ∀ m ∈ d.members, ∀ a ∈ m.annotations,
    ∃ t s, m.selectorText? a = some t ∧ Selector.parse t = .ok s
  views : ∀ m ∈ d.members, ∀ a ∈ m.annotations, a.kind = .viewFor → m.ShowsCollection
  sites : (d.members.flatMap fun m => sitesOf m.annotationsRead).Nodup
  scopes : (d.members.filterMap Member.firstView?).Nodup
  placeholders : ∀ m ∈ d.members, ∀ a ∈ m.annotations, a.kind.isMutation →
    ∀ p s, pathFor? a = some p → m.selectorFor? a = some s →
      p.placeholders ≤ s.enclosing.countP fun t => t ∈ d.members.filterMap Member.firstView?

theorem pathFor?_isSome (a : AnnotationText) :
    (pathFor? a).isSome ↔ ∃ t p, a.path = some t ∧ Path.parse t = .ok p := by
  simp only [pathFor?, Option.isSome_iff_exists, Option.bind_eq_some_iff, toOption_eq_some]
  exact exists_comm

theorem Member.readable_iff (m : Member) : m.Readable ↔
    (∀ a ∈ m.annotations, a.kind.isMutation → ∃ t p, a.path = some t ∧ Path.parse t = .ok p) ∧
    (∀ a ∈ m.annotations, ∃ t s, m.selectorText? a = some t ∧ Selector.parse t = .ok s) ∧
    (∀ a ∈ m.annotations, a.kind = .viewFor → m.ShowsCollection) := by
  simp only [← pathFor?_isSome, ← m.selectorFor?_isSome]
  constructor
  · intro h
    have hread (a) (ha : a ∈ m.annotations) := (m.annotation?_isSome a).mp (h.annotations a ha)
    exact ⟨fun a ha => (hread a ha).2, fun a ha => (hread a ha).1, h.views⟩
  · rintro ⟨hp, hs, hv⟩
    exact ⟨fun a ha => (m.annotation?_isSome a).mpr ⟨hs a ha, hp a ha⟩, hv⟩

namespace Spec

def Supplied (s : Spec) : Prop :=
  ∀ d ∈ s.members, ∀ t ∈ d.triggers, ∀ m ∈ t.mutations,
    m.path.placeholders ≤ s.wiring.repeatsAround t.selector

theorem unsupplied?_eq_none (s : Spec) : s.unsupplied? = none ↔ s.Supplied := by
  simp only [unsupplied?, Supplied, List.findSome?_eq_none_iff, Option.map_eq_none_iff,
    List.find?_eq_none, decide_eq_true_eq, gt_iff_lt, Nat.not_lt]

variable {s : Spec} {ms : List Member}

theorem Compiles.firstViews (h : s.Compiles ms) :
    (ms.filterMap fun m => m.described.repeated?) = ms.filterMap Member.firstView? :=
  List.filterMap_congr fun m hm => (Member.firstView?_eq (h.readable m hm)).symm

theorem Compiles.repeatsAround (h : s.Compiles ms) (r : Selector) :
    s.wiring.repeatsAround r = r.enclosing.countP fun t => t ∈ ms.filterMap Member.firstView? := by
  apply List.countP_congr
  intro t _
  have hkeys : t ∈ s.wiring.repeats.keys ↔ t ∈ ms.filterMap Member.firstView? := by
    rw [h.scopes_perm.mem_iff, h.firstViews]
  have hnone := Entries.get?_eq_none_iff s.wiring.repeats t
  rw [decide_eq_true_eq, ← hkeys, ← not_iff_not, ← hnone, Wiring.repeatAt, Option.not_isSome_iff_eq_none]

theorem Compiles.supplied_iff (h : s.Compiles ms) : s.Supplied ↔
    ∀ m ∈ ms, ∀ a ∈ m.annotations, a.kind.isMutation →
      ∀ p r, pathFor? a = some p → m.selectorFor? a = some r →
        p.placeholders ≤ r.enclosing.countP fun t => t ∈ ms.filterMap Member.firstView? := by
  simp only [Supplied, ← h.repeatsAround]
  constructor
  · intro hs m hm a ha hk p r hp hr
    obtain ⟨op, hop⟩ : ∃ op, a.kind = .mutation op := by
      cases hkind : a.kind <;> simp_all [AnnotationKind.isMutation, AnnotationKind.mutation?]
    obtain ⟨t, ht, rfl, hmem⟩ :=
      (mutatesAt_ofAnnotations m.annotationsRead r ⟨op, p⟩).mpr
        (Member.mem_annotationsRead.mpr ⟨a, ha, hop, hp, hr⟩)
    have hd : m.described ∈ s.members := h.members ▸ List.mem_map_of_mem hm
    exact hs m.described hd t ht ⟨op, p⟩ hmem
  · intro hs d hd t ht mu hmu
    rw [h.members] at hd
    obtain ⟨m, hm, rfl⟩ := List.mem_map.mp hd
    obtain ⟨a, ha, hk, hp, hr⟩ := Member.mem_annotationsRead.mp
      ((mutatesAt_ofAnnotations m.annotationsRead t.selector mu).mp ⟨t, ht, rfl, hmu⟩)
    exact hs m hm a ha (by rw [hk]; rfl) mu.path t.selector hp hr

end Spec

theorem validate_eq_ok {d : Definition} {s : Spec} : d.validate = .ok s ↔
    d.members.foldlM Spec.add ⟨d.name, [], .empty⟩ = .ok s ∧ s.Supplied := by
  rw [Definition.validate, bind_eq_ok]
  constructor
  · rintro ⟨u, hu, h⟩
    cases hn : u.unsupplied? with
    | some e => simp [hn] at h
    | none =>
        simp only [hn, pure, Except.pure, Except.ok.injEq] at h
        exact h ▸ ⟨hu, u.unsupplied?_eq_none.mp hn⟩
  · rintro ⟨hs, hsup⟩
    refine ⟨s, hs, ?_⟩
    rw [s.unsupplied?_eq_none.mpr hsup]
    rfl

theorem Spec.compiles_of_validate {d : Definition} {s : Spec} (h : d.validate = .ok s) :
    s.Compiles d.members :=
  compiles_foldl (validate_eq_ok.mp h).1

/-- Validation accepts exactly what is valid. -/
theorem validate_accepts_iff_valid (d : Definition) : (∃ s, d.validate = .ok s) ↔ d.Valid := by
  constructor
  · rintro ⟨s, h⟩
    obtain ⟨hs, hsup⟩ := validate_eq_ok.mp h
    have hc := Spec.compiles_foldl hs
    have hread (m) (hm : m ∈ d.members) := m.readable_iff.mp (hc.readable m hm)
    constructor
    case names => exact hc.names
    case paths => exact fun m hm => (hread m hm).1
    case selectors => exact fun m hm => (hread m hm).2.1
    case views => exact fun m hm => (hread m hm).2.2
    case sites => exact hc.compilable.sites
    case scopes => exact hc.firstViews ▸ hc.compilable.scopes
    case placeholders => exact hc.supplied_iff.mp hsup
  · intro h
    have hread (m) (hm : m ∈ d.members) : m.Readable :=
      m.readable_iff.mpr ⟨h.paths m hm, h.selectors m hm, h.views m hm⟩
    have hscopes : (d.members.filterMap fun m => m.described.repeated?) =
        d.members.filterMap Member.firstView? :=
      List.filterMap_congr fun m hm => (Member.firstView?_eq (hread m hm)).symm
    obtain ⟨s, hs⟩ := Spec.exists_compiles d.name ⟨hread, h.names, h.sites, hscopes ▸ h.scopes⟩
    exact ⟨s, validate_eq_ok.mpr ⟨hs, (Spec.compiles_foldl hs).supplied_iff.mpr h.placeholders⟩⟩

end ViewWiring.Component
