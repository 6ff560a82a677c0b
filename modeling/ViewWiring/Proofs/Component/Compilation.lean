import Mathlib.Data.List.Induction
import Mathlib.Data.List.Perm.Basic
import ViewWiring.Proofs.Binding.Ordering
import ViewWiring.Proofs.Component.Reading
import ViewWiring.Proofs.Component.Triggers

namespace ViewWiring.Component

open Address Binding

namespace Descriptor

def connections (d : Descriptor) : Entries Site Pipeline := d.triggers.map fun t => (t.site, d.pipeline t)

def repetitions (d : Descriptor) : Entries Selector Repetition :=
  (d.repeated?.map fun s => (s, d.repetition)).toList

theorem connectAll_gains {d : Descriptor} {ts : List Trigger} {w w' : Wiring}
    (h : ts.foldlM (fun w t => w.connect t.selector t.event (d.pipeline t)) w = .ok w') :
    w.Gains (ts.map fun t => (t.site, d.pipeline t)) [] w' := by
  induction ts generalizing w with
  | nil =>
      obtain rfl : w = w' := by simpa [pure, Except.pure] using h
      exact .refl w
  | cons t ts ih =>
      obtain ⟨v, hv, h⟩ := foldlM_cons_eq_ok.mp h
      exact (Wiring.connect_gains hv).trans (ih h)

theorem connectAll_exists (d : Descriptor) (ts : List Trigger) (w : Wiring)
    (h : (w.pipelines.keys ++ ts.map Trigger.site).Nodup) :
    ∃ w', ts.foldlM (fun w t => w.connect t.selector t.event (d.pipeline t)) w = .ok w' := by
  induction ts generalizing w with
  | nil => exact ⟨w, rfl⟩
  | cons t ts ih =>
      have hfresh : t.site ∉ w.pipelines.keys := by
        intro hm
        rw [List.nodup_append] at h
        exact h.2.2 _ hm _ List.mem_cons_self rfl
      obtain ⟨v, hv⟩ : ∃ v, w.connect t.selector t.event (d.pipeline t) = .ok v :=
        ⟨_, Wiring.connect_eq_ok.mpr ⟨hfresh, rfl⟩⟩
      have hkeys : v.pipelines.keys.Perm (w.pipelines.keys ++ [t.site]) :=
        (Wiring.connect_gains hv).sites_perm
      have hrest : (v.pipelines.keys ++ ts.map Trigger.site).Nodup := by
        rw [(hkeys.append_right _).nodup_iff, List.append_assoc]
        exact h
      obtain ⟨w', hw'⟩ := ih v hrest
      exact ⟨w', foldlM_cons_eq_ok.mpr ⟨v, hv, hw'⟩⟩

theorem enter_gains {d : Descriptor} {w w' : Wiring} (h : d.enter w = .ok w') :
    w.Gains d.connections d.repetitions w' := by
  obtain ⟨v, hv, h⟩ := bind_eq_ok.mp h
  have hg := connectAll_gains hv
  cases hr : d.repeated? with
  | none =>
      obtain rfl : v = w' := by simpa [hr, pure, Except.pure] using h
      rw [connections, repetitions, hr]
      exact hg
  | some s =>
      have hall := hg.trans (Wiring.repeatScope_gains (by simpa [hr] using h))
      rw [List.append_nil, List.nil_append] at hall
      rw [connections, repetitions, hr]
      exact hall

theorem enter_ordered {d : Descriptor} {w w' : Wiring} (hw : w.Ordered) (h : d.enter w = .ok w') :
    w'.Ordered := by
  obtain ⟨v, hv, h⟩ := bind_eq_ok.mp h
  have hordered : v.Ordered := foldlM_keeps Wiring.Ordered (fun _ _ _ hu => hu.connect) hw hv
  cases hr : d.repeated? with
  | none =>
      obtain rfl : v = w' := by simpa [hr, pure, Except.pure] using h
      exact hordered
  | some s => exact hordered.repeatScope (by simpa [hr] using h)

theorem enter_exists (d : Descriptor) (w : Wiring)
    (hp : (w.pipelines.keys ++ d.triggers.map Trigger.site).Nodup)
    (hr : (w.repeats.keys ++ d.repeated?.toList).Nodup) : ∃ w', d.enter w = .ok w' := by
  obtain ⟨v, hv⟩ := connectAll_exists d d.triggers w hp
  cases hs : d.repeated? with
  | none => exact ⟨v, bind_eq_ok.mpr ⟨v, hv, by rw [hs]; rfl⟩⟩
  | some s =>
      have hkeys : v.repeats.keys.Perm (w.repeats.keys ++ []) := (connectAll_gains hv).scopes_perm
      have hfresh : s ∉ v.repeats.keys := by
        intro hm
        rw [hs, List.nodup_append] at hr
        exact hr.2.2 s (by simpa using hkeys.mem_iff.mp hm) s List.mem_cons_self rfl
      obtain ⟨w', hw'⟩ : ∃ w', v.repeatScope s d.repetition = .ok w' :=
        ⟨_, Wiring.repeatScope_eq_ok.mpr ⟨hfresh, rfl⟩⟩
      exact ⟨w', bind_eq_ok.mpr ⟨v, hv, by rw [hs]; exact hw'⟩⟩

end Descriptor

def allConnections (ds : List Descriptor) : Entries Site Pipeline := ds.flatMap Descriptor.connections

def allRepetitions (ds : List Descriptor) : Entries Selector Repetition :=
  ds.flatMap Descriptor.repetitions

namespace Spec

structure Compiles (s : Spec) (ms : List Member) : Prop where
  readable : ∀ m ∈ ms, m.Readable
  members : s.members = ms.map Member.described
  names : (ms.map Member.name).Nodup
  gains : Wiring.empty.Gains (allConnections s.members) (allRepetitions s.members) s.wiring

theorem Compiles.distinct {s : Spec} {ms : List Member} (h : s.Compiles ms) : s.wiring.Distinct :=
  h.gains.distinct Wiring.distinct_empty

theorem add_eq_ok {s s' : Spec} {m : Member} :
    s.add m = .ok s' ↔ m.name ∉ s.members.map Descriptor.name ∧ m.Readable ∧
      ∃ w, m.described.enter s.wiring = .ok w ∧
        { s with members := s.members ++ [m.described], wiring := w } = s' := by
  have hname : (s.members.any fun d => d.name = m.name) ↔ m.name ∈ s.members.map Descriptor.name := by
    simp
  rw [add]
  by_cases h : m.name ∈ s.members.map Descriptor.name
  · simp [hname.mpr h, h]
  · simp only [hname, h, if_false, not_false_eq_true, true_and, bind_eq_ok, mapError_eq_ok,
      Member.read_eq_ok, pure, Except.pure, Except.ok.injEq]
    constructor
    · rintro ⟨d, ⟨hr, rfl⟩, w, hw, rfl⟩
      exact ⟨hr, w, hw, rfl⟩
    · rintro ⟨hr, w, hw, rfl⟩
      exact ⟨_, ⟨hr, rfl⟩, w, hw, rfl⟩

theorem names_described (ms : List Member) :
    (ms.map Member.described).map Descriptor.name = ms.map Member.name := by
  simp [Member.described, Function.comp_def]

theorem compiles_add {s s' : Spec} {ms : List Member} {m : Member} (hs : s.Compiles ms)
    (h : s.add m = .ok s') : s'.Compiles (ms ++ [m]) := by
  obtain ⟨hname, hm, w, hw, rfl⟩ := add_eq_ok.mp h
  have hg := Descriptor.enter_gains hw
  rw [hs.members, names_described] at hname
  constructor
  case readable =>
    intro n hn
    rcases List.mem_append.mp hn with hn | hn
    · exact hs.readable n hn
    · exact List.mem_singleton.mp hn ▸ hm
  case members => simp [hs.members]
  case names =>
    rw [List.map_append, List.map_singleton, ← List.concat_eq_append]
    exact .concat hname hs.names
  case gains => simpa [allConnections, allRepetitions] using hs.gains.trans hg

theorem compiles_foldl {name : String} {ms : List Member} {s : Spec}
    (h : ms.foldlM Spec.add ⟨name, [], .empty⟩ = .ok s) : s.Compiles ms := by
  induction ms using List.reverseRecOn generalizing s with
  | nil =>
      obtain rfl := Except.ok.inj h
      exact ⟨by simp, rfl, List.nodup_nil, .refl _⟩
  | append_singleton ms m ih =>
      obtain ⟨u, hu, h⟩ := foldlM_snoc_eq_ok.mp h
      exact compiles_add (ih hu) h

structure Compilable (ms : List Member) : Prop where
  readable : ∀ m ∈ ms, m.Readable
  names : (ms.map Member.name).Nodup
  sites : (ms.flatMap fun m => sitesOf m.annotationsRead).Nodup
  scopes : (ms.filterMap fun m => m.described.repeated?).Nodup

theorem sites_described (ms : List Member) :
    (allConnections (ms.map Member.described)).keys = ms.flatMap fun m => sitesOf m.annotationsRead := by
  simp [Entries.keys, allConnections, List.map_flatMap, List.flatMap_map, Descriptor.connections, Member.described,
    Function.comp_def, site_ofAnnotations]

theorem scopes_described (ms : List Member) :
    (allRepetitions (ms.map Member.described)).keys = ms.filterMap fun m => m.described.repeated? := by
  induction ms with
  | nil => rfl
  | cons m ms ih =>
      rw [List.map_cons, allRepetitions, List.flatMap_cons, Entries.keys_append, ← allRepetitions, ih,
        Descriptor.repetitions]
      cases h : m.described.repeated? <;> simp [h, Entries.keys]

theorem Compiles.sites_perm {s : Spec} {ms : List Member} (h : s.Compiles ms) :
    s.wiring.pipelines.keys.Perm (ms.flatMap fun m => sitesOf m.annotationsRead) := by
  rw [← sites_described, ← h.members]
  exact h.gains.sites_perm

theorem Compiles.scopes_perm {s : Spec} {ms : List Member} (h : s.Compiles ms) :
    s.wiring.repeats.keys.Perm (ms.filterMap fun m => m.described.repeated?) := by
  rw [← scopes_described, ← h.members]
  exact h.gains.scopes_perm

theorem Compiles.compilable {s : Spec} {ms : List Member} (h : s.Compiles ms) : Compilable ms where
  readable := h.readable
  names := h.names
  sites := h.sites_perm.nodup_iff.mp h.distinct.sites
  scopes := h.scopes_perm.nodup_iff.mp h.distinct.scopes

theorem exists_compiles (name : String) {ms : List Member} (h : Compilable ms) :
    ∃ s, ms.foldlM Spec.add ⟨name, [], .empty⟩ = .ok s := by
  induction ms using List.reverseRecOn with
  | nil => exact ⟨_, rfl⟩
  | append_singleton ms m ih =>
      obtain ⟨hr, hn, hsites, hscopes⟩ := h
      rw [List.map_append, List.nodup_append] at hn
      rw [List.flatMap_append, List.flatMap_singleton] at hsites
      rw [List.filterMap_append] at hscopes
      obtain ⟨s, hs⟩ := ih ⟨fun n hm => hr n (List.mem_append_left _ hm), hn.1,
        (List.nodup_append.mp hsites).1, (List.nodup_append.mp hscopes).1⟩
      have hc := compiles_foldl hs
      obtain ⟨w, hw⟩ : ∃ w, m.described.enter s.wiring = .ok w := by
        apply Descriptor.enter_exists
        · rw [(hc.sites_perm.append_right _).nodup_iff, Member.described, site_ofAnnotations]
          exact hsites
        · rw [(hc.scopes_perm.append_right _).nodup_iff]
          cases hrep : m.described.repeated? <;> simpa [hrep] using hscopes
      have hname : m.name ∉ s.members.map Descriptor.name := by
        rw [hc.members, names_described]
        exact fun hm => hn.2.2 _ hm _ List.mem_cons_self rfl
      have hm : m.Readable := hr m (List.mem_append_right _ List.mem_cons_self)
      exact ⟨_, foldlM_snoc_eq_ok.mpr ⟨s, hs, add_eq_ok.mpr ⟨hname, hm, w, hw, rfl⟩⟩⟩

/-- A pipeline is met where a member put it, and nowhere else. -/
theorem Compiles.pipelineAt_eq_some {s : Spec} {ms : List Member} (h : s.Compiles ms) {r : Selector}
    {e : EventKind} {p : Pipeline} : s.wiring.pipelineAt r e = some p ↔
      ∃ d ∈ s.members, ∃ t ∈ d.triggers, t.site = (r, e) ∧ d.pipeline t = p := by
  rw [Wiring.pipelineAt, Entries.get?_eq_some_iff h.distinct.sites, h.gains.pipelines.mem_iff]
  simp [Wiring.empty, allConnections, Descriptor.connections]

theorem Compiles.repeatAt_eq_some {s : Spec} {ms : List Member} (h : s.Compiles ms) {r : Selector}
    {p : Repetition} : s.wiring.repeatAt r = some p ↔
      ∃ d ∈ s.members, d.repeated? = some r ∧ d.repetition = p := by
  rw [Wiring.repeatAt, Entries.get?_eq_some_iff h.distinct.scopes, h.gains.repeats.mem_iff]
  simp [Wiring.empty, allRepetitions, Descriptor.repetitions]

theorem Compiles.eq_of_name {s : Spec} {ms : List Member} (h : s.Compiles ms) {d e : Descriptor}
    (hd : d ∈ s.members) (he : e ∈ s.members) (hname : d.name = e.name) : d = e := by
  have hnames : (s.members.map Descriptor.name).Nodup := by
    rw [h.members, names_described]
    exact h.names
  exact List.inj_on_of_nodup_map hnames hd he hname

theorem Compiles.member?_eq_some {s : Spec} {ms : List Member} (h : s.Compiles ms) {name : String}
    {x : Descriptor} :
    s.member? name = some x ↔ x ∈ s.members ∧ x.name = name := by
  have hfound {y : Descriptor} (hy : s.member? name = some y) : y ∈ s.members ∧ y.name = name :=
    ⟨List.mem_of_find?_eq_some hy, by simpa using List.find?_some hy⟩
  constructor
  · exact hfound
  · rintro ⟨hx, hname⟩
    obtain ⟨y, hy⟩ : ∃ y, s.member? name = some y :=
      Option.isSome_iff_exists.mp (List.find?_isSome.mpr ⟨x, hx, decide_eq_true hname⟩)
    obtain ⟨hmem, hsame⟩ := hfound hy
    rw [hy, h.eq_of_name hmem hx (hsame.trans hname.symm)]

theorem ordered_foldl {name : String} {ms : List Member} {s : Spec}
    (h : ms.foldlM Spec.add ⟨name, [], .empty⟩ = .ok s) : s.wiring.Ordered := by
  refine foldlM_keeps (fun u : Spec => u.wiring.Ordered) ?_ Wiring.ordered_empty h
  intro u m v hu hv
  obtain ⟨-, -, w, hw, rfl⟩ := add_eq_ok.mp hv
  exact Descriptor.enter_ordered hu hw

end Spec

end ViewWiring.Component
