import Mathlib
import ViewWiring.Proofs.Component.Validity
import ViewWiring.Proofs.Dispatch.Queue
import ViewWiring.Proofs.View.Attaching

namespace ViewWiring.View

open Address Binding Component Dispatch State

namespace Forest

structure Shows (f : Forest) (ps : List (Selector × Directive)) : Prop where
  ordered : f.Ordered
  mem_iff : ∀ s v, v ∈ f.directivesAt s ↔ (s, v) ∈ ps
  nodup : ∀ s, (f.directivesAt s).Nodup

theorem shows_empty : Forest.empty.Shows [] := by
  have hnone (s : Selector) : Forest.empty.directivesAt s = [] := by
    rw [directivesAt, nodeAt, find_empty]
    rfl
  constructor
  case ordered => exact ⟨by simp [places, Forest.empty], List.nodup_nil⟩
  case mem_iff => simp [hnone]
  case nodup => simp [hnone]

theorem shows_attach {f : Forest} {ps : List (Selector × Directive)} (h : f.Shows ps) (s : Selector)
    (v : Directive) : (f.attach s v).Shows (ps ++ [(s, v)]) := by
  constructor
  case ordered => exact ordered_attach h.ordered s v
  case mem_iff =>
    intro t u
    rw [directivesAt_attach h.ordered]
    by_cases ht : t = s
    · subst t
      simp [mem_joined, h.mem_iff]
    · simp [ht, h.mem_iff]
  case nodup =>
    intro t
    rw [directivesAt_attach h.ordered]
    split
    · exact nodup_joined (h.nodup s) v
    · exact h.nodup t

theorem shows_foldl {f : Forest} {ps : List (Selector × Directive)} (h : f.Shows ps)
    (qs : List (Selector × Directive)) : (qs.foldl (fun f p => f.attach p.1 p.2) f).Shows (ps ++ qs) := by
  induction qs generalizing f ps with
  | nil => simpa using h
  | cons q qs ih =>
      have hq := ih (shows_attach h q.1 q.2)
      rwa [List.append_assoc] at hq

theorem mem_directivesAt {f : Forest} {s : Selector} {v : Directive} :
    v ∈ f.directivesAt s ↔ ∃ n, f.nodeAt s = some n ∧ v ∈ n.directives := by
  rw [directivesAt]
  cases f.nodeAt s <;> simp

theorem directivesAt_address? {f : Forest} (hf : f.Ordered) {id : Nat} {n : Node}
    (h : f.node? id = some n) : ∃ s, f.address? id = some s ∧ f.directivesAt s = n.directives := by
  obtain ⟨s, hs, hfind⟩ := find_address? hf h
  exact ⟨s, hs, by simp [directivesAt, nodeAt, hfind, h]⟩

def Sends (f : Forest) (s : Selector) (e : EventKind) : Prop :=
  ∃ id n m, f.node? id = some n ∧ f.address? id = some s ∧ .on e m ∈ n.directives

end Forest

theorem shows_shown (s : Spec) : s.shown.Shows (s.members.flatMap placements) :=
  Forest.shows_foldl Forest.shows_empty _

section

variable {d : Descriptor} {r : Selector}

theorem bind_mem_placements {path : Path} :
    (r, .bind path) ∈ placements d ↔ .mutation .bind path r ∈ d.annotations := by
  simp only [placements, List.mem_append, List.mem_filterMap, List.mem_map, Option.map_eq_some_iff]
  constructor
  · rintro (⟨a, ha, v, hv, hp⟩ | ⟨t, _, hp⟩)
    · obtain ⟨rfl, rfl⟩ := Prod.mk.inj hp
      cases a with
      | viewFor s | event e s => cases hv
      | mutation op p s => cases op <;> cases hv; exact ha
    · cases hp
  · exact fun h => .inl ⟨_, h, _, rfl, rfl⟩

theorem on_mem_placements (hd : d.triggers = Trigger.ofAnnotations d.annotations) {e : EventKind}
    {m : String} :
    (r, .on e m) ∈ placements d ↔ m = d.name ∧ ∃ t ∈ d.triggers, t.site = (r, e) := by
  rw [hd, exists_site_ofAnnotations, ← hd]
  simp only [placements, List.mem_append, List.mem_filterMap, List.mem_map, List.mem_filter,
    Option.map_eq_some_iff]
  constructor
  · rintro (⟨a, ha, v, hv, hp⟩ | ⟨t, ⟨ht, hi⟩, hp⟩)
    · obtain ⟨rfl, rfl⟩ := Prod.mk.inj hp
      cases a with
      | viewFor s => cases hv
      | event e' s => cases hv; exact ⟨rfl, .inl ha⟩
      | mutation op p s => cases op <;> cases hv
    · cases hp
      exact ⟨rfl, .inr ⟨t, ht, hi, rfl⟩⟩
  · rintro ⟨rfl, ha | ⟨t, ht, hi, hs⟩⟩
    · exact .inl ⟨_, ha, _, rfl, rfl⟩
    · cases hs
      exact .inr ⟨t, ⟨ht, hi⟩, rfl⟩

end

theorem Node.handlerAt_eq_some {n : Node} {e : EventKind}
    (h : ∀ m m', .on e m ∈ n.directives → .on e m' ∈ n.directives → m = m') (m : String) :
    n.handlerAt e = some m ↔ .on e m ∈ n.directives := by
  have hsome (v : Directive) (m : String) : v.handler? e = some m ↔ v = .on e m := by
    cases v with
    | each c i j | bind p => simp [Directive.handler?]
    | on e' m' => simp [Directive.handler?]
  constructor
  · intro hm
    obtain ⟨v, hv, hvm⟩ := List.exists_of_findSome?_eq_some hm
    rwa [(hsome v m).mp hvm] at hv
  · intro hm
    cases hf : n.handlerAt e with
    | none =>
        have hno := List.findSome?_eq_none_iff.mp hf _ hm
        rw [(hsome _ m).mpr rfl] at hno
        cases hno
    | some m' =>
        obtain ⟨v, hv, hvm⟩ := List.exists_of_findSome?_eq_some hf
        rw [(hsome v m').mp hvm] at hv
        rw [h m' m hv hm]

theorem countP_le_one {ds : List Directive} (hds : ds.Nodup) {p : Directive → Bool}
    (h : ∀ u ∈ ds, ∀ v ∈ ds, p u → p v → u = v) : ds.countP p ≤ 1 := by
  by_cases hex : ∃ u ∈ ds, p u
  · obtain ⟨u, hu, hpu⟩ := hex
    have hcount : ds.countP p ≤ ds.count u :=
      List.countP_mono_left fun v hv hpv => beq_iff_eq.mpr (h v hv u hu hpv hpu)
    exact Nat.le_trans hcount (List.nodup_iff_count_le_one.mp hds u)
  · have hzero : ds.countP p = 0 := List.countP_eq_zero.mpr fun u hu hpu => hex ⟨u, hu, hpu⟩
    exact hzero ▸ Nat.zero_le 1

theorem Node.countP_handler_le {n : Node} {e : EventKind} (hn : n.directives.Nodup)
    (h : ∀ m m', .on e m ∈ n.directives → .on e m' ∈ n.directives → m = m') :
    n.directives.countP (fun v => (v.handler? e).isSome) ≤ 1 := by
  have hsend (v : Directive) (hv : (v.handler? e).isSome) : ∃ m, v = .on e m := by
    cases v with
    | each c i j | bind p => cases hv
    | on e' m =>
        by_cases he : e' = e
        · exact ⟨m, by rw [he]⟩
        · simp [Directive.handler?, he] at hv
  apply countP_le_one hn
  intro u hu v hv hpu hpv
  obtain ⟨m, rfl⟩ := hsend u hpu
  obtain ⟨m', rfl⟩ := hsend v hpv
  rw [h m m' hu hv]

end ViewWiring.View

namespace ViewWiring.Component.Spec.Compiles

open Address Binding View

variable {s : Spec} {ms : List Member} (h : s.Compiles ms)

include h

theorem triggers_eq {d : Descriptor} (hd : d ∈ s.members) :
    d.triggers = Trigger.ofAnnotations d.annotations := by
  rw [h.members] at hd
  obtain ⟨m, _, rfl⟩ := List.mem_map.mp hd
  rfl

/-- The shown nodes send events where pipelines are connected, to their members. -/
theorem on_mem_shown {r : Selector} {e : EventKind} {m : String} :
    .on e m ∈ s.shown.directivesAt r ↔ ∃ p, s.wiring.pipelineAt r e = some p ∧ p.member = m := by
  rw [(shows_shown s).mem_iff, List.mem_flatMap]
  simp only [h.pipelineAt_eq_some]
  constructor
  · rintro ⟨d, hd, hp⟩
    obtain ⟨rfl, t, ht, hs⟩ := (on_mem_placements (h.triggers_eq hd)).mp hp
    exact ⟨_, ⟨d, hd, t, ht, hs, rfl⟩, rfl⟩
  · rintro ⟨_, ⟨d, hd, t, ht, hs, rfl⟩, rfl⟩
    exact ⟨d, hd, (on_mem_placements (h.triggers_eq hd)).mpr ⟨rfl, t, ht, hs⟩⟩

theorem bind_mem_shown {r : Selector} {path : Path} :
    .bind path ∈ s.shown.directivesAt r ↔
      ∃ e p, s.wiring.pipelineAt r e = some p ∧ ⟨.bind, path⟩ ∈ p.mutations := by
  rw [(shows_shown s).mem_iff, List.mem_flatMap]
  simp only [h.pipelineAt_eq_some]
  constructor
  · rintro ⟨d, hd, hp⟩
    have hmut := (mutatesAt_ofAnnotations d.annotations r ⟨.bind, path⟩).mpr (bind_mem_placements.mp hp)
    rw [← h.triggers_eq hd] at hmut
    obtain ⟨t, ht, rfl, hm⟩ := hmut
    exact ⟨t.event, _, ⟨d, hd, t, ht, rfl, rfl⟩, hm⟩
  · rintro ⟨e, _, ⟨d, hd, t, ht, hs, rfl⟩, hm⟩
    refine ⟨d, hd, bind_mem_placements.mpr ((mutatesAt_ofAnnotations d.annotations r ⟨.bind, path⟩).mp ?_)⟩
    rw [← h.triggers_eq hd]
    exact ⟨t, ht, congrArg Prod.fst hs, hm⟩

theorem handler_unique {r : Selector} {e : EventKind} {m m' : String}
    (hm : .on e m ∈ s.shown.directivesAt r) (hm' : .on e m' ∈ s.shown.directivesAt r) : m = m' := by
  obtain ⟨p, hp, rfl⟩ := h.on_mem_shown.mp hm
  obtain ⟨p', hp', rfl⟩ := h.on_mem_shown.mp hm'
  rw [Option.some.inj (hp.symm.trans hp')]

theorem handler_unique_of_node {id : Nat} {n : Node} (hn : s.shown.node? id = some n) {e : EventKind}
    (m m' : String) (hm : .on e m ∈ n.directives) (hm' : .on e m' ∈ n.directives) : m = m' := by
  obtain ⟨r, _, hr⟩ := Forest.directivesAt_address? (shows_shown s).ordered hn
  rw [← hr] at hm hm'
  exact h.handler_unique hm hm'

theorem handlerAt_shown (r : Selector) (e : EventKind) (m : String) :
    (s.shown.nodeAt r).bind (·.handlerAt e) = some m ↔
      ∃ p, s.wiring.pipelineAt r e = some p ∧ p.member = m := by
  rw [← h.on_mem_shown, Forest.mem_directivesAt, Option.bind_eq_some_iff]
  apply exists_congr
  intro n
  apply and_congr_right
  intro hn
  obtain ⟨id, _, hid⟩ := Option.bind_eq_some_iff.mp hn
  exact Node.handlerAt_eq_some (h.handler_unique_of_node hid) m

theorem countP_handler_shown {id : Nat} {n : Node} (hn : s.shown.node? id = some n) (e : EventKind) :
    n.directives.countP (fun v => (v.handler? e).isSome) ≤ 1 := by
  obtain ⟨r, _, hr⟩ := Forest.directivesAt_address? (shows_shown s).ordered hn
  exact Node.countP_handler_le (hr ▸ (shows_shown s).nodup r) (h.handler_unique_of_node hn)

theorem sends_shown_iff (r : Selector) (e : EventKind) :
    s.shown.Sends r e ↔ ∃ p, s.wiring.pipelineAt r e = some p := by
  constructor
  · rintro ⟨id, n, m, hn, hr, hm⟩
    obtain ⟨r', hr', hd⟩ := Forest.directivesAt_address? (shows_shown s).ordered hn
    obtain rfl : r = r' := Option.some.inj (hr.symm.trans hr')
    obtain ⟨p, hp, _⟩ := h.on_mem_shown.mp (hd ▸ hm)
    exact ⟨p, hp⟩
  · rintro ⟨p, hp⟩
    obtain ⟨n, hn, hm⟩ := Forest.mem_directivesAt.mp (h.on_mem_shown.mpr ⟨p, hp, rfl⟩)
    obtain ⟨id, hfind, hid⟩ := Option.bind_eq_some_iff.mp hn
    have hr := (Forest.address?_eq_some_iff (shows_shown s).ordered).mpr hfind
    exact ⟨id, n, p.member, hid, hr, hm⟩

end ViewWiring.Component.Spec.Compiles

namespace ViewWiring.View

open Address Binding Component Dispatch State

/-- The nodes that are shown and the wiring are about the same connections. -/
theorem shown_agrees_with_wiring {d : Definition} {s : Spec} (h : d.validate = .ok s) :
    (∀ r e m, (s.shown.nodeAt r).bind (·.handlerAt e) = some m ↔
      ∃ p, s.wiring.pipelineAt r e = some p ∧ p.member = m) ∧
    (∀ id n e, s.shown.node? id = some n → n.directives.countP (fun v => (v.handler? e).isSome) ≤ 1) ∧
    (∀ r path, (∃ n, s.shown.nodeAt r = some n ∧ .bind path ∈ n.directives) ↔
      ∃ e p, s.wiring.pipelineAt r e = some p ∧ ⟨.bind, path⟩ ∈ p.mutations) ∧
    (∀ id n, s.shown.node? id = some n →
      ∃ r, s.shown.address? id = some r ∧ s.shown.find r = some id) ∧
    ∀ (ν : Type) (x : Dispatcher) (t : HandlerTable ν) (v : Value) (ev : Event),
      (∀ u ∈ (x.dispatch s.wiring t v ev).1, u.report.verdict.isOverflow = false →
        (u.report.verdict = .unbound ↔ ¬ s.shown.Sends u.report.event.selector u.report.event.kind)) ∧
      (x.queue = [] → 0 < x.config.limit → ∃ u us, (x.dispatch s.wiring t v ev).1 = u :: us ∧
        u.report.event = ev ∧ u.report.verdict.isOverflow = false) := by
  have hc := Spec.compiles_foldl (validate_eq_ok.mp h).1
  refine ⟨hc.handlerAt_shown, fun id n e hn => hc.countP_handler_shown hn e, ?_, ?_, ?_⟩
  · intro r path
    rw [← Forest.mem_directivesAt]
    exact hc.bind_mem_shown
  · exact fun id n hn => Forest.find_address? (shows_shown s).ordered hn
  · intro ν x t v ev
    refine ⟨?_, dispatch_reports x s.wiring t v ev⟩
    intro u hu hover
    rw [hc.sends_shown_iff, process_unbound_iff (x.push ev) s.wiring t v hu hover]
    simp [← Option.isSome_iff_exists]

def lamp : Definition :=
  ⟨"Lamp", [
    ⟨.field, "lit", some .flag, [⟨.mutation .toggle, some "lamp > switch", some "lit"⟩]⟩,
    ⟨.field, "label", some .text,
      [⟨.mutation .bind, none, some "label"⟩, ⟨.event .inputChange, some "lamp > label", none⟩]⟩]⟩

def lampSpec : Spec :=
  let switch : Selector := ⟨"lamp", ["switch"]⟩
  let label : Selector := ⟨"lamp", ["label"]⟩
  ⟨"Lamp", [
    ⟨.field, "lit", some .flag, [.mutation .toggle (.key "lit") switch],
      [⟨switch, .checkboxChange, true, [⟨.toggle, .key "lit"⟩]⟩]⟩,
    ⟨.field, "label", some .text, [.mutation .bind (.key "label") label, .event .inputChange label],
      [⟨label, .inputChange, false, [⟨.bind, .key "label"⟩]⟩]⟩],
    ⟨[((label, .inputChange), ⟨"label", none, [⟨.bind, .key "label"⟩]⟩),
      ((switch, .checkboxChange), ⟨"lit", none, [⟨.toggle, .key "lit"⟩]⟩)], []⟩⟩

theorem lamp_shown_agrees_with_wiring :
    lamp.validate = .ok lampSpec ∧
    (lampSpec.shown.nodeAt ⟨"lamp", ["switch"]⟩).bind (·.handlerAt .checkboxChange) = some "lit" ∧
    ∃ n, lampSpec.shown.nodeAt ⟨"lamp", ["label"]⟩ = some n ∧ .bind (.key "label") ∈ n.directives := by
  have hs : lamp.validate = .ok lampSpec := by cbv
  obtain ⟨hsends, _, hbinds, _⟩ := shown_agrees_with_wiring hs
  refine ⟨hs, (hsends _ _ _).mpr ⟨_, rfl, rfl⟩, (hbinds _ _).mpr ⟨.inputChange, _, rfl, ?_⟩⟩
  exact List.mem_singleton_self _

end ViewWiring.View
