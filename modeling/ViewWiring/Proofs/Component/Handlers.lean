import Mathlib
import ViewWiring.Proofs.Component.Lifetime

namespace ViewWiring.Component

open Address Binding Dispatch State

variable {ν : Type} {d : Definition} {t : HandlerTable ν} {c : Config} {i : Instance ν}

theorem mem_names {name : String} : name ∈ t.names ↔ t.contains name := by
  rw [HandlerTable.names, List.mem_mergeSort, HandlerTable.contains, Entries.contains,
    Option.isSome_iff_ne_none, ne_eq, Entries.get?_eq_none_iff, not_not]

namespace Spec

variable {s : Spec}

theorem Compiles.isMethod_member? (h : s.Compiles d.members) (name : String) :
    (s.member? name).any Descriptor.isMethod ↔ name ∈ d.methods := by
  rw [Option.any_eq_true]
  constructor
  · rintro ⟨x, hx, hk⟩
    obtain ⟨hmem, rfl⟩ := h.member?_eq_some.mp hx
    rw [h.members] at hmem
    obtain ⟨m, hm, rfl⟩ := List.mem_map.mp hmem
    exact List.mem_map_of_mem (List.mem_filter.mpr ⟨hm, hk⟩)
  · intro hn
    obtain ⟨m, hm, rfl⟩ := List.mem_map.mp hn
    obtain ⟨hmem, hk⟩ := List.mem_filter.mp hm
    have hx : m.described ∈ s.members := h.members ▸ List.mem_map_of_mem hmem
    exact ⟨m.described, h.member?_eq_some.mpr ⟨hx, rfl⟩, hk⟩

theorem Compiles.handler_eq_some {ms : List Member} (h : s.Compiles ms) {r : Selector} {e : EventKind}
    {p : Pipeline} (hp : s.wiring.pipelineAt r e = some p) {name : String} (hn : p.handler = some name) :
    ∃ x ∈ s.members, x.isMethod ∧ x.triggers ≠ [] ∧ x.name = name := by
  obtain ⟨x, hx, tr, htr, _, rfl⟩ := h.pipelineAt_eq_some.mp hp
  obtain ⟨hm, hname⟩ : x.isMethod = true ∧ x.name = name := by simpa [Descriptor.pipeline] using hn
  exact ⟨x, hx, hm, List.ne_nil_of_mem htr, hname⟩

theorem Compiles.triggers_ne_nil {ms : List Member} (h : s.Compiles ms) {x : Descriptor}
    (hx : x ∈ s.members) : x.triggers ≠ [] ↔ ∃ a ∈ x.annotations, a.kind ≠ .viewFor := by
  rw [h.members] at hx
  obtain ⟨m, _, rfl⟩ := List.mem_map.mp hx
  have hnil := ofAnnotations_eq_nil m.annotationsRead
  simpa [Member.described] using not_congr hnil

end Spec

theorem handlerFault?_eq_none {s : Spec} : handlerFault? s t = none ↔
    (∀ name, t.contains name → (s.member? name).any Descriptor.isMethod) ∧
    ∀ x ∈ s.members, x.isMethod → x.triggers ≠ [] → t.contains x.name := by
  simp only [handlerFault?, Option.or_eq_none_iff, Option.map_eq_none_iff, List.find?_eq_none, mem_names]
  simp

namespace Instance

theorem exists_build_iff : (∃ i, build d t c = .ok i) ↔ ∃ s, d.validate = .ok s ∧
    (∀ name, t.contains name → name ∈ d.methods) ∧
    ∀ x ∈ s.members, x.isMethod → x.triggers ≠ [] → t.contains x.name := by
  have hfault {s : Spec} (hs : d.validate = .ok s) : handlerFault? s t = none ↔
      (∀ name, t.contains name → name ∈ d.methods) ∧
        ∀ x ∈ s.members, x.isMethod → x.triggers ≠ [] → t.contains x.name := by
    have hc := Spec.compiles_of_validate hs
    simp only [handlerFault?_eq_none, hc.isMethod_member?]
  constructor
  · rintro ⟨i, hi⟩
    obtain ⟨s, hs, hf, _⟩ := build_eq_ok.mp hi
    exact ⟨s, hs, (hfault hs).mp hf⟩
  · rintro ⟨s, hs, hserved⟩
    exact ⟨_, build_eq_ok.mpr ⟨s, hs, (hfault hs).mpr hserved, rfl⟩⟩

theorem Lives.contains (h : i.Lives d t c) {r : Selector} {e : EventKind} {p : Pipeline}
    (hp : i.spec.wiring.pipelineAt r e = some p) {name : String} (hn : p.handler = some name) :
    t.contains name := by
  -- the pipeline is that of a method with a trigger, and such a method was looked for at first
  obtain ⟨x, hx, hm, htr, rfl⟩ := h.compiles.handler_eq_some hp hn
  exact (handlerFault?_eq_none.mp h.keeps.served).2 x hx hm htr

end Instance

/-- An instance is built exactly if all handlers are those of methods, and all
methods that are set off have theirs. Then no event ever finds one missing. -/
theorem built_instances_miss_no_handler (d : Definition) (t : HandlerTable ν) (c : Config) :
    ((∃ i, Instance.build d t c = .ok i) ↔ ∃ s, d.validate = .ok s ∧
      (∀ name, t.contains name → name ∈ d.methods) ∧
      ∀ x ∈ s.members, x.isMethod → x.triggers ≠ [] → t.contains x.name) ∧
    (∀ s, d.validate = .ok s → ∀ x ∈ s.members,
      x.triggers ≠ [] ↔ ∃ a ∈ x.annotations, a.kind ≠ .viewFor) ∧
    ∀ i : Instance ν, i.Lives d t c → ∀ e, ∀ u ∈ (i.dispatch e).1, ∀ name,
      u.report.verdict ≠ .rejected (.missingHandler name) := by
  refine ⟨Instance.exists_build_iff, ?_, ?_⟩
  · intro s hs x hx
    exact (Spec.compiles_of_validate hs).triggers_ne_nil hx
  · intro i hi e u hu name hv
    rcases hi.stops hu hv with hlimit | ⟨p, hp, st, hst, hstop⟩
    · cases hlimit
    · cases hstop with
      | missing hmissing =>
          have hcalled : p.handler = some name := by simpa using mem_steps.mp hst
          have hthere : t.contains name := hi.contains hp hcalled
          rw [HandlerTable.contains, Entries.contains, hmissing] at hthere
          cases hthere

def timer : Definition :=
  ⟨"Timer", [
    ⟨.method, "start", none, [⟨.event .buttonTap, some "start", none⟩]⟩,
    ⟨.method, "pause", none, [⟨.mutation .toggle, some "pause", some "paused"⟩]⟩,
    ⟨.method, "lap", none, []⟩,
    ⟨.field, "paused", some .flag, []⟩]⟩

def timerSpec : Spec :=
  let start : Selector := ⟨"start", []⟩
  let pause : Selector := ⟨"pause", []⟩
  ⟨"Timer", [
    ⟨.method, "start", none, [.event .buttonTap start], [⟨start, .buttonTap, false, []⟩]⟩,
    ⟨.method, "pause", none, [.mutation .toggle (.key "paused") pause],
      [⟨pause, .checkboxChange, true, [⟨.toggle, .key "paused"⟩]⟩]⟩,
    ⟨.method, "lap", none, [], []⟩,
    ⟨.field, "paused", some .flag, [], []⟩],
    ⟨[((pause, .checkboxChange), ⟨"pause", some "pause", [⟨.toggle, .key "paused"⟩]⟩),
      ((start, .buttonTap), ⟨"start", some "start", []⟩)], []⟩⟩

def timerHandlers : HandlerTable Empty :=
  ⟨[("start", fun _ => .queue (.check ⟨"pause", []⟩ true)), ("pause", fun _ => .done ())], []⟩

def timerBuilt : Instance Empty :=
  ⟨timerSpec, timerSpec.shown, timerHandlers, timerSpec.initialState, .ofConfig .default⟩

theorem timer_misses_no_handler :
    Instance.build timer timerHandlers .default = .ok timerBuilt ∧
    ((timerBuilt.dispatch (.tap ⟨"start", []⟩)).1.map fun u => u.report.verdict) = [.applied 1, .applied 2] ∧
    ∀ u ∈ (timerBuilt.dispatch (.tap ⟨"start", []⟩)).1, ∀ name,
      u.report.verdict ≠ .rejected (.missingHandler name) := by
  have hs : timer.validate = .ok timerSpec := by cbv
  have hbuilt : Instance.build timer timerHandlers .default = .ok timerBuilt :=
    Instance.build_eq_ok.mpr ⟨timerSpec, hs, by cbv, rfl⟩
  obtain ⟨_, _, hreports⟩ := built_instances_miss_no_handler timer timerHandlers .default
  exact ⟨hbuilt, rfl, hreports timerBuilt (.built hbuilt) _⟩

end ViewWiring.Component
