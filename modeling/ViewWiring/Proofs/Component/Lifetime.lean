import ViewWiring.Component.Instance
import ViewWiring.Proofs.Component.Validity
import ViewWiring.Proofs.Dispatch.Queue

namespace ViewWiring.Component

open Binding Dispatch State

variable {ν : Type} {d : Definition} {t : HandlerTable ν} {c : Config} {i : Instance ν}

inductive Instance.Lives (d : Definition) (t : HandlerTable ν) (c : Config) : Instance ν → Prop
  | built {i : Instance ν} (h : build d t c = .ok i) : Lives d t c i
  | overlaid {i : Instance ν} (h : Lives d t c i) (v : Value) : Lives d t c (i.overlay v)
  | dispatched {i : Instance ν} (h : Lives d t c i) (e : Event) : Lives d t c (i.dispatch e).2
  | subscribed {i : Instance ν} (h : Lives d t c i) : Lives d t c i.subscribe.2
  | unsubscribed {i : Instance ν} (h : Lives d t c i) (id : Nat) : Lives d t c (i.unsubscribe id).2

structure Instance.Keeps (d : Definition) (t : HandlerTable ν) (c : Config) (i : Instance ν) : Prop where
  spec : d.validate = .ok i.spec
  served : handlerFault? i.spec t = none
  handlers : i.handlers.handlers = t.handlers
  config : i.dispatcher.config = c

namespace Instance

theorem build_eq_ok : build d t c = .ok i ↔ ∃ s, d.validate = .ok s ∧ handlerFault? s t = none ∧
    (⟨s, s.shown, t, s.initialState, .ofConfig c⟩ : Instance ν) = i := by
  rw [build, bind_eq_ok]
  constructor
  · rintro ⟨s, hs, h⟩
    cases hf : handlerFault? s t with
    | some e => simp [hf] at h
    | none =>
        simp only [hf, pure, Except.pure, Except.ok.injEq] at h
        exact ⟨s, hs, hf, h⟩
  · rintro ⟨s, hs, hf, rfl⟩
    exact ⟨s, hs, by rw [hf]; rfl⟩

theorem overlay_eq (i : Instance ν) (v : Value) :
    ∃ root, i.overlay v = { i with state := root } := by
  unfold overlay
  split <;> exact ⟨_, rfl⟩

theorem Lives.keeps (h : i.Lives d t c) : i.Keeps d t c := by
  -- no operation but building touches what is kept: the others change the state, the notes,
  -- the observers and the generation
  induction h with
  | built h =>
      obtain ⟨s, hs, hf, rfl⟩ := build_eq_ok.mp h
      exact ⟨hs, hf, rfl, rfl⟩
  | @overlaid i _ v ih =>
      obtain ⟨root, hroot⟩ := i.overlay_eq v
      rw [hroot]
      exact ⟨ih.spec, ih.served, ih.handlers, ih.config⟩
  | dispatched _ e ih => exact ⟨ih.spec, ih.served, ih.handlers, ih.config⟩
  | subscribed _ ih => exact ⟨ih.spec, ih.served, ih.handlers, ih.config⟩
  | unsubscribed _ id ih => exact ⟨ih.spec, ih.served, ih.handlers, ih.config⟩

theorem Lives.compiles (h : i.Lives d t c) : i.spec.Compiles d.members :=
  Spec.compiles_of_validate h.keeps.spec

/-- Within the limit, whatever an instance has been through, an event is rejected
for what stops a step of a pipeline that was declared. -/
theorem Lives.stops (h : i.Lives d t c) {e : Event} {u : Record ν} (hu : u ∈ (i.dispatch e).1)
    {err : DispatchError} (hv : u.report.verdict = .rejected err) :
    err = .queueOverflow c.limit ∨
      ∃ p, i.spec.wiring.pipelineAt u.report.event.selector u.report.event.kind = some p ∧
        ∃ st ∈ p.steps c.order, st.Stops t.handlers u.report.event err := by
  have hkeeps := h.keeps
  have hstops := process_stops (i.dispatcher.push e) i.spec.wiring i.handlers i.state hu hv
  rw [hkeeps.handlers] at hstops
  have hconfig : (i.dispatcher.push e).config = c := hkeeps.config
  rwa [hconfig] at hstops

end Instance

end ViewWiring.Component
