import ViewWiring.Dispatch.Run

namespace ViewWiring.Dispatch

open Binding State

variable {ν : Type}

namespace Setting

def steps (c : Setting ν) (e : Event) : List Step :=
  match c.wiring.pipelineAt e.selector e.kind with
  | none => []
  | some p => p.steps c.config.order

theorem steps_eq (c : Setting ν) {e : Event} {p : Pipeline}
    (h : c.wiring.pipelineAt e.selector e.kind = some p) : c.steps e = p.steps c.config.order := by
  simp only [steps, h]

def outset (notes : List ν) (root : Value) : Progress ν := ⟨⟨root, [], notes, []⟩, []⟩

/-- How far the steps of an event get in a tree, and the error that stops them. -/
def progress (c : Setting ν) (e : Event) (notes : List ν) (root : Value) :
    Progress ν × Option DispatchError :=
  runSteps c.handlers e (c.steps e) (outset notes root)

end Setting

section

variable {c : Setting ν} {s : Situation ν} {e : Event} {p : Pipeline} {w : Progress ν}
  (hp : c.wiring.pipelineAt e.selector e.kind = some p)

include hp

theorem react_finished (hw : c.progress e s.notes s.state = (w, none)) :
    react c s e = application c.observers e p s w := by
  rw [Setting.progress, c.steps_eq hp, Setting.outset] at hw
  simp only [react, hp, hw]

theorem react_stopped {err : DispatchError} (hw : c.progress e s.notes s.state = (w, some err)) :
    react c s e = rejection c.config.rollback e p s w err := by
  rw [Setting.progress, c.steps_eq hp, Setting.outset] at hw
  simp only [react, hp, hw]

end

/-- An event is ignored, applied or rejected: ignored if nothing is connected
at its node, and otherwise as its steps end. -/
theorem react_cases (c : Setting ν) (s : Situation ν) (e : Event) :
    (c.wiring.pipelineAt e.selector e.kind = none ∧ react c s e = ignored e s) ∨
    (∃ p w, c.wiring.pipelineAt e.selector e.kind = some p ∧
      c.progress e s.notes s.state = (w, none) ∧ react c s e = application c.observers e p s w) ∨
    (∃ p w err, c.wiring.pipelineAt e.selector e.kind = some p ∧
      c.progress e s.notes s.state = (w, some err) ∧
      react c s e = rejection c.config.rollback e p s w err) := by
  cases hp : c.wiring.pipelineAt e.selector e.kind with
  | none => exact .inl ⟨rfl, by simp only [react, hp]⟩
  | some p =>
      rcases hw : c.progress e s.notes s.state with ⟨w, err⟩
      cases err with
      | none => exact .inr (.inl ⟨p, w, rfl, rfl, react_finished hp hw⟩)
      | some err => exact .inr (.inr ⟨p, w, err, rfl, rfl, react_stopped hp hw⟩)

theorem react_event (c : Setting ν) (s : Situation ν) (e : Event) :
    (react c s e).record.report.event = e := by
  rcases react_cases c s e with ⟨_, h⟩ | ⟨p, w, _, _, h⟩ | ⟨p, w, err, _, _, h⟩ <;> rw [h] <;> rfl

theorem react_unbound_iff (c : Setting ν) (s : Situation ν) (e : Event) :
    (react c s e).record.report.verdict = .unbound ↔
      c.wiring.pipelineAt e.selector e.kind = none := by
  rcases react_cases c s e with ⟨hp, h⟩ | ⟨p, w, hp, _, h⟩ | ⟨p, w, err, hp, _, h⟩ <;>
    simp [h, hp, ignored, application, rejection]

theorem mem_steps {p : Pipeline} {o : Order} {st : Step} : st ∈ p.steps o ↔
    (∃ m ∈ p.mutations, .mutate m = st) ∨ ∃ name, p.handler = some name ∧ .call name = st := by
  cases o <;> simp [Pipeline.steps, or_comm]

inductive Step.Stops (handlers : Entries String (Handler ν)) (e : Event) : Step → DispatchError → Prop
  | path {m : Mutation} {root : Value} {err : PathError} (h : m.apply e root = .error err) :
      Stops handlers e (.mutate m) (.path err)
  | missing {name : String} (h : handlers.get? name = none) :
      Stops handlers e (.call name) (.missingHandler name)
  | failed {name : String} {handler : Handler ν} (h : handlers.get? name = some handler)
      (cause : HandlerError) : Stops handlers e (.call name) (.handler name cause)

inductive Step.Fails (handlers : Entries String (Handler ν)) (e : Event) (w : Progress ν) :
    Step → DispatchError → Prop
  | path {m : Mutation} {err : PathError} (h : m.apply e w.desk.state = .error err) :
      Fails handlers e w (.mutate m) (.path err)
  | missing {name : String} (h : handlers.get? name = none) :
      Fails handlers e w (.call name) (.missingHandler name)
  | failed {name : String} {handler : Handler ν} {cause : HandlerError}
      (h : handlers.get? name = some handler)
      (hr : ((handler (.ofEvent e)).run e.iteration w.desk).2 = .error cause) :
      Fails handlers e w (.call name) (.handler name cause)

section

variable {handlers : Entries String (Handler ν)} {e : Event} {err : DispatchError}

theorem step_run_fails {w : Progress ν} {st : Step} (h : (st.run handlers e w).2 = some err) :
    st.Fails handlers e w err := by
  cases st with
  | mutate m =>
      cases hm : m.apply e w.desk.state with
      | ok v => simp [Step.run, hm] at h
      | error perr =>
          obtain rfl : .path perr = err := by simpa [Step.run, hm] using h
          exact .path hm
  | call name =>
      cases hn : handlers.get? name with
      | none =>
          obtain rfl : .missingHandler name = err := by simpa [Step.run, hn] using h
          exact .missing hn
      | some handler =>
          cases hr : ((handler (.ofEvent e)).run e.iteration w.desk).2 with
          | ok _ => simp [Step.run, hn, hr] at h
          | error cause =>
              obtain rfl : .handler name cause = err := by simpa [Step.run, hn, hr] using h
              exact .failed hn hr

theorem Step.Fails.stops {w : Progress ν} {st : Step} (h : st.Fails handlers e w err) :
    st.Stops handlers e err := by
  cases h with
  | path h => exact .path h
  | missing h => exact .missing h
  | failed h hr => exact .failed h _

theorem runSteps_stops {steps : List Step} {w : Progress ν}
    (h : (runSteps handlers e steps w).2 = some err) : ∃ st ∈ steps, st.Stops handlers e err := by
  induction steps generalizing w with
  | nil => cases h
  | cons st steps ih =>
      rcases hr : st.run handlers e w with ⟨w', stop⟩
      cases stop with
      | none =>
          obtain ⟨st', hmem, hstop⟩ := ih (by simpa only [runSteps, hr] using h)
          exact ⟨st', List.mem_cons_of_mem _ hmem, hstop⟩
      | some first =>
          obtain rfl : first = err := by simpa only [runSteps, hr, Option.some.injEq] using h
          exact ⟨st, List.mem_cons_self, (step_run_fails (congrArg Prod.snd hr)).stops⟩

end

/-- An event is rejected for what stops one of the steps of its pipeline. -/
theorem react_stops {c : Setting ν} {s : Situation ν} {e : Event} {err : DispatchError}
    (h : (react c s e).record.report.verdict = .rejected err) :
    ∃ p, c.wiring.pipelineAt e.selector e.kind = some p ∧
      ∃ st ∈ p.steps c.config.order, st.Stops c.handlers e err := by
  rcases react_cases c s e with ⟨_, hr⟩ | ⟨p, w, _, _, hr⟩ | ⟨p, w, first, hp, hw, hr⟩ <;> rw [hr] at h
  · cases h
  · cases h
  · obtain rfl : first = err := by simpa [rejection] using h
    obtain ⟨st, hst, hstop⟩ := runSteps_stops (congrArg Prod.snd hw)
    exact ⟨p, hp, st, c.steps_eq hp ▸ hst, hstop⟩

theorem react_overflow (c : Setting ν) (s : Situation ν) (e : Event) (limit : Nat) :
    (react c s e).record.report.verdict ≠ .rejected (.queueOverflow limit) := by
  intro h
  obtain ⟨p, _, st, _, hstop⟩ := react_stops h
  cases hstop

/-- With rollback on, an event that is not applied changes the notes alone. -/
theorem react_rolled_back {c : Setting ν} (hc : c.config.rollback = true) (s : Situation ν) (e : Event)
    (h : (react c s e).record.report.verdict.isApplied = false) :
    (react c s e).after.state = s.state ∧ (react c s e).after.generation = s.generation ∧
      (react c s e).record.signals = [] ∧ (react c s e).record.queued = [] := by
  rcases react_cases c s e with ⟨_, hr⟩ | ⟨p, w, _, _, hr⟩ | ⟨p, w, err, _, _, hr⟩
  · rw [hr]; exact ⟨rfl, rfl, rfl, rfl⟩
  · rw [hr] at h; cases h
  · rw [hr, rejection, hc]; exact ⟨rfl, rfl, rfl, rfl⟩

theorem react_applied {c : Setting ν} {s : Situation ν} {e : Event}
    (h : (react c s e).record.report.verdict.isApplied = true) :
    (c.progress e s.notes s.state).2 = none ∧
      (react c s e).after.state = (c.progress e s.notes s.state).1.desk.state ∧
      (react c s e).record.queued = (c.progress e s.notes s.state).1.desk.queued := by
  rcases react_cases c s e with ⟨_, hr⟩ | ⟨p, w, _, hw, hr⟩ | ⟨p, w, err, _, _, hr⟩
  · rw [hr] at h; cases h
  · rw [hr, hw]; exact ⟨rfl, rfl, rfl⟩
  · rw [hr] at h; cases h

theorem react_queued_of_not_applied {c : Setting ν} {s : Situation ν} {e : Event}
    (h : (react c s e).record.report.verdict.isApplied = false) : (react c s e).record.queued = [] := by
  rcases react_cases c s e with ⟨_, hr⟩ | ⟨p, w, _, _, hr⟩ | ⟨p, w, err, _, _, hr⟩
  · rw [hr]; rfl
  · rw [hr] at h; cases h
  · rw [hr]; rfl

end ViewWiring.Dispatch
