import ViewWiring.Proofs.Dispatch.Reaction
import ViewWiring.Proofs.Outcome

namespace ViewWiring.Dispatch

open Address Binding State

variable {ν α : Type}

inductive Write
  | set (p : Path) (v : Value)
  | toggle (p : Path)
  | remove (p : Path)

namespace Write

def apply (it : Option Iteration) (root : Value) : Write → Except PathError Value
  | set p v => (root.set p it v).map Prod.snd
  | toggle p => (root.toggle p it).map Prod.snd
  | remove p => (root.remove p it).map Prod.snd

def applyAll (it : Option Iteration) (xs : List Write) (root : Value) : Except PathError Value :=
  xs.foldlM (apply it) root

def completed (it : Option Iteration) (root : Value) (x : Write) : List Write :=
  match x.apply it root with
  | .ok _ => [x]
  | .error _ => []

theorem applyAll_append {it : Option Iteration} {xs ys : List Write} {u v w : Value}
    (h : applyAll it xs u = .ok v) (h' : applyAll it ys v = .ok w) : applyAll it (xs ++ ys) u = .ok w := by
  rw [applyAll, List.foldlM_append, bind_eq_ok]
  exact ⟨v, h, h'⟩

theorem applyAll_completed {it : Option Iteration} {root v : Value} {x : Write}
    (h : x.apply it root = .ok v) : applyAll it (x.completed it root) root = .ok v := by
  rw [completed, h, applyAll, foldlM_cons_eq_ok]
  exact ⟨v, h, rfl⟩

theorem completed_of_error {it : Option Iteration} {root : Value} {x : Write} {err : PathError}
    (h : x.apply it root = .error err) : x.completed it root = [] := by
  rw [completed, h]

end Write

end ViewWiring.Dispatch

namespace ViewWiring.Binding

open Dispatch

def Mutation.write (m : Mutation) (e : Event) : Write :=
  match m.op with
  | .bind => .set m.path e.payload
  | .toggle => .toggle m.path
  | .remove => .remove m.path

theorem Mutation.apply_eq (m : Mutation) (e : Event) (root : State.Value) :
    m.apply e root = (m.write e).apply e.iteration root := by
  rw [apply, write]
  cases m.op <;> rfl

end ViewWiring.Binding

namespace ViewWiring.Dispatch

open Address Binding State

variable {ν α : Type}

def Request.writes (it : Option Iteration) (root : Value) : Request ν → List Write
  | set p v => (Write.set p v).completed it root
  | toggle p => (Write.toggle p).completed it root
  | remove p => (Write.remove p).completed it root
  | _ => []

def Program.writes (it : Option Iteration) : Program ν α → Desk ν → List Write
  | done _, _ => []
  | fail _, _ => []
  | ask r next, d => r.writes it d.state ++ (next (r.perform it d).2).writes it (r.perform it d).1

theorem perform_writes (it : Option Iteration) (r : Request ν) (d : Desk ν) :
    Write.applyAll it (r.writes it d.state) d.state = .ok (r.perform it d).1.state := by
  have hchange {β : Type} (x : Write) (r : Except PathError (β × Value))
      (h : x.apply it d.state = r.map Prod.snd) :
      Write.applyAll it (x.completed it d.state) d.state = .ok (d.change r).1.state := by
    cases r with
    | ok a => exact Write.applyAll_completed h
    | error err => rw [Write.completed_of_error h]; rfl
  cases r with
  | set p v | toggle p | remove p => exact hchange _ _ rfl
  | get p | state | queue e | note n | notes => rfl

theorem run_writes (it : Option Iteration) (p : Program ν α) (d : Desk ν) :
    Write.applyAll it (p.writes it d) d.state = .ok (p.run it d).1.state := by
  induction p generalizing d with
  | done a => rfl
  | fail err => rfl
  | ask r next ih => exact Write.applyAll_append (perform_writes it r d) (ih _ _)

namespace Step

def writes (handlers : Entries String (Handler ν)) (e : Event) (w : Progress ν) : Step → List Write
  | mutate m => (m.write e).completed e.iteration w.desk.state
  | call name =>
      match handlers.get? name with
      | none => []
      | some h => (h (.ofEvent e)).writes e.iteration w.desk

def called (handlers : Entries String (Handler ν)) : Step → List String
  | mutate _ => []
  | call name => if handlers.contains name then [name] else []

end Step

inductive Passes (handlers : Entries String (Handler ν)) (e : Event) :
    List Step → Progress ν → List Write → Progress ν → Prop
  | nil (w) : Passes handlers e [] w [] w
  | cons {st steps w w' w'' xs} (h : st.run handlers e w = (w', none))
      (hs : Passes handlers e steps w' xs w'') :
      Passes handlers e (st :: steps) w (st.writes handlers e w ++ xs) w''

section

variable {handlers : Entries String (Handler ν)} {e : Event} {w w' : Progress ν} {st : Step}
  {steps : List Step} {xs : List Write}

theorem step_run_writes (handlers : Entries String (Handler ν)) (e : Event) (w : Progress ν) (st : Step) :
    Write.applyAll e.iteration (st.writes handlers e w) w.desk.state =
      .ok (st.run handlers e w).1.desk.state := by
  cases st with
  | mutate m =>
      have happly := m.apply_eq e w.desk.state
      cases hm : m.apply e w.desk.state with
      | ok v =>
          simp only [Step.run, hm, Step.writes]
          exact Write.applyAll_completed (happly.symm.trans hm)
      | error err =>
          simp only [Step.run, hm, Step.writes, Write.completed_of_error (happly.symm.trans hm)]
          rfl
  | call name =>
      cases hh : handlers.get? name with
      | none => simp only [Step.run, Step.writes, hh]; rfl
      | some h => simpa only [Step.run, Step.writes, hh] using run_writes e.iteration (h (.ofEvent e)) w.desk

theorem step_run_called (handlers : Entries String (Handler ν)) (e : Event) (w : Progress ν) (st : Step) :
    (st.run handlers e w).1.called = w.called ++ st.called handlers := by
  cases st with
  | mutate m =>
      simp only [Step.run, Step.called, List.append_nil]
      split <;> rfl
  | call name =>
      rw [Step.called, Entries.contains]
      cases hh : handlers.get? name <;> simp [Step.run, hh]

theorem mutate_run_fails {m : Mutation} {err : DispatchError}
    (h : (Step.mutate m).run handlers e w = (w', some err)) : w' = w := by
  rw [Step.run] at h
  split at h
  · cases h
  · exact (congrArg Prod.fst h).symm

theorem Passes.written (h : Passes handlers e steps w xs w') :
    Write.applyAll e.iteration xs w.desk.state = .ok w'.desk.state := by
  induction h with
  | nil w => rfl
  | @cons st steps w w' w'' xs hst hs ih =>
      have hwrites := step_run_writes handlers e w st
      rw [hst] at hwrites
      exact Write.applyAll_append hwrites ih

theorem Passes.called_eq (h : Passes handlers e steps w xs w') :
    w'.called = w.called ++ steps.flatMap (Step.called handlers) := by
  induction h with
  | nil w => simp
  | @cons st steps w w' w'' xs hst hs ih =>
      have hcalled := step_run_called handlers e w st
      rw [hst] at hcalled
      rw [ih, hcalled, List.flatMap_cons, List.append_assoc]

/-- Steps are taken up to the first that fails, and those after it play no part. -/
theorem runSteps_cases (handlers : Entries String (Handler ν)) (e : Event) (steps : List Step)
    (w : Progress ν) :
    (∃ xs w', Passes handlers e steps w xs w' ∧ runSteps handlers e steps w = (w', none)) ∨
    ∃ before st after xs v w' err, steps = before ++ st :: after ∧ Passes handlers e before w xs v ∧
      st.run handlers e v = (w', some err) ∧
      ∀ others, runSteps handlers e (before ++ st :: others) w = (w', some err) := by
  induction steps generalizing w with
  | nil => exact .inl ⟨[], w, .nil w, rfl⟩
  | cons st steps ih =>
      rcases hr : st.run handlers e w with ⟨u, stop⟩
      cases stop with
      | some err =>
          refine .inr ⟨[], st, steps, [], w, u, err, rfl, .nil w, hr, fun others => ?_⟩
          simp only [List.nil_append, runSteps, hr]
      | none =>
          rcases ih u with ⟨xs, w', hs, hrun⟩ | ⟨before, last, after, xs, v, w', err, rfl, hs, hlast, hrun⟩
          · exact .inl ⟨_, w', .cons hr hs, by simpa only [runSteps, hr] using hrun⟩
          · refine .inr ⟨st :: before, last, after, _, v, w', err, rfl, .cons hr hs, hlast, fun others => ?_⟩
            simpa only [List.cons_append, runSteps, hr] using hrun others

end

/-- Before a mutation that comes ahead of the handler there are only mutations. -/
theorem called_before_mutation {p : Pipeline} {before after : List Step} {m : Mutation}
    (h : p.steps .mutationsFirst = before ++ .mutate m :: after)
    (handlers : Entries String (Handler ν)) : before.flatMap (Step.called handlers) = [] := by
  rw [List.flatMap_eq_nil_iff]
  intro st hst
  rcases List.append_eq_append_iff.mp h with ⟨rest, rfl, hcalls⟩ | ⟨rest, hmutations, _⟩
  · have hm : Step.mutate m ∈ p.handler.toList.map Step.call := by
      rw [hcalls]
      simp
    simp at hm
  · have hm : st ∈ p.mutations.map Step.mutate := by
      rw [hmutations]
      exact List.mem_append_left _ hst
    obtain ⟨m', _, rfl⟩ := List.mem_map.mp hm
    rfl

/-- A handler that comes ahead of the mutations is the first step. -/
theorem nothing_before_handler {p : Pipeline} {before after : List Step} {name : String}
    (h : p.steps .handlerFirst = before ++ .call name :: after) : before = [] := by
  cases before with
  | nil => rfl
  | cons st before =>
      rw [Pipeline.steps] at h
      cases hp : p.handler with
      | none =>
          have hm : Step.call name ∈ p.mutations.map Step.mutate := by
            rw [hp] at h
            simp only [Option.toList_none, List.map_nil, List.nil_append] at h
            simp [h]
          simp at hm
      | some name' =>
          have hm : Step.call name ∈ p.mutations.map Step.mutate := by
            rw [hp] at h
            simp only [Option.toList_some, List.map_cons, List.map_nil, List.cons_append, List.nil_append,
              List.cons.injEq] at h
            simp [h.2]
          simp at hm

def Setting.rollingBack (c : Setting ν) (b : Bool) : Setting ν :=
  { c with config := { c.config with rollback := b } }

structure Finished (c : Setting ν) (s : Situation ν) (e : Event) (steps : List Step) (xs : List Write)
    (w : Progress ν) : Prop where
  passed : Passes c.handlers e steps (Setting.outset s.notes s.state) xs w
  verdict : (react c s e).record.report.verdict = .applied (s.generation + 1)
  called : (react c s e).record.called = steps.flatMap (Step.called c.handlers)
  queued : (react c s e).record.queued = w.desk.queued
  written : ∀ b, Write.applyAll e.iteration xs s.state = .ok (react (c.rollingBack b) s e).after.state

/-- The steps `before` succeed and leave `w` after the writes `xs`, and `st` fails
in what they leave. -/
structure StoppedAt (c : Setting ν) (s : Situation ν) (e : Event) (before : List Step) (xs : List Write)
    (w : Progress ν) (st : Step) (err : DispatchError) : Prop where
  passed : Passes c.handlers e before (Setting.outset s.notes s.state) xs w
  reached : Write.applyAll e.iteration xs s.state = .ok w.desk.state
  fails : st.Fails c.handlers e w err
  others : ∀ after, runSteps c.handlers e (before ++ st :: after) (Setting.outset s.notes s.state) =
    c.progress e s.notes s.state
  verdict : (react c s e).record.report.verdict = .rejected err
  called : (react c s e).record.called = (before ++ [st]).flatMap (Step.called c.handlers)
  queued : (react c s e).record.queued = []
  written : Write.applyAll e.iteration (xs ++ st.writes c.handlers e w) s.state =
    .ok (react (c.rollingBack false) s e).after.state
  restored : (react (c.rollingBack true) s e).after.state = s.state
  mutation : ∀ m, st = .mutate m → (react (c.rollingBack false) s e).after.state = w.desk.state ∧
    (c.config.order = .mutationsFirst → (react c s e).record.called = [])
  handler : ∀ name, st = .call name → c.config.order = .handlerFirst → before = []

theorem react_rollingBack (c : Setting ν) (s : Situation ν) (e : Event) (b : Bool) :
    (react (c.rollingBack b) s e).record = (react c s e).record ∧
    (react (c.rollingBack b) s e).after.notes = (react c s e).after.notes ∧
    (react (c.rollingBack b) s e).after.generation = (react c s e).after.generation := by
  -- nothing on the way to the reaction looks at the switch, so `hp` and `hw` are about both settings
  rcases react_cases c s e with ⟨hp, h⟩ | ⟨p, w, hp, hw, h⟩ | ⟨p, w, err, hp, hw, h⟩
  · have hb : react (c.rollingBack b) s e = ignored e s := by simp only [react, Setting.rollingBack, hp]
    rw [h, hb]
    exact ⟨rfl, rfl, rfl⟩
  · rw [h, react_finished (c := c.rollingBack b) hp hw]
    exact ⟨rfl, rfl, rfl⟩
  · rw [h, react_stopped (c := c.rollingBack b) hp hw]
    exact ⟨rfl, rfl, rfl⟩

section

variable {c : Setting ν} {s : Situation ν} {e : Event} {p : Pipeline} {w : Progress ν} {xs : List Write}
  (hp : c.wiring.pipelineAt e.selector e.kind = some p)

include hp

theorem finished (h : Passes c.handlers e (p.steps c.config.order) (Setting.outset s.notes s.state) xs w)
    (hrun : c.progress e s.notes s.state = (w, none)) :
    Finished c s e (p.steps c.config.order) xs w := by
  have hr := react_finished hp hrun
  constructor
  case passed => exact h
  case verdict => rw [hr]; rfl
  case called => rw [hr]; simpa [application, Setting.outset] using h.called_eq
  case queued => rw [hr]; rfl
  case written =>
    intro b
    have hb : react (c.rollingBack b) s e = application c.observers e p s w :=
      react_finished (c := c.rollingBack b) hp hrun
    rw [hb]
    exact h.written

theorem stoppedAt {before after : List Step} {st : Step} {v : Progress ν} {err : DispatchError}
    (hsteps : p.steps c.config.order = before ++ st :: after)
    (h : Passes c.handlers e before (Setting.outset s.notes s.state) xs v)
    (hst : st.run c.handlers e v = (w, some err))
    (hrun : ∀ others, runSteps c.handlers e (before ++ st :: others) (Setting.outset s.notes s.state) =
      (w, some err)) :
    StoppedAt c s e before xs v st err := by
  have hprogress : c.progress e s.notes s.state = (w, some err) := by
    rw [Setting.progress, c.steps_eq hp, hsteps]
    exact hrun after
  have hr := react_stopped hp hprogress
  have hwrites := step_run_writes c.handlers e v st
  have hcalled := step_run_called c.handlers e v st
  rw [hst] at hwrites hcalled
  have hoff : react (c.rollingBack false) s e = rejection false e p s w err :=
    react_stopped (c := c.rollingBack false) hp hprogress
  have hon : react (c.rollingBack true) s e = rejection true e p s w err :=
    react_stopped (c := c.rollingBack true) hp hprogress
  have hcalls : (react c s e).record.called = (before ++ [st]).flatMap (Step.called c.handlers) := by
    rw [hr]
    simpa [rejection, Setting.outset, h.called_eq] using hcalled
  constructor
  case passed => exact h
  case reached => exact h.written
  case fails => exact step_run_fails (congrArg Prod.snd hst)
  case others => exact fun others => (hrun others).trans hprogress.symm
  case verdict => rw [hr]; rfl
  case called => exact hcalls
  case queued => rw [hr]; rfl
  case written =>
    rw [hoff]
    exact Write.applyAll_append h.written hwrites
  case restored => rw [hon]; rfl
  case mutation =>
    rintro m rfl
    constructor
    · rw [hoff, mutate_run_fails hst]
      rfl
    · intro ho
      rw [ho] at hsteps
      rw [hcalls, List.flatMap_append, called_before_mutation hsteps]
      rfl
  case handler =>
    rintro name rfl ho
    rw [ho] at hsteps
    exact nothing_before_handler hsteps

end

/-- The steps of an event are taken up to the first that fails, for which it is then
rejected. Rollback makes a difference to the tree of a rejected event and to nothing else. -/
theorem first_failure_stops_event (c : Setting ν) (s : Situation ν) (e : Event) {p : Pipeline}
    (hp : c.wiring.pipelineAt e.selector e.kind = some p) :
    ((∃ xs w, Finished c s e (p.steps c.config.order) xs w) ∨
      ∃ before st after xs w err, p.steps c.config.order = before ++ st :: after ∧
        StoppedAt c s e before xs w st err) ∧
    ∀ b, (react (c.rollingBack b) s e).record = (react c s e).record ∧
      (react (c.rollingBack b) s e).after.notes = (react c s e).after.notes ∧
      (react (c.rollingBack b) s e).after.generation = (react c s e).after.generation := by
  refine ⟨?_, react_rollingBack c s e⟩
  have hprogress : c.progress e s.notes s.state =
      runSteps c.handlers e (p.steps c.config.order) (Setting.outset s.notes s.state) := by
    rw [Setting.progress, c.steps_eq hp]
  rcases runSteps_cases c.handlers e (p.steps c.config.order) (Setting.outset s.notes s.state) with
    ⟨xs, w, h, hrun⟩ | ⟨before, st, after, xs, v, w, err, hsteps, h, hst, hrun⟩
  · exact .inl ⟨xs, w, finished hp h (hprogress.trans hrun)⟩
  · exact .inr ⟨before, st, after, xs, v, err, hsteps, stoppedAt hp hsteps h hst hrun⟩

def payPipeline : Pipeline :=
  ⟨"pay", some "pay", [⟨.toggle, .key "open"⟩, ⟨.remove, ⟨"items", [.index 0]⟩⟩]⟩

def payHandler : Handler Unit := fun _ => do
  let _ ← Program.set (.key "total") .null
  Program.queue (.tap ⟨"till", []⟩)
  let _ ← Program.toggle (.key "total")
  return ()

def tillSetting (o : Order) : Setting Unit :=
  ⟨⟨[((⟨"till", []⟩, .buttonTap), payPipeline)], []⟩, [("pay", payHandler)], ⟨o, false, 8⟩, [0]⟩

def till (opened : Bool) (total : Value) : Situation Unit :=
  ⟨.map [("open", .boolean opened), ("items", .sequence []), ("total", total)], [], 0⟩

def payment : Event := .tap ⟨"till", []⟩

/-- There is no item to take off. The handler is not called then if it comes last;
if it comes first it is called, and the till stays shut. -/
theorem empty_till_stops :
    (tillSetting .mutationsFirst).wiring.pipelineAt payment.selector payment.kind = some payPipeline ∧
    (tillSetting .handlerFirst).wiring.pipelineAt payment.selector payment.kind = some payPipeline ∧
    (∃ before st after xs w err, payPipeline.steps .mutationsFirst = before ++ st :: after ∧
      StoppedAt (tillSetting .mutationsFirst) (till false (.string "5")) payment before xs w st err) ∧
    (∃ before st after xs w err, payPipeline.steps .handlerFirst = before ++ st :: after ∧
      StoppedAt (tillSetting .handlerFirst) (till false (.string "5")) payment before xs w st err) ∧
    (react (tillSetting .mutationsFirst) (till false (.string "5")) payment).after = till true (.string "5") ∧
    (react (tillSetting .mutationsFirst) (till false (.string "5")) payment).record.called = [] ∧
    (react (tillSetting .handlerFirst) (till false (.string "5")) payment).after = till false .null ∧
    (react (tillSetting .handlerFirst) (till false (.string "5")) payment).record.called = ["pay"] := by
  refine ⟨rfl, rfl, ?_, ?_, rfl, rfl, rfl, rfl⟩
  · rcases (first_failure_stops_event (tillSetting .mutationsFirst) (till false (.string "5")) payment rfl).1
      with ⟨xs, w, h⟩ | h
    · have hv := h.verdict
      cases hv
    · exact h
  · rcases (first_failure_stops_event (tillSetting .handlerFirst) (till false (.string "5")) payment rfl).1
      with ⟨xs, w, h⟩ | h
    · have hv := h.verdict
      cases hv
    · exact h

end ViewWiring.Dispatch
