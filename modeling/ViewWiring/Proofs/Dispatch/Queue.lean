import ViewWiring.Proofs.Dispatch.Reaction
import ViewWiring.Proofs.Dispatch.Turns

namespace ViewWiring.Dispatch

open Binding State

variable {ν α : Type}

def Request.queues : Request ν → List Event
  | queue e => [e]
  | _ => []

def Program.queues (it : Option Iteration) : Program ν α → Desk ν → List Event
  | done _, _ => []
  | fail _, _ => []
  | ask r next, d => r.queues ++ (next (r.perform it d).2).queues it (r.perform it d).1

def Step.queues (handlers : Entries String (Handler ν)) (e : Event) (w : Progress ν) : Step → List Event
  | mutate _ => []
  | call name =>
      match handlers.get? name with
      | none => []
      | some h => (h (.ofEvent e)).queues e.iteration w.desk

def stepsQueue (handlers : Entries String (Handler ν)) (e : Event) : List Step → Progress ν → List Event
  | [], _ => []
  | st :: steps, w =>
      st.queues handlers e w ++
        match st.run handlers e w with
        | (w', none) => stepsQueue handlers e steps w'
        | (_, some _) => []

theorem perform_queued (it : Option Iteration) (r : Request ν) (d : Desk ν) :
    (r.perform it d).1.queued = d.queued ++ r.queues := by
  have hchange {β : Type} (x : Except PathError (β × Value)) : (d.change x).1.queued = d.queued := by
    cases x <;> rfl
  cases r with
  | set p v | toggle p | remove p => simp [Request.perform, Request.queues, hchange]
  | queue e => rfl
  | get p | state | note n | notes => simp [Request.perform, Request.queues]

theorem run_queued (it : Option Iteration) (p : Program ν α) (d : Desk ν) :
    (p.run it d).1.queued = d.queued ++ p.queues it d := by
  induction p generalizing d with
  | done a => simp [Program.run, Program.queues]
  | fail e => simp [Program.run, Program.queues]
  | ask r next ih =>
      rw [Program.run, ih, perform_queued, Program.queues, List.append_assoc]

theorem step_run_queued (handlers : Entries String (Handler ν)) (e : Event) (w : Progress ν) (st : Step) :
    (st.run handlers e w).1.desk.queued = w.desk.queued ++ st.queues handlers e w := by
  cases st with
  | mutate m =>
      simp only [Step.run, Step.queues, List.append_nil]
      split <;> rfl
  | call name =>
      cases hh : handlers.get? name with
      | none => simp [Step.run, Step.queues, hh]
      | some h => simpa only [Step.run, Step.queues, hh] using run_queued e.iteration (h (.ofEvent e)) w.desk

theorem runSteps_queued (handlers : Entries String (Handler ν)) (e : Event) (steps : List Step)
    (w : Progress ν) :
    (runSteps handlers e steps w).1.desk.queued = w.desk.queued ++ stepsQueue handlers e steps w := by
  induction steps generalizing w with
  | nil => simp [runSteps, stepsQueue]
  | cons st steps ih =>
      have hst := step_run_queued handlers e w st
      rcases hr : st.run handlers e w with ⟨w', err⟩
      rw [hr] at hst
      cases err with
      | none =>
          simp only [runSteps, stepsQueue, hr]
          rw [ih, hst, List.append_assoc]
      | some err =>
          simp only [runSteps, stepsQueue, hr, List.append_nil]
          exact hst

def Verdict.isOverflow : Verdict → Bool
  | rejected (.queueOverflow _) => true
  | _ => false

theorem isOverflow_react (c : Setting ν) (s : Situation ν) (e : Event) :
    (react c s e).record.report.verdict.isOverflow = false := by
  cases hv : (react c s e).record.report.verdict with
  | unbound | applied => rfl
  | rejected err =>
      cases err with
      | path | handler | missingHandler => rfl
      | queueOverflow limit => exact absurd hv (react_overflow c s e limit)

namespace Turn

def isOverflow (u : Turn ν) : Bool := u.verdict.isOverflow

/-- What the handler of an applied event asked to be queued; other events have
no followers. -/
def followUps (c : Setting ν) (u : Turn ν) : List Event :=
  if u.isApplied then
    stepsQueue c.handlers u.event (c.steps u.event) (Setting.outset u.before.found.notes u.before.found.state)
  else []

end Turn

theorem followUps_processing (c : Setting ν) (left : Nat) (e : Event) (rest : List Event) (s : Situation ν) :
    (Turn.processing c left e rest s).followUps c = (react c s e).record.queued := by
  have he : (Turn.processing c left e rest s).event = e := react_event c s e
  rw [Turn.followUps, he]
  split
  · rename_i ha
    rw [(react_applied ha).2.2, Setting.progress, runSteps_queued]
    rfl
  · rename_i ha
    exact (react_queued_of_not_applied (Bool.eq_false_iff.mpr ha)).symm

def processed (us : List (Turn ν)) : List (Turn ν) := us.filter fun u => !u.isOverflow

/-- All events that come to the queue: those that wait at first, then the
followers of each processed event. -/
def arrivals (c : Setting ν) (queue : List Event) (us : List (Turn ν)) : List Event :=
  queue ++ (processed us).flatMap (Turn.followUps c)

section

variable (c : Setting ν) (left : Nat) (e : Event) (rest : List Event) (s : Situation ν) (us : List (Turn ν))

theorem processed_cons :
    processed (.processing c left e rest s :: us) = .processing c left e rest s :: processed us :=
  List.filter_cons_of_pos (by rw [Turn.isOverflow]; exact congrArg not (isOverflow_react c s e))

theorem arrivals_cons :
    arrivals c (e :: rest) (.processing c left e rest s :: us) =
      e :: arrivals c (rest ++ (react c s e).record.queued) us := by
  simp only [arrivals, processed_cons, List.flatMap_cons, followUps_processing, List.cons_append,
    List.append_assoc]

end

structure Served (c : Setting ν) (limit : Nat) (queue : List Event) (us : List (Turn ν)) : Prop where
  processed_eq : processed us = us
  length_le : (arrivals c queue us).length ≤ limit
  events : us.map Turn.event = arrivals c queue us

/-- As many arrivals as may be are processed, in order. The next one is reported
and changes nothing, and those behind it are dropped. -/
structure Cut (c : Setting ν) (limit : Nat) (queue : List Event) (us : List (Turn ν)) : Prop where
  length_processed : (processed us).length = limit
  lt_length : limit < (arrivals c queue us).length
  events : us.map Turn.event = (arrivals c queue us).take (limit + 1)
  last : ∃ u, us = processed us ++ [u] ∧ u.verdict = .rejected (.queueOverflow c.config.limit) ∧
    u.record = overflow c.config.limit u.event ((arrivals c queue us).drop (limit + 1)) ∧
    u.before.queue = (arrivals c queue us).drop limit ∧ u.after = ⟨0, [], u.before.found⟩

theorem turns_served_or_cut (c : Setting ν) (left : Nat) (queue : List Event) (s : Situation ν) :
    Served c left queue (turns c left queue s) ∨ Cut c left queue (turns c left queue s) := by
  induction left generalizing queue s with
  | zero =>
      cases queue with
      | nil => exact .inl ⟨rfl, Nat.le_refl _, rfl⟩
      | cons e rest =>
          have ha : arrivals c (e :: rest) (turns c 0 (e :: rest) s) = e :: rest := List.append_nil _
          refine .inr ⟨rfl, ?_, ?_, .dropping c e rest s, rfl, rfl, ?_, ?_, rfl⟩ <;> rw [ha]
          · exact Nat.succ_pos _
          · rfl
          · rfl
          · rfl
  | succ left ih =>
      cases queue with
      | nil => exact .inl ⟨rfl, Nat.zero_le _, rfl⟩
      | cons e rest =>
          have he : (Turn.processing c left e rest s).event = e := react_event c s e
          rcases ih (rest ++ (react c s e).record.queued) (react c s e).after with h | h
          · refine .inl ⟨?_, ?_, ?_⟩ <;> simp only [turns, processed_cons, arrivals_cons, List.map_cons, he]
            · rw [h.processed_eq]
            · exact Nat.succ_le_succ h.length_le
            · rw [h.events]
          · obtain ⟨u, hu, hv, hr, hb, hf⟩ := h.last
            refine .inr ⟨?_, ?_, ?_, u, ?_, hv, ?_, ?_, hf⟩ <;>
              simp only [turns, processed_cons, arrivals_cons, List.map_cons, he]
            · rw [List.length_cons, h.length_processed]
            · exact Nat.succ_lt_succ h.lt_length
            · rw [h.events, List.take_succ_cons]
            · rw [List.cons_append, ← hu]
            · exact hr
            · exact hb

section

variable (d : Dispatcher) (w : Wiring) (t : HandlerTable ν) (root : Value)

theorem process_record_cases {r : Record ν} (hr : r ∈ (d.process w t root).1) :
    (∃ s e, r = (react (d.setting w t) s e).record) ∨ ∃ e rest, r = overflow d.config.limit e rest := by
  rw [d.process_reports] at hr
  obtain ⟨u, hu, rfl⟩ := List.mem_map.mp hr
  obtain ⟨left, hl⟩ := d.process_linked w t root
  clear hr
  revert u
  refine hl.forall_mem ?_
  intro p u h
  rcases turn_cases h with ⟨left, e, rest, s, rfl⟩ | ⟨e, rest, s, rfl⟩
  · exact .inl ⟨s, e, rfl⟩
  · exact .inr ⟨e, rest, rfl⟩

theorem process_unbound_iff {r : Record ν} (hr : r ∈ (d.process w t root).1)
    (hv : r.report.verdict.isOverflow = false) :
    r.report.verdict = .unbound ↔ w.pipelineAt r.report.event.selector r.report.event.kind = none := by
  rcases process_record_cases d w t root hr with ⟨s, e, rfl⟩ | ⟨e, rest, rfl⟩
  · rw [react_event]
    exact react_unbound_iff (d.setting w t) s e
  · cases hv

/-- An event within the limit is rejected for what stops a step of the pipeline
at its own node. -/
theorem process_stops {r : Record ν} (hr : r ∈ (d.process w t root).1) {err : DispatchError}
    (hv : r.report.verdict = .rejected err) :
    err = .queueOverflow d.config.limit ∨
      ∃ p, w.pipelineAt r.report.event.selector r.report.event.kind = some p ∧
        ∃ st ∈ p.steps d.config.order, st.Stops t.handlers r.report.event err := by
  rcases process_record_cases d w t root hr with ⟨s, e, rfl⟩ | ⟨e, rest, rfl⟩
  · rw [react_event]
    exact .inr (react_stops hv)
  · exact .inl (Verdict.rejected.inj hv).symm

end

/-- A dispatcher that is idle and may run at all reports the event it is given. -/
theorem dispatch_reports (d : Dispatcher) (w : Wiring) (t : HandlerTable ν) (root : Value) (e : Event)
    (hq : d.queue = []) (hl : 0 < d.config.limit) :
    ∃ r rs, (d.dispatch w t root e).1 = r :: rs ∧ r.report.event = e ∧
      r.report.verdict.isOverflow = false := by
  obtain ⟨limit, hlimit⟩ := Nat.exists_eq_add_of_lt hl
  rw [Dispatcher.dispatch, Dispatcher.process_reports, Dispatcher.turns, Dispatcher.push, hq, hlimit,
    Nat.zero_add, List.nil_append, turns]
  exact ⟨_, _, rfl, react_event _ _ e, isOverflow_react _ _ e⟩

/-- The queue is served in order, without loss or repetition, up to the limit. -/
theorem queue_served_in_order (d : Dispatcher) (w : Wiring) (t : HandlerTable ν) (root : Value) :
    (d.process w t root).1 = (d.turns w t root).map Turn.record ∧
    (d.process w t root).2.1.queue = [] ∧
    (∃ left, Linked (d.setting w t) (d.start t root) (d.turns w t root)
      ⟨left, [], (d.process w t root).2.1.situation (d.process w t root).2.2.1
        (d.process w t root).2.2.2⟩) ∧
    (processed (d.turns w t root)).length ≤ d.config.limit ∧
    (Served (d.setting w t) d.config.limit d.queue (d.turns w t root) ∨
      Cut (d.setting w t) d.config.limit d.queue (d.turns w t root)) := by
  have h := turns_served_or_cut (d.setting w t) d.config.limit d.queue (d.situation t root)
  refine ⟨d.process_reports w t root, rfl, d.process_linked w t root, ?_, h⟩
  rcases h with h | h
  · have hl := h.length_le
    rw [← h.events, List.length_map] at hl
    exact h.processed_eq.symm ▸ hl
  · exact Nat.le_of_eq h.length_processed

end ViewWiring.Dispatch
