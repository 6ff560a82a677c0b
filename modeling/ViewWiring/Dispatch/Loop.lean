import ViewWiring.Dispatch.Dispatcher

namespace ViewWiring.Dispatch

open Binding State

structure Run (ν : Type) where
  queue : List Event
  processed : Nat
  situation : Situation ν
  signals : List (Nat × StateChanged)
  log : List LogLine
  reports : List Report

def overflowText (limit dropped : Nat) : String :=
  "event run exceeded " ++ toString limit ++ " events; dropping " ++ toString dropped ++ " queued"

variable {ν : Type}

namespace Run

def logged (r : Run ν) (level : Level) (text : String) : Run ν := { r with log := r.log ++ [⟨level, text⟩] }

def reported (r : Run ν) (e : Event) (v : Verdict) : Run ν := { r with reports := r.reports ++ [⟨e, v⟩] }

def notified (r : Run ν) (observers : List Nat) (change : StateChanged) : Run ν :=
  { r with signals := r.signals ++ observers.map fun id => (id, change) }

def apply (c : Setting ν) (r : Run ν) (e : Event) : Run ν × Verdict :=
  match c.wiring.pipelineAt e.selector e.kind with
  | none => (r.logged .trace (e.label ++ ": unbound"), .unbound)
  | some p =>
      let s := r.situation
      match runSteps c.handlers e (p.steps c.config.order) ⟨⟨s.state, [], s.notes, []⟩, []⟩ with
      | (w, some err) =>
          let state := if c.config.rollback then s.state else w.desk.state
          let r := { r with situation := ⟨state, s.notes ++ w.desk.noted, s.generation⟩ }
          (r.logged .warn (e.label ++ " rejected (" ++ p.member ++ "): " ++ err.message), .rejected err)
      | (w, none) =>
          let g := s.generation + 1
          let r := { r with
            queue := r.queue ++ w.desk.queued
            situation := ⟨w.desk.state, s.notes ++ w.desk.noted, g⟩ }
          let r := r.logged .debug (e.label ++ " -> `" ++ p.member ++ "` (generation " ++ toString g ++ ")")
          (r.notified c.observers ⟨g, e.kind, e.selector, p.member⟩, .applied g)

def turn (c : Setting ν) (r : Run ν) (e : Event) (rest : List Event) : Run ν :=
  let (r, v) := { r with queue := rest, processed := r.processed + 1 }.apply c e
  r.reported e v

def stop (r : Run ν) (limit : Nat) (e : Event) (rest : List Event) : Run ν :=
  let r := r.logged .warn (overflowText limit (rest.length + 1))
  { r with queue := [] }.reported e (.rejected (.queueOverflow limit))

theorem processed_apply (c : Setting ν) (r : Run ν) (e : Event) : (r.apply c e).1.processed = r.processed := by
  cases hp : c.wiring.pipelineAt e.selector e.kind with
  | none => simp only [apply, hp, logged]
  | some p =>
      simp only [apply, hp]
      split <;> rfl

def loop (c : Setting ν) (r : Run ν) : Run ν :=
  match r.queue with
  | [] => r
  | e :: rest =>
      if c.config.limit ≤ r.processed then r.stop c.config.limit e rest else loop c (r.turn c e rest)
termination_by c.config.limit - r.processed
decreasing_by
  have hturn : (r.turn c e rest).processed = r.processed + 1 := processed_apply c _ e
  omega

end Run

def Dispatcher.run (d : Dispatcher) (w : Wiring) (t : HandlerTable ν) (root : Value) : Run ν :=
  Run.loop ⟨w, t.handlers, d.config, d.observers.ids⟩ ⟨d.queue, 0, ⟨root, t.notes, d.generation⟩, [], [], []⟩

end ViewWiring.Dispatch
