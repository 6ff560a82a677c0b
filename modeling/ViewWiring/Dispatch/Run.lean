import ViewWiring.Dispatch.Observers
import ViewWiring.Dispatch.Step
import ViewWiring.Log

namespace ViewWiring.Dispatch

open Binding State

/-- `limit` bounds the events of one run, those that handlers queue included. -/
structure Config where
  order : Order
  rollback : Bool
  limit : Nat
  deriving DecidableEq, Repr

def Config.default : Config := ⟨.mutationsFirst, true, 1024⟩

inductive Verdict
  | unbound
  | applied (generation : Nat)
  | rejected (e : DispatchError)
  deriving DecidableEq, Repr

namespace Verdict

def isOk : Verdict → Bool
  | rejected _ => false
  | _ => true

def isApplied : Verdict → Bool
  | applied _ => true
  | _ => false

end Verdict

structure Report where
  event : Event
  verdict : Verdict

structure Record (ν : Type) where
  report : Report
  called : List String
  notes : List ν
  queued : List Event
  signals : List (Nat × StateChanged)
  line : LogLine

structure Setting (ν : Type) where
  wiring : Wiring
  handlers : Entries String (Handler ν)
  config : Config
  observers : List Nat

structure Situation (ν : Type) where
  state : Value
  notes : List ν
  generation : Nat

structure Reaction (ν : Type) where
  record : Record ν
  after : Situation ν

variable {ν : Type}

def ignored (e : Event) (s : Situation ν) : Reaction ν :=
  ⟨⟨⟨e, .unbound⟩, [], [], [], [], ⟨.trace, e.label ++ ": unbound"⟩⟩, s⟩

/-- The events that the handler queued are dropped, its notes are not. -/
def rejection (rollback : Bool) (e : Event) (p : Pipeline) (s : Situation ν) (w : Progress ν)
    (err : DispatchError) : Reaction ν :=
  let line := e.label ++ " rejected (" ++ p.member ++ "): " ++ err.message
  ⟨⟨⟨e, .rejected err⟩, w.called, w.desk.noted, [], [], ⟨.warn, line⟩⟩,
    { s with
      state := if rollback then s.state else w.desk.state
      notes := s.notes ++ w.desk.noted }⟩

def application (observers : List Nat) (e : Event) (p : Pipeline) (s : Situation ν) (w : Progress ν) :
    Reaction ν :=
  let generation := s.generation + 1
  let line := e.label ++ " -> `" ++ p.member ++ "` (generation " ++ toString generation ++ ")"
  let change : StateChanged := ⟨generation, e.kind, e.selector, p.member⟩
  ⟨⟨⟨e, .applied generation⟩, w.called, w.desk.noted, w.desk.queued, observers.map fun id => (id, change),
      ⟨.debug, line⟩⟩,
    ⟨w.desk.state, s.notes ++ w.desk.noted, generation⟩⟩

def react (c : Setting ν) (s : Situation ν) (e : Event) : Reaction ν :=
  match c.wiring.pipelineAt e.selector e.kind with
  | none => ignored e s
  | some p =>
      match runSteps c.handlers e (p.steps c.config.order) ⟨⟨s.state, [], s.notes, []⟩, []⟩ with
      | (w, none) => application c.observers e p s w
      | (w, some err) => rejection c.config.rollback e p s w err

/-- The first event past the limit is reported, and the queue is dropped. -/
def overflow (limit : Nat) (e : Event) (rest : List Event) : Record ν :=
  let line := "event run exceeded " ++ toString limit ++ " events; dropping " ++
    toString (rest.length + 1) ++ " queued"
  ⟨⟨e, .rejected (.queueOverflow limit)⟩, [], [], [], [], ⟨.warn, line⟩⟩

/-- Takes events from the front of the queue and puts those that they bring
about at its end; `left` is the number of events that may still run. -/
def process (c : Setting ν) : (left : Nat) → List Event → Situation ν → List (Record ν) × Situation ν
  | _, [], s => ([], s)
  | 0, e :: rest, s => ([overflow c.config.limit e rest], s)
  | left + 1, e :: rest, s =>
      let r := react c s e
      let (records, final) := process c left (rest ++ r.record.queued) r.after
      (r.record :: records, final)

end ViewWiring.Dispatch
