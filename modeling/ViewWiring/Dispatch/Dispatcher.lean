import ViewWiring.Dispatch.Run

namespace ViewWiring.Dispatch

open Binding State

structure Dispatcher where
  queue : List Event
  config : Config
  observers : Observers
  generation : Nat

namespace Dispatcher

variable {ν : Type}

def ofConfig (c : Config) : Dispatcher := ⟨[], c, .none, 0⟩

def push (d : Dispatcher) (e : Event) : Dispatcher := { d with queue := d.queue ++ [e] }

def subscribe (d : Dispatcher) : Nat × Dispatcher :=
  let (id, observers) := d.observers.subscribe
  (id, { d with observers := observers })

def unsubscribe (d : Dispatcher) (id : Nat) : Bool × Dispatcher :=
  let (found, observers) := d.observers.unsubscribe id
  (found, { d with observers := observers })

def process (d : Dispatcher) (w : Wiring) (t : HandlerTable ν) (root : Value) :
    List (Record ν) × Dispatcher × HandlerTable ν × Value :=
  let (records, s) :=
    Dispatch.process ⟨w, t.handlers, d.config, d.observers.ids⟩ d.config.limit d.queue
      ⟨root, t.notes, d.generation⟩
  (records, { d with queue := [], generation := s.generation }, { t with notes := s.notes }, s.state)

def dispatch (d : Dispatcher) (w : Wiring) (t : HandlerTable ν) (root : Value) (e : Event) :
    List (Record ν) × Dispatcher × HandlerTable ν × Value :=
  (d.push e).process w t root

end Dispatcher

end ViewWiring.Dispatch
