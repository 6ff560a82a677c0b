import ViewWiring.Dispatch.Event

namespace ViewWiring.Dispatch

open Address Binding

structure StateChanged where
  generation : Nat
  event : EventKind
  selector : Selector
  member : String
  deriving DecidableEq, Repr

structure Observers where
  next : Nat
  ids : List Nat
  deriving DecidableEq, Repr

namespace Observers

def none : Observers := ⟨0, []⟩

def subscribe (o : Observers) : Nat × Observers := (o.next, ⟨o.next + 1, o.ids ++ [o.next]⟩)

def unsubscribe (o : Observers) (id : Nat) : Bool × Observers :=
  (o.ids.contains id, { o with ids := o.ids.filter (· ≠ id) })

end Observers

end ViewWiring.Dispatch
