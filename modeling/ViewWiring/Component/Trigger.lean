import ViewWiring.Binding.Wiring

namespace ViewWiring.Component

open Address Binding

/-- An event at a selector together with the mutations it sets off. An implied
trigger was opened by a mutation and not by an event annotation. -/
structure Trigger where
  selector : Selector
  event : EventKind
  implied : Bool
  mutations : List Mutation
  deriving DecidableEq, Repr

namespace Trigger

def declared? : Annotation → Option Trigger
  | .event e s => some ⟨s, e, false, []⟩
  | _ => none

/-- A mutation joins the first trigger at its selector; if there is none, it
opens one with its default event. -/
def join (m : Mutation) (s : Selector) : List Trigger → List Trigger
  | [] => [⟨s, m.op.defaultEvent, true, [m]⟩]
  | t :: ts =>
      if t.selector = s then { t with mutations := t.mutations ++ [m] } :: ts
      else t :: join m s ts

def joinAnnotation (ts : List Trigger) : Annotation → List Trigger
  | .mutation op p s => join ⟨op, p⟩ s ts
  | _ => ts

def ofAnnotations (as : List Annotation) : List Trigger :=
  as.foldl joinAnnotation (as.filterMap declared?)

end Trigger

end ViewWiring.Component
