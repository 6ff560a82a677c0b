namespace ViewWiring.Binding

inductive EventKind
  | inputChange | buttonTap | checkboxChange
  deriving DecidableEq, Repr

namespace EventKind

def name : EventKind → String
  | inputChange => "inputChange"
  | buttonTap => "buttonTap"
  | checkboxChange => "checkboxChange"

def attributeName : EventKind → String
  | inputChange => "change"
  | buttonTap => "tap"
  | checkboxChange => "change"

def rank : EventKind → Nat
  | inputChange => 0
  | buttonTap => 1
  | checkboxChange => 2

def all : List EventKind := [inputChange, buttonTap, checkboxChange]

end EventKind

/-- What a binding does to the value at its path: write the payload of the
event, negate a boolean, or take the value out. -/
inductive MutationOp
  | bind | toggle | remove
  deriving DecidableEq, Repr

namespace MutationOp

def name : MutationOp → String
  | bind => "Bind"
  | toggle => "Toggle"
  | remove => "Remove"

def defaultEvent : MutationOp → EventKind
  | bind => .inputChange
  | toggle => .checkboxChange
  | remove => .buttonTap

end MutationOp

inductive AnnotationKind
  | viewFor
  | event (e : EventKind)
  | mutation (op : MutationOp)
  deriving DecidableEq, Repr

namespace AnnotationKind

def name : AnnotationKind → String
  | viewFor => "viewFor"
  | event e => e.name
  | mutation .bind => "dataBind"
  | mutation .toggle => "toggle"
  | mutation .remove => "remove"

def all : List AnnotationKind :=
  [viewFor, event .inputChange, event .buttonTap, event .checkboxChange,
    mutation .bind, mutation .toggle, mutation .remove]

def event? : AnnotationKind → Option EventKind
  | event e => some e
  | _ => none

def mutation? : AnnotationKind → Option MutationOp
  | mutation op => some op
  | _ => none

def isMutation (k : AnnotationKind) : Bool := k.mutation?.isSome

def defaultEvent? (k : AnnotationKind) : Option EventKind := k.mutation?.map MutationOp.defaultEvent

end AnnotationKind

end ViewWiring.Binding
