import ViewWiring.Address.Path
import ViewWiring.Address.Selector
import ViewWiring.Binding.Kind

namespace ViewWiring.Binding

open Address

structure AnnotationText where
  kind : AnnotationKind
  selector : Option String
  path : Option String
  deriving DecidableEq, Repr

inductive Annotation
  | viewFor (selector : Selector)
  | event (kind : EventKind) (selector : Selector)
  | mutation (op : MutationOp) (path : Path) (selector : Selector)
  deriving DecidableEq, Repr

namespace Annotation

def ofParts? (kind : AnnotationKind) (selector : Selector) (path : Option Path) : Option Annotation :=
  match kind with
  | .viewFor => some (viewFor selector)
  | .event e => some (event e selector)
  | .mutation op => path.map fun p => mutation op p selector

def kind : Annotation → AnnotationKind
  | viewFor _ => .viewFor
  | event e _ => .event e
  | mutation op _ _ => .mutation op

def selector : Annotation → Selector
  | viewFor s | event _ s | mutation _ _ s => s

def path? : Annotation → Option Path
  | mutation _ p _ => some p
  | _ => none

def repeated? : Annotation → Option Selector
  | viewFor s => some s
  | _ => none

end Annotation

end ViewWiring.Binding
