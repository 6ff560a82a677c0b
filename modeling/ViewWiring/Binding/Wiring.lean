import ViewWiring.Binding.Annotation
import ViewWiring.Entries

namespace ViewWiring.Binding

open Address

structure Mutation where
  op : MutationOp
  path : Path
  deriving DecidableEq, Repr

structure Pipeline where
  member : String
  handler : Option String
  mutations : List Mutation
  deriving DecidableEq, Repr

structure Repetition where
  member : String
  collection : Path
  deriving DecidableEq, Repr

/-- A second claim on a selector that is taken; `event` is `none` where the
claim was to repeat the scope. -/
structure Conflict where
  selector : Selector
  event : Option EventKind
  existing : String
  member : String
  deriving DecidableEq, Repr

def Conflict.message (c : Conflict) : String :=
  let trigger := match c.event with
    | some e => e.name
    | none => AnnotationKind.viewFor.name
  "selector `" ++ c.selector.text ++ "` already has a " ++ trigger ++ " binding from `" ++ c.existing ++
    "` (redeclared by `" ++ c.member ++ "`)"

abbrev Site := Selector × EventKind

def Site.cmp (a b : Site) : Ordering := (a.1.cmp b.1).then (compare a.2.rank b.2.rank)

/-- What is connected to which node. Both tables are kept in the order of their
keys, so that wirings with the same connections are equal. -/
structure Wiring where
  pipelines : Entries Site Pipeline
  repeats : Entries Selector Repetition
  deriving DecidableEq, Repr

namespace Wiring

def empty : Wiring := ⟨[], []⟩

def pipelineAt (w : Wiring) (s : Selector) (e : EventKind) : Option Pipeline := w.pipelines.get? (s, e)

def repeatAt (w : Wiring) (s : Selector) : Option Repetition := w.repeats.get? s

def connect (w : Wiring) (s : Selector) (e : EventKind) (p : Pipeline) : Except Conflict Wiring :=
  match w.pipelineAt s e with
  | some q => .error ⟨s, some e, q.member, p.member⟩
  | none => .ok { w with pipelines := w.pipelines.insertBy Site.cmp (s, e) p }

def repeatScope (w : Wiring) (s : Selector) (p : Repetition) : Except Conflict Wiring :=
  match w.repeatAt s with
  | some q => .error ⟨s, none, q.member, p.member⟩
  | none => .ok { w with repeats := w.repeats.insertBy Selector.cmp s p }

def repeatsAround (w : Wiring) (s : Selector) : Nat :=
  s.enclosing.countP fun t => (w.repeatAt t).isSome

def size (w : Wiring) : Nat := w.pipelines.length

end Wiring

end ViewWiring.Binding
