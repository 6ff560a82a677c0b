import ViewWiring.Address.Path
import ViewWiring.Binding.Kind

namespace ViewWiring.View

open Address Binding

inductive Tag
  | view | input | button | checkbox
  deriving DecidableEq, Repr

namespace Tag

def name : Tag → String
  | view => "view"
  | input => "input"
  | button => "button"
  | checkbox => "checkbox"

def ofEvent : EventKind → Tag
  | .inputChange => input
  | .buttonTap => button
  | .checkboxChange => checkbox

end Tag

inductive Directive
  | each (collection : Path) (item index : String)
  | bind (path : Path)
  | on (event : EventKind) (handler : String)
  deriving DecidableEq, Repr

namespace Directive

def eachItem (collection : Path) : Directive := each collection "item" "index"

def isRepeat : Directive → Bool
  | each .. => true
  | _ => false

def tag? : Directive → Option Tag
  | each .. => none
  | bind _ => some .input
  | on e _ => some (.ofEvent e)

def handler? (e : EventKind) : Directive → Option String
  | on e' handler => if e' = e then some handler else none
  | _ => none

def attributes : Directive → String
  | each collection item index =>
      " for=\"\x7b\x7b" ++ collection.text ++ "\x7d\x7d\" for-item=\"" ++ item ++
        "\" for-index=\"" ++ index ++ "\""
  | bind path => " value=\"\x7b\x7b" ++ path.text ++ "\x7d\x7d\""
  | on e handler => " bind:" ++ e.attributeName ++ "=\"" ++ handler ++ "\""

end Directive

structure Node where
  name : String
  tag : Tag
  directives : List Directive
  deriving DecidableEq, Repr

namespace Node

def plain (name : String) : Node := ⟨name, .view, []⟩

def repeat? (n : Node) : Option Directive := n.directives.find? Directive.isRepeat

def handlerAt (n : Node) (e : EventKind) : Option String := n.directives.findSome? (Directive.handler? e)

def attach (n : Node) (d : Directive) : Node :=
  if d ∈ n.directives then n
  else
    let tag := if n.directives.all Directive.isRepeat then d.tag?.getD n.tag else n.tag
    { n with tag := tag, directives := n.directives ++ [d] }

def attributes (n : Node) : String :=
  "id=\"" ++ n.name ++ "\"" ++ String.join (n.directives.map Directive.attributes)

end Node

end ViewWiring.View
