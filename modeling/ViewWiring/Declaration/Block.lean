import ViewWiring.Component.Definition
import ViewWiring.Declaration.Attribute
import ViewWiring.Declaration.Header
import ViewWiring.Declaration.Parameter

namespace ViewWiring.Declaration

open Component

inductive ItemBody
  | constant (type : List Token)
  | function (parameters : List Token)
  | alias
  | invocation
  deriving DecidableEq, Repr

structure Item where
  name : String
  attributes : List Attribute
  body : ItemBody
  deriving DecidableEq, Repr

structure DeclaredMember where
  kind : MemberKind
  name : String
  bindings : List Binding
  deriving DecidableEq, Repr

namespace Item

def nameIn (ts : List Token) : String :=
  (ts.findSome? fun t => match t with
    | .word w => some w
    | _ => none).getD ""

def others (i : Item) : List Attribute := i.attributes.filter fun a => !a.isBinding

def takesOne (parameters : List Token) : Bool := (parametersOf parameters).filter (· ≠ .rest) = [.argument]

def isFieldType (type : List Token) : Bool := typeName? type = some "FieldType"

/-- The item without its binding attributes, and the member that it declares.
A constant of the field type is a member even with no binding; a function is
one if it has a binding. -/
def collect (i : Item) : Except DeclarationError (Item × Option DeclaredMember) :=
  match i.body with
  | .constant type => do
      let bindings ← bindingsOf i.attributes
      if isFieldType type then
        return ({ i with attributes := i.others ++ [.allow "non_upper_case_globals"] },
          some ⟨.field, i.name, bindings⟩)
      else if bindings.isEmpty then return ({ i with attributes := i.others }, none)
      else .error .notFieldType
  | .function parameters => do
      let bindings ← bindingsOf i.attributes
      if bindings.isEmpty then return ({ i with attributes := i.others }, none)
      else if !takesOne parameters then .error .notHandler
      else
        return ({ i with attributes := i.others ++ [.allow "non_snake_case"] },
          some ⟨.method, i.name, bindings⟩)
  | .alias | .invocation => if i.attributes.any Attribute.isBinding then .error .misplaced else .ok (i, none)

end Item

/-- An item, or source that is kept as it is written, such as a function without a body. -/
inductive BlockItem
  | item (i : Item)
  | verbatim (source : List Token)
  deriving DecidableEq, Repr

namespace BlockItem

def item? : BlockItem → Option Item
  | item i => some i
  | verbatim _ => none

def collect : BlockItem → Except DeclarationError (BlockItem × Option DeclaredMember)
  | item i => do
      let (j, m) ← i.collect
      return (item j, m)
  | verbatim source => .ok (verbatim source, none)

end BlockItem

structure Block where
  arguments : List Token
  subject : Subject
  items : List BlockItem
  deriving DecidableEq, Repr

end ViewWiring.Declaration
