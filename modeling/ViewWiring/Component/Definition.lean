import ViewWiring.Binding.Annotation
import ViewWiring.State.Value

namespace ViewWiring.Component

open Binding State

inductive MemberKind
  | field | method
  deriving DecidableEq, Repr

inductive FieldType
  | collection | record | text | flag | number
  deriving DecidableEq, Repr

namespace FieldType

def name : FieldType → String
  | collection => "Collection"
  | record => "Record"
  | text => "Text"
  | flag => "Flag"
  | number => "Number"

def initial : FieldType → Value
  | collection => .sequence []
  | record => .map []
  | text => .string ""
  | flag => .boolean false
  | number => .number (.integer 0)

end FieldType

structure Member where
  kind : MemberKind
  name : String
  type : Option FieldType
  annotations : List AnnotationText
  deriving DecidableEq, Repr

structure Definition where
  name : String
  members : List Member
  deriving DecidableEq, Repr

def Definition.methods (d : Definition) : List String :=
  (d.members.filter fun m => m.kind = .method).map Member.name

end ViewWiring.Component
