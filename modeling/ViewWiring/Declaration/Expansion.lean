import ViewWiring.Declaration.Block
import ViewWiring.Dispatch.Handler

namespace ViewWiring.Declaration

open Component Dispatch

structure Constructors where
  header : Header
  component : String
  members : List DeclaredMember
  deriving DecidableEq, Repr

namespace DeclaredMember

def text (m : DeclaredMember) : String :=
  let annotations := "[" ++ " , ".intercalate (m.bindings.map Binding.text) ++ "]"
  match m.kind with
  | .field => " . field (" ++ quoted m.name ++ " , :: core :: option :: Option :: Some (Self :: " ++ m.name ++
      ") , " ++ annotations ++ ")"
  | .method => " . method (" ++ quoted m.name ++ " , " ++ annotations ++ ")"

def handlerText (m : DeclaredMember) : String :=
  " . with (" ++ quoted m.name ++ " , Self :: " ++ m.name ++ ")"

def isMethod (m : DeclaredMember) : Bool := m.kind = .method

def member (typeOf : String → FieldType) (m : DeclaredMember) : Member :=
  ⟨m.kind, m.name, if m.isMethod then none else some (typeOf m.name), m.bindings.map Binding.annotation⟩

end DeclaredMember

namespace Constructors

def methods (c : Constructors) : List DeclaredMember := c.members.filter DeclaredMember.isMethod

def definitionText (c : Constructors) : String :=
  ":: bindview :: metadata :: ComponentDef :: new (" ++ quoted c.component ++ ")" ++
    String.join (c.members.map DeclaredMember.text)

def tableText (c : Constructors) : String :=
  ":: bindview :: event :: HandlerTable :: new ()" ++ String.join (c.methods.map DeclaredMember.handlerText)

def definition (c : Constructors) (typeOf : String → FieldType) : Definition :=
  ⟨c.component, c.members.map (DeclaredMember.member typeOf)⟩

def table {ν : Type} (c : Constructors) (bodyOf : String → Handler ν) : HandlerTable ν :=
  c.methods.foldl (fun t m => t.insert m.name (bodyOf m.name)) .empty

end Constructors

def lifetimesFirst (generics : List Generic) : List Generic :=
  generics.filter Generic.isLifetime ++ generics.filter (!·.isLifetime)

def typeArguments (generics : List Generic) : List Token :=
  if generics.isEmpty then []
  else
    .sign '<' false :: [Token.sign ',' false].intercalate ((lifetimesFirst generics).map Generic.name) ++
      [.sign '>' false]

/-- The header of the added block names the type with its parameters after it;
what they are by default is left off. -/
def Header.ofConstructors (h : Header) : Header :=
  { h with
    generics := (lifetimesFirst h.generics).map Generic.withoutDefault
    selfType := h.selfType ++ typeArguments h.generics }

structure Expansion where
  items : List BlockItem
  constructors : Constructors
  deriving DecidableEq, Repr

def Block.expand (b : Block) : Except DeclarationError Expansion :=
  if b.arguments ≠ [] then .error .argumentsOnBlock
  else if b.subject.ofTrait.any fun t => !isTraitPath t then .error .notTrait
  else if b.subject.ofTrait.isSome then .error .blockOfTrait
  else if b.subject.denied then .error .deniedType
  else match typeName? b.subject.header.selfType with
    | none => .error .unnamedType
    | some name => do
        let collected ← b.items.mapM BlockItem.collect
        return ⟨collected.map Prod.fst, b.subject.header.ofConstructors, name, collected.filterMap Prod.snd⟩

end ViewWiring.Declaration
