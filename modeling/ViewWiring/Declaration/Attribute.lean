import ViewWiring.Binding.Annotation
import ViewWiring.Declaration.Token

namespace ViewWiring.Declaration

open Binding

inductive DeclarationError
  | argumentsOnBlock
  | blockOfTrait
  | notTrait
  | deniedType
  | unnamedType
  | noArguments (name : String)
  | valueForArguments (name : String)
  | expectedString (atEnd : Bool)
  | expectedWord
  | reservedWord (word : String)
  | unknownArgument (word : String)
  | expectedEquals
  | unexpectedToken
  | selectorBesideEvent (name : String)
  | notFieldType
  | notHandler
  | misplaced
  deriving DecidableEq, Repr

def DeclarationError.message : DeclarationError → String
  | argumentsOnBlock => "#[component] takes no arguments"
  | blockOfTrait => "#[component] applies to inherent impl blocks"
  | notTrait => "expected trait path"
  | deniedType => "inherent impls cannot be negative"
  | unnamedType => "#[component] expects `impl TypeName`"
  | noArguments name => "expected attribute arguments in parentheses: #[" ++ name ++ "(...)]"
  | valueForArguments name => "expected parentheses: #[" ++ name ++ "(...)]"
  | expectedString true => "unexpected end of input, expected string literal"
  | expectedString false => "expected string literal"
  | expectedWord => "expected identifier"
  | reservedWord word => "expected identifier, found keyword `" ++ word ++ "`"
  | unknownArgument word => "unknown argument `" ++ word ++ "`, expected `selector`"
  | expectedEquals => "expected `=`"
  | unexpectedToken => "unexpected token"
  | selectorBesideEvent name => "`" ++ name ++ "` takes its selector as the first argument"
  | notFieldType => "binding fields must have type `FieldType`"
  | notHandler => "handlers take exactly one argument: `cx: &mut HandlerContext<'_>`"
  | misplaced => "binding attributes apply to `FieldType` consts and handler fns"

inductive AttributeBody
  | none
  | arguments (b : Bracket) (ts : List Token)
  | value (ts : List Token)
  deriving DecidableEq, Repr

structure Attribute where
  path : List Token
  body : AttributeBody
  deriving DecidableEq, Repr

def attributeOf : AnnotationKind → String
  | .viewFor => "view_for"
  | .event .inputChange => "input_change"
  | .event .buttonTap => "button_tap"
  | .event .checkboxChange => "checkbox_change"
  | .mutation .bind => "data_bind"
  | .mutation .toggle => "toggle"
  | .mutation .remove => "remove"

namespace Attribute

/-- The annotation that an attribute declares. Its name stands alone: below a
path the same name means something else. -/
def kind? (a : Attribute) : Option AnnotationKind :=
  AnnotationKind.all.find? fun k => a.path = [.word (attributeOf k)]

def isBinding (a : Attribute) : Bool := a.kind?.isSome

def endsPath : Token → Bool
  | .opening _ | .sign '=' _ => true
  | _ => false

def ofTokens (ts : List Token) : Attribute :=
  let path := ts.takeWhile fun t => !endsPath t
  ⟨path, match ts.drop path.length with
    | .opening b :: inside => .arguments b inside.dropLast
    | .sign _ _ :: value => .value value
    | _ => .none⟩

def bodyTokens : AttributeBody → List Token
  | .none => []
  | .arguments b ts => .opening b :: ts ++ [.closing b]
  | .value ts => .sign '=' false :: ts

def tokens (a : Attribute) : List Token :=
  .sign '#' false :: .opening .square :: a.path ++ bodyTokens a.body ++ [.closing .square]

def text (a : Attribute) : String := spaced a.tokens

def allow (warning : String) : Attribute := ⟨[.word "allow"], .arguments .round [.word warning]⟩

end Attribute

/-- An annotation as an attribute declares it: the selector of an event or a
view, or the path of a mutation and perhaps its selector. -/
structure Binding where
  kind : AnnotationKind
  value : Quote
  selector : Option Quote
  deriving DecidableEq, Repr

namespace Binding

def readSelector : List Token → Except DeclarationError (Option Quote)
  | [.sign '=' _] => .error (.expectedString true)
  | [.sign '=' _, .quote q] | [.sign '=' _, .quote q, .sign ',' _] => .ok (some q)
  | .sign '=' _ :: .quote _ :: _ => .error .unexpectedToken
  | .sign '=' _ :: _ => .error (.expectedString false)
  | _ => .error .expectedEquals

def readRest : List Token → Except DeclarationError (Option Quote)
  | [] | [.sign ',' _] => .ok none
  | .sign ',' _ :: .word w :: rest =>
      if w ∈ keywords then .error (.reservedWord w)
      else if w ≠ "selector" then .error (.unknownArgument w)
      else readSelector rest
  | .sign ',' _ :: _ => .error .expectedWord
  | _ => .error .unexpectedToken

def readArguments : List Token → Except DeclarationError (Quote × Option Quote)
  | [] => .error (.expectedString true)
  | .quote q :: rest => (readRest rest).map (q, ·)
  | _ => .error (.expectedString false)

def ofAttribute (kind : AnnotationKind) (a : Attribute) : Except DeclarationError Binding :=
  match a.body with
  | .none => .error (.noArguments (attributeOf kind))
  | .value _ => .error (.valueForArguments (attributeOf kind))
  | .arguments _ l => do
      let (value, selector) ← readArguments l
      if selector.isSome && !kind.isMutation then .error (.selectorBesideEvent (attributeOf kind))
      else return ⟨kind, value, selector⟩

/-- What an event or a view is bound to is its selector; of a mutation it is
the path. -/
def annotation (b : Binding) : AnnotationText :=
  let selector := b.selector.map Quote.value
  if b.kind.isMutation then ⟨b.kind, selector, some b.value.value⟩ else ⟨b.kind, some b.value.value, selector⟩

def text (b : Binding) : String :=
  let at_ := match b.selector with
    | none => ""
    | some q => " . at (" ++ q.source ++ ")"
  ":: bindview :: binding :: RawAnnotation :: " ++ attributeOf b.kind ++ " (" ++ b.value.source ++ ")" ++ at_

end Binding

def bindingsOf (as : List Attribute) : Except DeclarationError (List Binding) :=
  (as.filterMap fun a => a.kind?.map fun k => (k, a)).mapM fun p => Binding.ofAttribute p.1 p.2

end ViewWiring.Declaration
