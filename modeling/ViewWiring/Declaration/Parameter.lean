import ViewWiring.Declaration.Outline

namespace ViewWiring.Declaration

inductive Parameter
  | receiver
  | argument
  | rest
  deriving DecidableEq, Repr

def isRest (ts : List Token) : Bool :=
  match ts.reverse with
  | .sign '.' _ :: .sign '.' _ :: .sign '.' _ :: _ => true
  | _ => false

def withoutMut : List Token → List Token
  | .word "mut" :: ts => ts
  | ts => ts

/-- Whether an outline is the receiver alone or, unless it is borrowed, with
its type. Two colons after the word begin a path, and three a type that does. -/
def isSelf (borrowed : Bool) : List Token → Bool
  | [.word "self"] => true
  | .word "self" :: .sign ':' _ :: .sign ':' _ :: .sign ':' _ :: _ => !borrowed
  | .word "self" :: .sign ':' _ :: .sign ':' _ :: _ => false
  | .word "self" :: .sign ':' _ :: _ => !borrowed
  | _ => false

def isReceiver : List Token → Bool
  | .sign '&' _ :: .sign '\x27' _ :: .word _ :: ts | .sign '&' _ :: ts => isSelf true (withoutMut ts)
  | ts => isSelf false (withoutMut ts)

namespace Parameter

def ofOutline (ts : List Token) : Parameter :=
  if isRest ts then rest else if isReceiver (withoutAttributes ts) then receiver else argument

end Parameter

def parametersOf (ts : List Token) : List Parameter :=
  (layered ts).parts.map fun part => Parameter.ofOutline part.outline

end ViewWiring.Declaration
