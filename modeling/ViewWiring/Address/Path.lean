import ViewWiring.Address.Malformed

namespace ViewWiring.Address

/-- A step of a path. A placeholder stands for an index that the iteration
around an event supplies. -/
inductive Segment
  | key (name : String)
  | index (i : Nat)
  | placeholder (name : String)
  deriving DecidableEq, Repr

namespace Segment

def text : Segment → String
  | key name => "." ++ name
  | index i => "[" ++ toString i ++ "]"
  | placeholder name => "[" ++ name ++ "]"

def isPlaceholder : Segment → Bool
  | placeholder _ => true
  | _ => false

end Segment

structure Path where
  field : String
  steps : List Segment
  deriving DecidableEq, Repr

def indexBound : Nat := 18446744073709551616

def indexOf (t : Token) : Except Malformed Nat :=
  let i := Nat.ofDigitChars 10 t.text.toList 0
  if i < indexBound then .ok i else .error (.indexTooLarge t.text t.offset)

namespace Path

def key (name : String) : Path := ⟨name, []⟩

def segments (p : Path) : List Segment := .key p.field :: p.steps

def placeholders (p : Path) : Nat := p.steps.countP Segment.isPlaceholder

def text (p : Path) : String := p.field ++ String.join (p.steps.map Segment.text)

def bracketed (t : Token) : Except Malformed Segment :=
  match t.kind with
  | .number => (indexOf t).map Segment.index
  | .ident => .ok (.placeholder t.text)
  | _ => .error (.unexpected t .bracketContent)

def stepsOf : List Token → Except Malformed (List Segment)
  | [] => .ok []
  | t :: ts =>
      match t.kind with
      | .dot =>
          match ts with
          | [] => .error (.ended .fieldAfterDot)
          | n :: rest => do
              let name ← nameOf .fieldAfterDot n
              let steps ← stepsOf rest
              return .key name :: steps
      | .bracketOpen =>
          match ts with
          | [] => .error (.ended .bracketContentAfterBracket)
          | [content] => do
              let _ ← bracketed content
              .error (.ended .bracketClose)
          | content :: close :: rest => do
              let segment ← bracketed content
              if close.kind = .bracketClose then
                let steps ← stepsOf rest
                return segment :: steps
              else .error (.unexpected close .bracketClose)
      | _ => .error (.unexpected t .dotOrBracket)

def ofTokens (t : Token) (ts : List Token) : Except Malformed Path := do
  let field ← nameOf .field t
  let steps ← stepsOf ts
  return ⟨field, steps⟩

def parse (text : String) : Except Malformed Path := readTokens ofTokens text

end Path

end ViewWiring.Address
