import ViewWiring.Address.Token

namespace ViewWiring.Address

inductive Expected
  | scope | separator | scopeAfterSeparator
  | field | fieldAfterDot | dotOrBracket
  | bracketContent | bracketContentAfterBracket | bracketClose
  deriving DecidableEq, Repr

def Expected.text : Expected → String
  | scope => "a scope name"
  | separator => "`>` between scopes"
  | scopeAfterSeparator => "a scope name after `>`"
  | field => "a field name"
  | fieldAfterDot => "a field name after `.`"
  | dotOrBracket => "`.` or `[`"
  | bracketContent => "an index or placeholder name"
  | bracketContentAfterBracket => "an index or placeholder name after `[`"
  | bracketClose => "`]`"

inductive Malformed
  | empty
  | stray (s : Stray)
  | unexpected (token : Token) (expected : Expected)
  | ended (expected : Expected)
  | indexTooLarge (digits : String) (offset : Nat)
  deriving DecidableEq, Repr

def Malformed.message : Malformed → String
  | empty => "empty input"
  | stray s => "unexpected character '" ++ s.found.toString ++ "' at offset " ++ toString s.offset
  | unexpected t e =>
      "unexpected token at offset " ++ toString t.offset ++ ": expected " ++ e.text ++
        ", got " ++ t.kind.name ++ " '" ++ t.text ++ "'"
  | ended e => "unexpected end of input: expected " ++ e.text
  | indexTooLarge digits offset =>
      "index `" ++ digits ++ "` at offset " ++ toString offset ++ " is out of range"

/-- A stray character anywhere is reported before any fault of grammar. -/
def readTokens {α : Type} (read : Token → List Token → Except Malformed α) (text : String) :
    Except Malformed α :=
  match tokens text with
  | .error s => .error (.stray s)
  | .ok [] => .error .empty
  | .ok (t :: ts) => read t ts

def nameOf (expected : Expected) (t : Token) : Except Malformed String :=
  if t.kind = .ident then .ok t.text else .error (.unexpected t expected)

end ViewWiring.Address
