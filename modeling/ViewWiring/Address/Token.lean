namespace ViewWiring.Address

inductive TokenKind
  | number | ident | dot | bracketOpen | bracketClose | greaterThan
  deriving DecidableEq, Repr

def isBlank (c : Char) : Bool :=
  c = ' ' || c = '\t' || c = '\n' || c = '\r' || c = '\x0c'

def isNameStart (c : Char) : Bool := c.isAlpha || c = '_' || c = '$'

def isNamePart (c : Char) : Bool := c.isAlphanum || c = '_' || c = '$' || c = '-'

namespace TokenKind

def name : TokenKind → String
  | number => "Number"
  | ident => "Ident"
  | dot => "Dot"
  | bracketOpen => "BracketOpen"
  | bracketClose => "BracketClose"
  | greaterThan => "GreaterThan"

def startingWith? (c : Char) : Option TokenKind :=
  if c.isDigit then some number
  else if isNameStart c then some ident
  else if c = '.' then some dot
  else if c = '[' then some bracketOpen
  else if c = ']' then some bracketClose
  else if c = '>' then some greaterThan
  else none

def goesOnWith : TokenKind → Char → Bool
  | number => Char.isDigit
  | ident => isNamePart
  | _ => fun _ => false

end TokenKind

/-- A lexeme, with the number of UTF-8 bytes that stand before it. -/
structure Token where
  kind : TokenKind
  text : String
  offset : Nat
  deriving DecidableEq, Repr

structure Stray where
  offset : Nat
  found : Char
  deriving DecidableEq, Repr

def byteLength (cs : List Char) : Nat := cs.foldl (fun n c => n + c.utf8Size) 0

theorem length_dropWhile_le (p : Char → Bool) (cs : List Char) :
    (cs.dropWhile p).length ≤ cs.length :=
  (List.dropWhile_sublist p).length_le

def scanFrom (offset : Nat) : List Char → Except Stray (List Token)
  | [] => .ok []
  | c :: cs =>
      if isBlank c then scanFrom (offset + c.utf8Size) cs
      else match TokenKind.startingWith? c with
        | none => .error ⟨offset, c⟩
        | some kind =>
            let lexeme := c :: cs.takeWhile kind.goesOnWith
            (scanFrom (offset + byteLength lexeme) (cs.dropWhile kind.goesOnWith)).map
              (⟨kind, .ofList lexeme, offset⟩ :: ·)
termination_by cs => cs.length
decreasing_by
  · exact Nat.lt_succ_self _
  · exact Nat.lt_succ_of_le (length_dropWhile_le _ _)

def tokens (text : String) : Except Stray (List Token) := scanFrom 0 text.toList

end ViewWiring.Address
