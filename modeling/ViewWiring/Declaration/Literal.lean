import ViewWiring.Declaration.Lexeme
import ViewWiring.Declaration.Token

namespace ViewWiring.Declaration

def quoteEnd? : List Char → Option Nat
  | '"' :: _ => some 1
  | '\\' :: _ :: cs => (quoteEnd? cs).map (· + 2)
  | _ :: cs => (quoteEnd? cs).map (· + 1)
  | [] => none

def hashCount (cs : List Char) : Nat := (cs.takeWhile (· = '#')).length

def rawEnd? (hashes : Nat) : List Char → Option Nat
  | [] => none
  | c :: cs =>
      if c = '"' ∧ hashes ≤ hashCount cs then some (hashes + 1)
      else (rawEnd? hashes cs).map (· + 1)

def rawLength? (cs : List Char) : Option Nat :=
  match cs.drop (hashCount cs) with
  | '"' :: rest => (rawEnd? (hashCount cs) rest).map (hashCount cs + 1 + ·)
  | _ => none

def characterEnd? : List Char → Option Nat
  | '\\' :: _ :: cs =>
      let n := (cs.takeWhile (· ≠ '\x27')).length
      if n < cs.length then some (n + 3) else none
  | _ :: '\x27' :: _ => some 2
  | _ => none

def isFigure (c : Char) : Bool := c.isDigit || c = '_'

def exponentLength? : List Char → Option Nat
  | [] => none
  | c :: cs =>
      let gap := (cs.takeWhile (· = '_')).length
      let start := if (cs.drop gap).head?.any fun d => d = '+' ∨ d = '-' then gap + 1 else gap
      let figures := (cs.drop start).takeWhile isFigure
      if (c = 'e' ∨ c = 'E') ∧ figures.any Char.isDigit then some (1 + start + figures.length) else none

/-- The length of a number with a point or an exponent. What follows the point
is neither a name nor another point. -/
def decimalLength? (cs : List Char) : Option Nat :=
  let whole := (cs.takeWhile isFigure).length
  match cs.drop whole with
  | '.' :: rest =>
      if rest.head?.any fun c => c = '.' || isWordStart c then none
      else
        let fraction := (rest.takeWhile isFigure).length
        some (whole + 1 + fraction + (exponentLength? (rest.drop fraction)).getD 0)
  | rest => (exponentLength? rest).map (whole + ·)

def numberLength (cs : List Char) : Nat := (decimalLength? cs).getD (cs.takeWhile isWordPart).length

def literalLength? : List Char → Option Nat
  | '"' :: cs => (quoteEnd? cs).map (· + 1)
  | '\x27' :: cs => (characterEnd? cs).map (· + 1)
  | 'b' :: '\x27' :: cs => (characterEnd? cs).map (· + 2)
  | 'b' :: '"' :: cs | 'c' :: '"' :: cs => (quoteEnd? cs).map (· + 2)
  | 'r' :: cs => (rawLength? cs).map (· + 1)
  | 'b' :: 'r' :: cs | 'c' :: 'r' :: cs => (rawLength? cs).map (· + 2)
  | c :: cs => if c.isDigit then some (numberLength (c :: cs)) else none
  | [] => none

/-- Where a reader stands between quotation marks: `digits` wants as many more
digits of a code, `margin` passes over the start of a continued line. -/
inductive Reading
  | plain
  | escape
  | digits (left code : Nat)
  | braceOpen
  | braced (code : Nat)
  | margin
  deriving DecidableEq, Repr

def hexValue (c : Char) : Nat :=
  if c.isDigit then c.toNat - '0'.toNat else c.toLower.toNat - 'a'.toNat + 10

namespace Reading

def plainStep (c : Char) : Reading × Option Char :=
  if c = '\\' then (escape, none) else if c = '\r' then (plain, none) else (plain, some c)

def step : Reading → Char → Reading × Option Char
  | plain, c => plainStep c
  | escape, 'n' => (plain, some '\n')
  | escape, 'r' => (plain, some '\r')
  | escape, 't' => (plain, some '\t')
  | escape, '0' => (plain, some '\x00')
  | escape, 'x' => (digits 2 0, none)
  | escape, 'u' => (braceOpen, none)
  | escape, '\n' | escape, '\r' => (margin, none)
  | escape, c => (plain, some c)
  | digits (n + 2) code, c => (digits (n + 1) (16 * code + hexValue c), none)
  | digits _ code, c => (plain, some (.ofNat (16 * code + hexValue c)))
  | braceOpen, _ => (braced 0, none)
  | braced code, '\x7d' => (plain, some (.ofNat code))
  | braced code, '_' => (braced code, none)
  | braced code, c => (braced (16 * code + hexValue c), none)
  | margin, c => if c = ' ' ∨ c = '\t' ∨ c = '\n' ∨ c = '\r' then (margin, none) else plainStep c

end Reading

def unescaped (r : Reading) : List Char → List Char
  | [] => []
  | c :: cs =>
      let (r, out) := r.step c
      out.toList ++ unescaped r cs

def stringValue? : List Char → Option String
  | '"' :: cs => some (.ofList (unescaped .plain cs.dropLast))
  | 'r' :: cs => some (.ofList ((cs.drop (hashCount cs + 1)).take (cs.length - 2 * (hashCount cs + 1))))
  | _ => none

def literalToken (literal suffix : List Char) : Token :=
  let source : String := .ofList (literal ++ suffix)
  match stringValue? literal with
  | some value => .quote ⟨value, source⟩
  | none => .literal source

end ViewWiring.Declaration
