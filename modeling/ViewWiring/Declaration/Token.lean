import ViewWiring.Declaration.Shapeless

namespace ViewWiring.Declaration

structure Quote where
  value : String
  source : String
  deriving DecidableEq, Repr

inductive Bracket
  | round | square | curly
  deriving DecidableEq, Repr

/-- A token of the language of a block. A sign is `joined` when another sign
follows with nothing between them; a literal is any but a string. -/
inductive Token
  | word (text : String)
  | sign (c : Char) (joined : Bool)
  | quote (q : Quote)
  | literal (text : String)
  | opening (b : Bracket)
  | closing (b : Bracket)
  deriving DecidableEq, Repr

def keywords : List String :=
  ["_", "abstract", "as", "async", "await", "become", "box", "break", "const", "continue", "crate", "do",
    "dyn", "else", "enum", "extern", "false", "final", "fn", "for", "if", "impl", "in", "let", "loop", "macro",
    "match", "mod", "move", "mut", "override", "priv", "pub", "ref", "return", "Self", "self", "static", "struct",
    "super", "trait", "true", "try", "type", "typeof", "unsafe", "unsized", "use", "virtual", "where", "while",
    "yield"]

def hexDigits (n : Nat) : String := .ofList (Nat.toDigits 16 n)

/-- How a character is written between quotation marks, before `next`. A NUL
is written out where a digit would be read as part of it. -/
def escaped (c : Char) (next : Option Char) : String :=
  if c = '"' then "\\\""
  else if c = '\\' then "\\\\"
  else if c = '\n' then "\\n"
  else if c = '\r' then "\\r"
  else if c = '\t' then "\\t"
  else if c.toNat = 0 then if next.any fun d => '0' ≤ d ∧ d ≤ '7' then "\\x00" else "\\0"
  else if isShapeless c then "\\u\x7b" ++ hexDigits c.toNat ++ "\x7d"
  else c.toString

def escapedAll : List Char → String
  | [] => ""
  | c :: cs => escaped c cs.head? ++ escapedAll cs

def quoted (s : String) : String := "\"" ++ escapedAll s.toList ++ "\""

def Quote.ofString (s : String) : Quote := ⟨s, quoted s⟩

namespace Bracket

def opener : Bracket → Char
  | round => '('
  | square => '['
  | curly => '\x7b'

def closer : Bracket → Char
  | round => ')'
  | square => ']'
  | curly => '\x7d'

def all : List Bracket := [round, square, curly]

end Bracket

namespace Token

def text : Token → String
  | word t | literal t => t
  | sign c _ => c.toString
  | quote q => q.source
  | opening b => b.opener.toString
  | closing b => b.closer.toString

def apart : Token → Token → Bool
  | sign _ true, _ | opening .round, _ | opening .square, _ => false
  | _, closing .round | _, closing .square => false
  | _, _ => true

def isSign (c : Char) : Token → Bool
  | sign d _ => c = d
  | _ => false

def isClosing : Token → Bool
  | closing _ => true
  | _ => false

end Token

def spaced : List Token → String
  | [] => ""
  | [t] => t.text
  | t :: u :: ts => t.text ++ (if t.apart u then " " else "") ++ spaced (u :: ts)

end ViewWiring.Declaration
