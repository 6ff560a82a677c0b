namespace ViewWiring.Declaration

/-- White space, and the two marks that only set a direction of writing. -/
def isBlank (c : Char) : Bool :=
  let n := c.toNat
  9 ≤ n && n ≤ 13 || 0x2000 ≤ n && n ≤ 0x200A || [0x20, 0x85, 0xA0, 0x1680, 0x200E, 0x200F, 0x2028, 0x2029, 0x202F,
    0x205F, 0x3000].contains n

/-- Every character beyond ASCII that is not blank is taken for a letter: in
text that can be read it is one, or stands in a quotation or a remark. -/
def isWordStart (c : Char) : Bool := c.isAlpha || c = '_' || 128 ≤ c.toNat && !isBlank c

def isWordPart (c : Char) : Bool := isWordStart c || c.isDigit

def signs : List Char :=
  ['~', '!', '@', '#', '$', '%', '^', '&', '*', '-', '=', '+', '|', ';', ':', ',', '<', '.', '>', '/', '?', '\x27']

def signNext : List Char → Bool
  | '/' :: '/' :: _ | '/' :: '*' :: _ => false
  | c :: _ => signs.contains c
  | [] => false

def wordLength (cs : List Char) : Nat :=
  if cs.head?.any isWordStart then (cs.takeWhile isWordPart).length else 0

end ViewWiring.Declaration
