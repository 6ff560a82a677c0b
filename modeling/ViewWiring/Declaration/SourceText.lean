import ViewWiring.Declaration.Literal
import ViewWiring.Declaration.Remark

namespace ViewWiring.Declaration

def bracketToken? (c : Char) : Option Token :=
  (Bracket.all.find? (·.opener = c)).map Token.opening <|> (Bracket.all.find? (·.closer = c)).map Token.closing

def nextTokens? (c : Char) (cs : List Char) : Option (List Token × Nat) :=
  if isBlank c then some ([], 0)
  else match remarkLength? (c :: cs), literalLength? (c :: cs), bracketToken? c with
    | some n, _, _ => some (remarkTokens ((c :: cs).take n), n - 1)
    | none, some n, _ =>
        let rest := (c :: cs).drop n
        let suffix := rest.take (wordLength rest)
        some ([literalToken ((c :: cs).take n) suffix], n + suffix.length - 1)
    | none, none, some t => some ([t], 0)
    | none, none, none =>
        if signNext (c :: cs) then some ([.sign c (c = '\x27' || signNext cs)], 0)
        else
          let mark := if c = 'r' ∧ cs.head? = some '#' then 2 else 0
          let n := wordLength ((c :: cs).drop mark)
          if n = 0 then none else some ([.word (.ofList ((c :: cs).take (mark + n)))], mark + n - 1)

def readTokens? : List Char → Option (List Token)
  | [] => some []
  | c :: cs =>
      match nextTokens? c cs with
      | none => none
      | some (ts, n) => (readTokens? (cs.drop n)).map (ts ++ ·)
termination_by cs => cs.length
decreasing_by
  rw [List.length_drop, List.length_cons]
  omega

/-- A byte order mark in front is no part of the text. -/
def tokens? (text : String) : Option (List Token) :=
  match text.toList with
  | '\ufeff' :: cs => readTokens? cs
  | cs => readTokens? cs

end ViewWiring.Declaration
