import ViewWiring.Declaration.Token

namespace ViewWiring.Declaration

def remarkEnd? (depth : Nat) : List Char → Option Nat
  | '*' :: '/' :: cs => if depth = 0 then some 2 else (remarkEnd? (depth - 1) cs).map (· + 2)
  | '/' :: '*' :: cs => (remarkEnd? (depth + 1) cs).map (· + 2)
  | _ :: cs => (remarkEnd? depth cs).map (· + 1)
  | [] => none

def remarkLength? : List Char → Option Nat
  | '/' :: '/' :: cs => some ((cs.takeWhile (· ≠ '\n')).length + 2)
  | '/' :: '*' :: cs => (remarkEnd? 0 cs).map (· + 2)
  | _ => none

/-- The documentation in a remark, and whether it is about what encloses it.
A remark that begins with one more star or slash is an ordinary one. -/
def documentation? : List Char → Option (Bool × List Char)
  | '/' :: '/' :: '/' :: '/' :: _ | '/' :: '*' :: '*' :: '*' :: _ | ['/', '*', '*', '/'] => none
  | '/' :: '/' :: '/' :: cs => some (false, cs)
  | '/' :: '/' :: '!' :: cs => some (true, cs)
  | '/' :: '*' :: '*' :: cs => some (false, cs.take (cs.length - 2))
  | '/' :: '*' :: '!' :: cs => some (true, cs.take (cs.length - 2))
  | _ => none

def remarkTokens (remark : List Char) : List Token :=
  match documentation? remark with
  | none => []
  | some (enclosing, cs) =>
      let doc := if cs.getLast? = some '\r' then cs.dropLast else cs
      .sign '#' false :: (if enclosing then [.sign '!' false] else []) ++
        [.opening .square, .word "doc", .sign '=' false, .quote (.ofString (.ofList doc)), .closing .square]

end ViewWiring.Declaration
