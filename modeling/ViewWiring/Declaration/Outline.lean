import ViewWiring.Declaration.Token

namespace ViewWiring.Declaration

abbrev Layered := List (Token × Bool)

/-- What opens a bracket stands outside of it, and what closes it inside. Angle
brackets hold the arguments of a name; within other brackets `<` and `>`
compare, and the `>` of an arrow closes nothing. -/
def layeredFrom (brackets angles : Nat) : List Token → Layered
  | [] => []
  | .sign '-' true :: .sign '>' joined :: ts =>
      let outer := brackets = 0 && angles = 0
      (.sign '-' true, outer) :: (.sign '>' joined, outer) :: layeredFrom brackets angles ts
  | t :: ts =>
      (t, brackets = 0 && angles = 0 && !t.isClosing) :: match t with
        | .opening _ => layeredFrom (brackets + 1) angles ts
        | .closing _ => layeredFrom (brackets - 1) angles ts
        | .sign '<' _ => layeredFrom brackets (if brackets = 0 then angles + 1 else angles) ts
        | .sign '>' _ => layeredFrom brackets (if brackets = 0 then angles - 1 else angles) ts
        | _ => layeredFrom brackets angles ts

def layered (ts : List Token) : Layered := layeredFrom 0 0 ts

namespace Layered

def tokens (l : Layered) : List Token := l.map Prod.fst

def outline (l : Layered) : List Token := tokens (l.filter Prod.snd)

def parts (l : Layered) : List Layered :=
  (l.foldr (fun p acc => if p.2 && p.1.isSign ',' then [] :: acc
    else match acc with
      | part :: others => (p :: part) :: others
      | [] => [[p]]) [[]]).filter (!·.isEmpty)

end Layered

/-- The tokens outside all brackets, each bracket left as its opening. -/
def outline (ts : List Token) : List Token := (layered ts).outline

def withoutAttributes : List Token → List Token
  | .sign '#' _ :: .opening .square :: ts => withoutAttributes ts
  | ts => ts

end ViewWiring.Declaration
