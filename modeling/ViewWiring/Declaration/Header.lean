import ViewWiring.Declaration.TypeName

namespace ViewWiring.Declaration

structure Generic where
  name : List Token
  declaration : List Token
  byDefault : List Token
  deriving DecidableEq, Repr

structure Header where
  generics : List Generic
  selfType : List Token
  whereClause : List Token
  deriving DecidableEq, Repr

structure Subject where
  header : Header
  ofTrait : Option (List Token)
  denied : Bool
  deriving DecidableEq, Repr

def parameterEnds : List Token → Bool
  | .sign ':' true :: .sign ':' _ :: _ => false
  | t :: _ => ['>', ',', ':', '='].any t.isSign
  | [] => false

/-- Whether an angle bracket in front opens the parameters of a block. Else it
opens the type that qualifies a path. -/
def opensParameters : List Token → Bool
  | .sign '<' _ :: .sign '>' _ :: _ | .sign '<' _ :: .sign '#' _ :: _ | .sign '<' _ :: .word "const" :: _ => true
  | .sign '<' _ :: .sign '\x27' _ :: .word _ :: ts => parameterEnds ts
  | .sign '<' _ :: .word w :: ts => isName w && parameterEnds ts
  | _ => false

namespace Generic

/-- A colon that no bound follows says nothing. -/
def declared (ts : List Token) : List Token := if ts.getLast?.any (Token.isSign ':') then ts.dropLast else ts

def ofLayered (l : Layered) : Generic :=
  let name := match withoutAttributes l.outline with
    | .sign '\x27' joined :: .word w :: _ => [.sign '\x27' joined, .word w]
    | .word "const" :: .word w :: _ | .word w :: _ => [.word w]
    | _ => []
  let declaration := l.takeWhile fun p => !(p.2 && p.1.isSign '=')
  ⟨name, declared (Layered.tokens declaration), Layered.tokens (l.drop declaration.length)⟩

def isLifetime (g : Generic) : Bool := g.name.head?.any (Token.isSign '\x27')

def withoutDefault (g : Generic) : Generic := { g with byDefault := [] }

end Generic

/-- Whether what follows a `for` makes it bind lifetimes, as part of a type. -/
def bindsLifetimes : Layered → Bool
  | (.sign '<' _, _) :: (.sign '\x27' _, _) :: _ | (.sign '<' _, _) :: (.sign '>' _, _) :: _ => true
  | _ => false

def traitSplit? : Layered → Option (Layered × Layered)
  | [] => none
  | p :: l =>
      if p = (.word "where", true) then none
      else if p = (.word "for", true) && !bindsLifetimes l then some ([], l)
      else (traitSplit? l).map fun s => (p :: s.1, s.2)

namespace Subject

def generics (l : Layered) : List Generic × Layered :=
  if opensParameters l.tokens then
    let inside := l.tail.takeWhile (!·.2)
    ((layered (Layered.tokens inside.dropLast)).parts.map .ofLayered, l.tail.drop inside.length)
  else ([], l)

def denial : Layered → Bool × Layered
  | (.sign '!' _, _) :: p :: l => (true, p :: l)
  | l => (false, l)

def conditions : Layered → List Token
  | [_] => []
  | l => l.tokens

def ofTokens (ts : List Token) : Subject :=
  let (generics, l) := generics (layered ts)
  let (denied, l) := denial l
  let (ofTrait, l) := match traitSplit? l with
    | some (a, b) => (some a.tokens, b)
    | none => (none, l)
  let type := l.takeWhile (· ≠ (.word "where", true))
  ⟨⟨generics, Layered.tokens type, conditions (l.drop type.length)⟩, ofTrait, denied⟩

end Subject

end ViewWiring.Declaration
