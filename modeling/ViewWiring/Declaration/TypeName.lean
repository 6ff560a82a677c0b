import ViewWiring.Declaration.Outline

namespace ViewWiring.Declaration

def pathWords : List String := ["crate", "self", "Self", "super"]

def isName (word : String) : Bool := !keywords.contains word

/-- The last name of a path, of which `name` and then the given outline are
left. A bang makes it an invocation, and a plus a sum of traits. -/
def lastName? (name : String) : List Token → Option String
  | .sign ':' _ :: .sign ':' _ :: .word w :: ts => lastName? w ts
  | .sign ':' _ :: .sign ':' _ :: ts | .sign '<' _ :: ts | .opening .round :: ts
  | .sign '-' _ :: .sign '>' _ :: .opening .round :: ts => lastName? name ts
  | .sign '-' _ :: .sign '>' _ :: ts => if ts.any (Token.isSign '+') then none else some name
  | .sign '!' _ :: _ | .sign '+' _ :: _ => none
  | _ => some name

/-- The last name of a type that is a path; references, slices, tuples,
pointers, functions and the like are none. -/
def typeName? (type : List Token) : Option String :=
  match outline type with
  | .sign '<' _ :: .sign ':' _ :: .sign ':' _ :: .word w :: ts
  | .sign ':' _ :: .sign ':' _ :: .word w :: ts => lastName? w ts
  | .word w :: ts => if isName w || pathWords.contains w then lastName? w ts else none
  | _ => none

def isTraitPath (type : List Token) : Bool := (typeName? type).isSome && !type.head?.any (Token.isSign '<')

end ViewWiring.Declaration
