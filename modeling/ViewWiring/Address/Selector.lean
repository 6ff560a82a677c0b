import ViewWiring.Address.Malformed

namespace ViewWiring.Address

structure Selector where
  outermost : String
  inner : List String
  deriving DecidableEq, Repr

namespace Selector

def scopes (s : Selector) : List String := s.outermost :: s.inner

def depth (s : Selector) : Nat := s.inner.length + 1

theorem length_scopes (s : Selector) : s.scopes.length = s.depth := rfl

def leaf (s : Selector) : String := s.inner.getLastD s.outermost

def parent? (s : Selector) : Option Selector :=
  if s.inner = [] then none else some ⟨s.outermost, s.inner.dropLast⟩

/-- The selectors of the enclosing scopes, from the outside in, and `s` itself. -/
def enclosing (s : Selector) : List Selector :=
  (List.range s.depth).map fun n => ⟨s.outermost, s.inner.take n⟩

def within (s : Selector) (name : String) : Selector := ⟨s.outermost, s.inner ++ [name]⟩

def text (s : Selector) : String := " > ".intercalate s.scopes

def cmp (s t : Selector) : Ordering := List.compareLex compare s.scopes t.scopes

def le (s t : Selector) : Bool := (s.cmp t).isLE

def sort (l : List Selector) : List Selector := l.mergeSort le

def scopesAfter : List Token → Except Malformed (List String)
  | [] => .ok []
  | sep :: ts =>
      if sep.kind = .greaterThan then
        match ts with
        | [] => .error (.ended .scopeAfterSeparator)
        | t :: rest => do
            let name ← nameOf .scopeAfterSeparator t
            let names ← scopesAfter rest
            return name :: names
      else .error (.unexpected sep .separator)

def ofTokens (t : Token) (ts : List Token) : Except Malformed Selector := do
  let outermost ← nameOf .scope t
  let inner ← scopesAfter ts
  return ⟨outermost, inner⟩

def parse (text : String) : Except Malformed Selector := readTokens ofTokens text

end Selector

end ViewWiring.Address
