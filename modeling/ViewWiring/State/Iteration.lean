import ViewWiring.State.Fault

namespace ViewWiring.State

open Address

structure Iteration where
  indices : List Nat
  deriving DecidableEq, Repr

namespace Iteration

def push (it : Iteration) (i : Nat) : Iteration := ⟨it.indices ++ [i]⟩

def innermost? (it : Iteration) : Option Nat := it.indices.getLast?

def get? (it : Iteration) (depth : Nat) : Option Nat := it.indices[depth]?

end Iteration

def suppliedIndices : Option Iteration → List Nat
  | none => []
  | some it => it.indices

inductive Key
  | field (name : String)
  | index (i : Nat)
  deriving DecidableEq, Repr

/-- The n-th placeholder receives the n-th index; literal indices use none up. -/
def keysOf : List Segment → List Nat → Except Fault (List Key)
  | [], _ => .ok []
  | .key name :: ss, is => (keysOf ss is).map (.field name :: ·)
  | .index i :: ss, is => (keysOf ss is).map (.index i :: ·)
  | .placeholder name :: _, [] => .error (.unresolvedIndex name)
  | .placeholder _ :: ss, i :: is => (keysOf ss is).map (.index i :: ·)

end ViewWiring.State
