import ViewWiring.Address.Path
import ViewWiring.State.Value

namespace ViewWiring.State

open Address

inductive Fault
  | unresolvedIndex (placeholder : String)
  | typeMismatch (expected found : Kind)
  | missingField (field : String)
  | indexOutOfRange (index length : Nat)
  deriving DecidableEq, Repr

structure PathError where
  path : Path
  fault : Fault
  deriving DecidableEq, Repr

def Fault.message : Fault → String
  | unresolvedIndex placeholder => "placeholder `" ++ placeholder ++ "` has no active iteration index"
  | typeMismatch expected found => "expected " ++ expected.name ++ ", found " ++ found.name
  | missingField field => "field `" ++ field ++ "` does not exist"
  | indexOutOfRange index length =>
      "index " ++ toString index ++ " is out of range for length " ++ toString length

def PathError.message (e : PathError) : String := "`" ++ e.path.text ++ "`: " ++ e.fault.message

end ViewWiring.State
