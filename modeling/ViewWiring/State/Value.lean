import ViewWiring.Entries

namespace ViewWiring.State

/-- Numbers are carried through a state and never computed with, so a decimal
keeps the digits it was written with. -/
inductive Number
  | integer (i : Int)
  | decimal (mantissa : Int) (places : Nat)
  deriving DecidableEq, Repr

/-- An integer differs from every decimal, `1` from `1.0` too. -/
def Number.same : Number → Number → Bool
  | .integer i, .integer j => i = j
  | .decimal m p, .decimal n q => m * Int.pow 10 q = n * Int.pow 10 p
  | _, _ => false

inductive Value
  | null
  | boolean (b : Bool)
  | number (n : Number)
  | string (s : String)
  | sequence (items : List Value)
  | map (entries : List (String × Value))
  deriving Inhabited

inductive Kind
  | null | boolean | number | string | sequence | map
  deriving DecidableEq, Repr

def Kind.name : Kind → String
  | null => "null"
  | boolean => "boolean"
  | number => "number"
  | string => "string"
  | sequence => "sequence"
  | map => "map"

namespace Value

def kind : Value → Kind
  | null => .null
  | boolean _ => .boolean
  | number _ => .number
  | string _ => .string
  | sequence _ => .sequence
  | map _ => .map

def isMap (v : Value) : Bool := v.kind = .map

mutual

def same : Value → Value → Bool
  | .null, .null => true
  | .boolean a, .boolean b => a = b
  | .number a, .number b => a.same b
  | .string a, .string b => a = b
  | .sequence xs, .sequence ys => sameItems xs ys
  | .map es, .map fs => es.length = fs.length && sameEntries es fs
  | _, _ => false

def sameItems : List Value → List Value → Bool
  | [], [] => true
  | x :: xs, y :: ys => same x y && sameItems xs ys
  | _, _ => false

def sameEntries : List (String × Value) → Entries String Value → Bool
  | [], _ => true
  | (k, v) :: es, fs =>
      (match fs.get? k with
        | some w => same v w
        | none => false) && sameEntries es fs

end

def append (v item : Value) : Value :=
  match v with
  | sequence xs => sequence (xs ++ [item])
  | v => v

def toInt64? : Value → Option Int
  | .number (.integer i) => if -Int.pow 2 63 ≤ i ∧ i < Int.pow 2 63 then some i else none
  | _ => none

end Value

end ViewWiring.State
