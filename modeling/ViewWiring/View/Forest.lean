import ViewWiring.Address.Selector
import ViewWiring.View.Node

namespace ViewWiring.View

open Address

structure Planted where
  node : Node
  parent : Option Nat
  deriving DecidableEq, Repr

/-- Nodes are numbered in the order in which they were put in, so a parent has
a smaller number than its children, and siblings stand in the order of theirs. -/
structure Forest where
  planted : List Planted
  deriving Repr

namespace Forest

def empty : Forest := ⟨[]⟩

def size (f : Forest) : Nat := f.planted.length

def node? (f : Forest) (id : Nat) : Option Node := f.planted[id]?.map Planted.node

def parent? (f : Forest) (id : Nat) : Option Nat := f.planted[id]?.bind Planted.parent

def insert (f : Forest) (parent : Option Nat) (n : Node) : Forest := ⟨f.planted ++ [⟨n, parent⟩]⟩

def modify (f : Forest) (id : Nat) (change : Node → Node) : Forest :=
  ⟨f.planted.modify id fun p => { p with node := change p.node }⟩

def below (f : Forest) (parent : Option Nat) : List Nat :=
  f.planted.zipIdx.filterMap fun (p, id) => if p.parent = parent then some id else none

def roots (f : Forest) : List Nat := f.below none

def children (f : Forest) (id : Nat) : List Nat := f.below (some id)

def ancestors (f : Forest) (id : Nat) : List Nat :=
  match f.parent? id with
  | none => []
  | some p => if p < id then p :: f.ancestors p else []
termination_by id

/-- Visits the nodes that are waiting, each followed by the nodes below it;
`left` is the number of nodes not yet visited. -/
def visit (f : Forest) (left : Nat) (waiting : List Nat) : List Nat :=
  match left, waiting with
  | left + 1, id :: rest => id :: f.visit left (f.children id ++ rest)
  | _, _ => []

def walkFrom (f : Forest) (id : Nat) : List Nat := if id < f.size then f.visit f.size [id] else []

def walk (f : Forest) : List Nat := f.roots.flatMap f.walkFrom

def findBelow (f : Forest) (parent : Option Nat) (name : String) : Option Nat :=
  f.planted.findIdx? fun p => p.parent = parent && p.node.name = name

def findFrom (f : Forest) (parent : Option Nat) (name : String) : List String → Option Nat
  | [] => f.findBelow parent name
  | next :: rest => do
      let id ← f.findBelow parent name
      f.findFrom (some id) next rest

def find (f : Forest) (s : Selector) : Option Nat := f.findFrom none s.outermost s.inner

def address? (f : Forest) (id : Nat) : Option Selector :=
  match f.node? id with
  | none => none
  | some n =>
      match ((f.ancestors id).filterMap f.node?).reverse.map Node.name with
      | [] => some ⟨n.name, []⟩
      | outermost :: inner => some ⟨outermost, inner ++ [n.name]⟩

end Forest

end ViewWiring.View
