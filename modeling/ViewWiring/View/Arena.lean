import ViewWiring.View.Tree

namespace ViewWiring.View

open Address

/-- A forest as it is kept: the nodes by their numbers, the children of each, the
parents of those that have one, and the roots, each in a table of its own. -/
structure Arena where
  nodes : List Node
  childLists : List (List Nat)
  parents : List (Option Nat)
  roots : List Nat
  deriving DecidableEq, Repr

namespace Arena

def empty : Arena := ⟨[], [], [], []⟩

def size (a : Arena) : Nat := a.nodes.length

def node? (a : Arena) (id : Nat) : Option Node := a.nodes[id]?

def parent? (a : Arena) (id : Nat) : Option Nat := a.parents[id]?.join

def children (a : Arena) (id : Nat) : List Nat := a.childLists[id]?.getD []

def insertRoot (a : Arena) (n : Node) : Arena :=
  ⟨a.nodes ++ [n], a.childLists ++ [[]], a.parents ++ [none], a.roots ++ [a.size]⟩

/-- Puts a node in as the last child of `parent`, which is meant to exist. -/
def insertChild (a : Arena) (parent : Nat) (n : Node) : Arena :=
  ⟨a.nodes ++ [n], (a.childLists ++ [[]]).modify parent (· ++ [a.size]), a.parents ++ [some parent], a.roots⟩

def modify (a : Arena) (id : Nat) (change : Node → Node) : Arena :=
  { a with nodes := a.nodes.modify id change }

def findChild (a : Arena) (parent : Option Nat) (name : String) : Option Nat :=
  (parent.elim a.roots a.children).find? fun id => (a.node? id).any fun n => n.name = name

/-- Links could go round in a circle, since nothing but the operations above keeps them
from it. A walk that comes to no end has no result, here and below. -/
def climb (a : Arena) (current : Nat) (passed : List Nat) : Option (List Nat) :=
  match a.parent? current with
  | none => some passed
  | some p => a |>.climb p (passed ++ [p])
partial_fixpoint

def ancestors? (a : Arena) (id : Nat) : Option (List Nat) := a.climb id []

def find (a : Arena) (s : Selector) : Option Nat :=
  (s.scopes.foldlM (fun parent scope => (a.findChild parent scope).map some) none).join

/-- The names around a node and its own; if one of the nodes is missing there is no selector. -/
def selectorOf? (a : Arena) (id : Nat) : Option (Option Selector) := do
  let above ← a.ancestors? id
  return do
    let n ← a.node? id
    let around ← above.mapM a.node?
    match around.reverse.map Node.name with
    | [] => return ⟨n.name, []⟩
    | outermost :: inner => return ⟨outermost, inner ++ [n.name]⟩

def descend (a : Arena) (stack visited : List Nat) : Option (List Nat) :=
  match stack with
  | [] => some visited
  | id :: stack =>
      if id < a.size then
        a |>.descend ((a.children id).reverse.foldl (fun stack c => c :: stack) stack) (visited ++ [id])
      else a |>.descend stack visited
partial_fixpoint

def walkFrom? (a : Arena) (id : Nat) : Option (List Nat) := a.descend [id] []

def walk? (a : Arena) : Option (List Nat) := (a.roots.mapM a.walkFrom?).map List.flatten

def sameAt? (a b : Arena) (i j : Nat) : Option Bool :=
  match a.node? i, b.node? j with
  | some m, some n =>
      if m = n ∧ (a.children i).length = (b.children j).length then
        ((a.children i).zip (b.children j)).allM fun x => a |>.sameAt? b x.1 x.2
      else some false
  | _, _ => some false
partial_fixpoint

def same? (a b : Arena) : Option Bool :=
  if a.roots.length = b.roots.length then (a.roots.zip b.roots).allM fun x => a.sameAt? b x.1 x.2
  else some false

def linesAt? (a : Arena) (id depth : Nat) (lines : List String) : Option (List String) :=
  match a.node? id with
  | none => some lines
  | some n =>
      let element := Tree.indent depth ++ "<" ++ n.tag.name ++ " " ++ n.attributes
      if (a.children id).isEmpty then some (lines ++ [element ++ " />"])
      else do
        let opened := lines ++ [element ++ ">"]
        let inner ← (a.children id).foldlM (fun lines c => a |>.linesAt? c (depth + 1) lines) opened
        return inner ++ [Tree.indent depth ++ "</" ++ n.tag.name ++ ">"]
partial_fixpoint

def render? (a : Arena) : Option String :=
  (a.roots.foldlM (fun lines id => a.linesAt? id 0 lines) []).map "\n".intercalate

end Arena

end ViewWiring.View
