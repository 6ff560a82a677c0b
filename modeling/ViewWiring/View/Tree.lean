import ViewWiring.View.Forest

namespace ViewWiring.View

inductive Tree
  | grown (id : Nat) (node : Node) (children : List Tree)

namespace Tree

mutual

def same : Tree → Tree → Bool
  | grown _ m ms, grown _ n ns => m = n && sameAll ms ns

def sameAll : List Tree → List Tree → Bool
  | [], [] => true
  | t :: ts, u :: us => t.same u && sameAll ts us
  | _, _ => false

end

mutual

def preorder : Tree → List Nat
  | grown id _ children => id :: preorderAll children

def preorderAll : List Tree → List Nat
  | [] => []
  | t :: ts => t.preorder ++ preorderAll ts

end

def indent (depth : Nat) : String := String.join (List.replicate depth "  ")

mutual

def lines (depth : Nat) : Tree → List String
  | grown _ n [] => [indent depth ++ "<" ++ n.tag.name ++ " " ++ n.attributes ++ " />"]
  | grown _ n (t :: ts) =>
      (indent depth ++ "<" ++ n.tag.name ++ " " ++ n.attributes ++ ">") ::
        (lines (depth + 1) t ++ linesAll (depth + 1) ts ++
          [indent depth ++ "</" ++ n.tag.name ++ ">"])

def linesAll (depth : Nat) : List Tree → List String
  | [] => []
  | t :: ts => lines depth t ++ linesAll depth ts

end

end Tree

namespace Forest

/-- Grows the trees of the nodes from number `id` on. A tree whose parent has a
smaller number waits for it, with that number beside it. -/
def grow (id : Nat) : List Planted → List (Option Nat × Tree)
  | [] => []
  | p :: ps =>
      let later := grow (id + 1) ps
      let (own, others) := later.partition fun t => t.1 = some id
      (p.parent, .grown id p.node (own.map Prod.snd)) :: others

def trees (f : Forest) : List Tree :=
  ((grow 0 f.planted).filter fun t => t.1 = none).map Prod.snd

def same (f g : Forest) : Bool := Tree.sameAll f.trees g.trees

def render (f : Forest) : String := "\n".intercalate (Tree.linesAll 0 f.trees)

end Forest

end ViewWiring.View
