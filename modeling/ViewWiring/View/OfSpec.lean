import ViewWiring.Component.Spec
import ViewWiring.View.Forest

namespace ViewWiring.View

open Address Binding Component

namespace Forest

def ensureBelow (f : Forest) (parent : Option Nat) (name : String) : Forest × Nat :=
  match f.findBelow parent name with
  | some id => (f, id)
  | none => (f.insert parent (.plain name), f.size)

def ensureFrom (f : Forest) (parent : Option Nat) (name : String) : List String → Forest × Nat
  | [] => f.ensureBelow parent name
  | next :: rest =>
      let (g, id) := f.ensureBelow parent name
      g.ensureFrom (some id) next rest

def ensure (f : Forest) (s : Selector) : Forest × Nat := f.ensureFrom none s.outermost s.inner

def attach (f : Forest) (s : Selector) (d : Directive) : Forest :=
  let (g, id) := f.ensure s
  g.modify id (·.attach d)

end Forest

/-- What an annotation of a member puts on the node at its selector. A toggle
or a removal shows nothing; it reaches its node through a trigger. -/
def directive? (member : String) : Annotation → Option Directive
  | .viewFor _ => some (.eachItem (.key member))
  | .event e _ => some (.on e member)
  | .mutation .bind p _ => some (.bind p)
  | .mutation _ _ _ => none

/-- The directives of a member with their selectors: those of its annotations,
then those of the triggers it implies. -/
def placements (d : Descriptor) : List (Selector × Directive) :=
  d.annotations.filterMap (fun a => (directive? d.name a).map fun v => (a.selector, v)) ++
    (d.triggers.filter Trigger.implied).map fun t => (t.selector, .on t.event d.name)

end ViewWiring.View

namespace ViewWiring.Component.Spec

open View

def shown (s : Spec) : Forest :=
  (s.members.flatMap placements).foldl (fun f p => f.attach p.1 p.2) .empty

def showingLog (s : Spec) : List LogLine :=
  [⟨.debug, "emitted `" ++ s.name ++ "`: " ++ toString s.shown.size ++ " nodes"⟩]

end ViewWiring.Component.Spec
