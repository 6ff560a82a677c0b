import ViewWiring.Component.Spec
import ViewWiring.View.Arena

namespace ViewWiring.View

open Address Binding Component

namespace Arena

def ensureChild (a : Arena) (parent : Option Nat) (name : String) : Arena × Nat :=
  match a.findChild parent name with
  | some id => (a, id)
  | none => (parent.elim (a.insertRoot (.plain name)) fun p => a.insertChild p (.plain name), a.size)

def ensureFrom (a : Arena) (parent : Option Nat) (name : String) : List String → Arena × Nat
  | [] => a.ensureChild parent name
  | next :: rest =>
      let (b, id) := a.ensureChild parent name
      b.ensureFrom (some id) next rest

def ensure (a : Arena) (s : Selector) : Arena × Nat := a.ensureFrom none s.outermost s.inner

end Arena

structure Emitter where
  arena : Arena
  typed : List Nat

namespace Emitter

def start : Emitter := ⟨.empty, []⟩

/-- The first tag that comes to a node stays; a directive that is there already is
not put in again. -/
def push (e : Emitter) (s : Selector) (tag? : Option Tag) (d : Directive) : Emitter :=
  let (a, id) := e.arena.ensure s
  let first? := if id ∈ e.typed then none else tag?
  { arena := a.modify id fun n =>
      { n with tag := first?.getD n.tag
               directives := if d ∈ n.directives then n.directives else n.directives ++ [d] }
    typed := if tag?.isSome then e.typed.insert id else e.typed }

def on (e : Emitter) (s : Selector) (event : EventKind) (handler : String) : Emitter :=
  e.push s (some (.ofEvent event)) (.on event handler)

def place (member : String) (e : Emitter) : Annotation → Emitter
  | .viewFor s => e.push s none (.eachItem (.key member))
  | .mutation .bind p s => e.push s (some .input) (.bind p)
  | .event k s => e.on s k member
  | .mutation .toggle _ _ | .mutation .remove _ _ => e

def member (e : Emitter) (d : Descriptor) : Emitter :=
  (d.triggers.filter Trigger.implied).foldl (fun e t => e.on t.selector t.event d.name)
    (d.annotations.foldl (place d.name) e)

end Emitter

end ViewWiring.View

namespace ViewWiring.Component.Spec

open View

def emitted (s : Spec) : Arena := (s.members.foldl Emitter.member .start).arena

end ViewWiring.Component.Spec
