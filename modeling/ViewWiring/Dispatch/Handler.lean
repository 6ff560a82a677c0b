import ViewWiring.Dispatch.Event
import ViewWiring.State.Place

namespace ViewWiring.Dispatch

open Address State

inductive HandlerError
  | path (e : PathError)
  | message (text : String)
  deriving DecidableEq, Repr

def HandlerError.text : HandlerError → String
  | path e => e.message
  | message text => text

structure Occasion where
  selector : Selector
  iteration : Option Iteration
  payload : Value

namespace Occasion

def ofEvent (e : Event) : Occasion := ⟨e.selector, e.iteration, e.payload⟩

def index? (o : Occasion) : Option Nat := o.iteration.bind Iteration.innermost?

end Occasion

/-- All that a handler can do to a component. What it remembers from one call
to the next are the notes that handlers have left. -/
inductive Request (ν : Type)
  | get (p : Path)
  | set (p : Path) (v : Value)
  | toggle (p : Path)
  | remove (p : Path)
  | state
  | queue (e : Event)
  | note (n : ν)
  | notes

abbrev Request.Reply {ν : Type} : Request ν → Type
  | get _ => Except PathError Value
  | set _ _ => Except PathError (Option Value)
  | toggle _ => Except PathError Bool
  | remove _ => Except PathError Value
  | state => Value
  | queue _ => Unit
  | note _ => Unit
  | notes => List ν

inductive Program (ν α : Type)
  | done (a : α)
  | fail (e : HandlerError)
  | ask (r : Request ν) (next : r.Reply → Program ν α)

/-- The state while a handler runs, the events it queued, the notes from
before it and its own, both in the order in which they were left. -/
structure Desk (ν : Type) where
  state : Value
  queued : List Event
  earlier : List ν
  noted : List ν

variable {ν α β : Type}

def Desk.change (d : Desk ν) (r : Except PathError (α × Value)) : Desk ν × Except PathError α :=
  match r with
  | .ok (a, v) => ({ d with state := v }, .ok a)
  | .error e => (d, .error e)

def Request.perform (it : Option Iteration) (d : Desk ν) : (r : Request ν) → Desk ν × r.Reply
  | get p => (d, d.state.lookup p it)
  | set p v => d.change (d.state.set p it v)
  | toggle p => d.change (d.state.toggle p it)
  | remove p => d.change (d.state.remove p it)
  | state => (d, d.state)
  | queue e => ({ d with queued := d.queued ++ [e] }, ())
  | note n => ({ d with noted := d.noted ++ [n] }, ())
  | notes => (d, d.earlier ++ d.noted)

namespace Program

def bind : Program ν α → (α → Program ν β) → Program ν β
  | done a, f => f a
  | fail e, _ => fail e
  | ask r next, f => ask r fun x => (next x).bind f

instance : Monad (Program ν) where
  pure := done
  bind := bind

/-- A failure becomes a value, and what was done before it stays done. -/
def attempt : Program ν α → Program ν (Except HandlerError α)
  | done a => done (.ok a)
  | fail e => done (.error e)
  | ask r next => ask r fun x => (next x).attempt

def run (it : Option Iteration) : Program ν α → Desk ν → Desk ν × Except HandlerError α
  | done a, d => (d, .ok a)
  | fail e, d => (d, .error e)
  | ask r next, d => (next (r.perform it d).2).run it (r.perform it d).1

def ofPath : Except PathError α → Program ν α
  | .ok a => done a
  | .error e => fail (.path e)

def get (p : Path) : Program ν Value := ask (.get p) ofPath

def set (p : Path) (v : Value) : Program ν (Option Value) := ask (.set p v) ofPath

def toggle (p : Path) : Program ν Bool := ask (.toggle p) ofPath

def remove (p : Path) : Program ν Value := ask (.remove p) ofPath

def state : Program ν Value := ask .state done

def queue (e : Event) : Program ν Unit := ask (.queue e) done

def note (n : ν) : Program ν Unit := ask (.note n) done

end Program

abbrev Handler (ν : Type) := Occasion → Program ν Unit

structure HandlerTable (ν : Type) where
  handlers : Entries String (Handler ν)
  notes : List ν

namespace HandlerTable

def empty : HandlerTable ν := ⟨[], []⟩

def insert (t : HandlerTable ν) (name : String) (h : Handler ν) : HandlerTable ν :=
  { t with handlers := t.handlers.put name h }

def get? (t : HandlerTable ν) (name : String) : Option (Handler ν) := t.handlers.get? name

def contains (t : HandlerTable ν) (name : String) : Bool := t.handlers.contains name

def size (t : HandlerTable ν) : Nat := t.handlers.length

def names (t : HandlerTable ν) : List String := t.handlers.keys.mergeSort fun a b => a ≤ b

end HandlerTable

end ViewWiring.Dispatch
