import ViewWiring.Dispatch.Handler

namespace ViewWiring.Dispatch

open Address State

inductive Operand
  | literal (v : Value)
  | payload
  | index
  | selector

/-- An event to queue; with no selector it goes to where the handler's own came
from. Its address is read when the command runs. -/
structure FollowUp where
  kind : Binding.EventKind
  selector : Option (Except Malformed Selector)
  iteration : Option Iteration
  payload : Value

/-- A handler's command. A path that could not be read fails when it is used. -/
inductive Command
  | get (p : Except Malformed Path)
  | set (p : Except Malformed Path) (v : Operand)
  | toggle (p : Except Malformed Path)
  | remove (p : Except Malformed Path)
  | append (p : Except Malformed Path) (v : Operand)
  | add (p : Except Malformed Path) (n : Int)
  | stopIf (p : Except Malformed Path) (v : Value)
  | dispatch (e : FollowUp)
  | fail (message : String)
  | context
  | state

inductive Note
  | got (v : Value)
  | set (previous : Option Value)
  | toggled (b : Bool)
  | removed (v : Value)
  | caught (message : String)
  | context (o : Occasion)
  | state (v : Value)

structure Action where
  command : Command
  mayFail : Bool

abbrev Script := List Action

def Operand.value (o : Occasion) : Operand → Value
  | literal v => v
  | payload => o.payload
  | index => match o.index? with
    | some i => .number (.integer i)
    | none => .null
  | selector => .string o.selector.text

namespace Command

def read {α : Type} : Except Malformed α → Program Note α
  | .ok a => .done a
  | .error e => .fail (.message e.message)

def program (o : Occasion) : Command → Program Note Bool
  | get p => do
      let v ← Program.get (← read p)
      Program.note (.got v)
      return true
  | set p v => do
      let previous ← Program.set (← read p) (v.value o)
      Program.note (.set previous)
      return true
  | toggle p => do
      let b ← Program.toggle (← read p)
      Program.note (.toggled b)
      return true
  | remove p => do
      let v ← Program.remove (← read p)
      Program.note (.removed v)
      return true
  | append p v => do
      let p ← read p
      let old ← Program.get p
      let _ ← Program.set p (old.append (v.value o))
      return true
  | add p n => do
      let p ← read p
      let old ← Program.get p
      let _ ← Program.set p (.number (.integer (old.toInt64?.getD 0 + n)))
      return true
  | stopIf p v => do
      let old ← Program.get (← read p)
      return !old.same v
  | dispatch e => do
      let s ← match e.selector with
        | none => pure o.selector
        | some s => read s
      Program.queue ⟨e.kind, s, e.iteration, e.payload⟩
      return true
  | fail message => .fail (.message message)
  | context => do
      Program.note (.context o)
      return true
  | state => do
      let v ← Program.state
      Program.note (.state v)
      return true

end Command

def Script.handler : Script → Handler Note
  | [], _ => .done ()
  | a :: rest, o =>
      if a.mayFail then do
        match ← (a.command.program o).attempt with
        | .ok true => handler rest o
        | .ok false => return ()
        | .error e => do
            Program.note (.caught e.text)
            handler rest o
      else do
        if ← a.command.program o then handler rest o else return ()

end ViewWiring.Dispatch
