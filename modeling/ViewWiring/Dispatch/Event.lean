import ViewWiring.Address.Selector
import ViewWiring.Binding.Kind
import ViewWiring.State.Iteration

namespace ViewWiring.Dispatch

open Address Binding State

structure Event where
  kind : EventKind
  selector : Selector
  iteration : Option Iteration
  payload : Value

namespace Event

def tap (s : Selector) : Event := ⟨.buttonTap, s, none, .null⟩

def tapAt (s : Selector) (i : Nat) : Event := ⟨.buttonTap, s, some ⟨[i]⟩, .null⟩

def input (s : Selector) (v : Value) : Event := ⟨.inputChange, s, none, v⟩

def check (s : Selector) (checked : Bool) : Event := ⟨.checkboxChange, s, none, .boolean checked⟩

def checkAt (s : Selector) (i : Nat) (checked : Bool) : Event :=
  ⟨.checkboxChange, s, some ⟨[i]⟩, .boolean checked⟩

def label (e : Event) : String := e.kind.name ++ " on `" ++ e.selector.text ++ "`"

end Event

end ViewWiring.Dispatch
