import ViewWiring.Binding.Wiring
import ViewWiring.Dispatch.Handler

namespace ViewWiring.Dispatch

open Binding State

inductive Order
  | mutationsFirst | handlerFirst
  deriving DecidableEq, Repr

def Order.name : Order → String
  | mutationsFirst => "MutationsFirst"
  | handlerFirst => "HandlerFirst"

inductive DispatchError
  | path (e : PathError)
  | handler (member : String) (cause : HandlerError)
  | missingHandler (member : String)
  | queueOverflow (limit : Nat)
  deriving DecidableEq, Repr

def DispatchError.message : DispatchError → String
  | path e => e.message
  | handler member cause => "handler `" ++ member ++ "` failed: " ++ cause.text
  | missingHandler member => "no handler registered for `" ++ member ++ "`"
  | queueOverflow limit => "more than " ++ toString limit ++ " events in one run; queue cleared"

inductive Step
  | mutate (m : Mutation)
  | call (handler : String)
  deriving DecidableEq, Repr

end ViewWiring.Dispatch

namespace ViewWiring.Binding

open Dispatch

def Pipeline.steps (p : Pipeline) : Order → List Step
  | .mutationsFirst => p.mutations.map Step.mutate ++ p.handler.toList.map Step.call
  | .handlerFirst => p.handler.toList.map Step.call ++ p.mutations.map Step.mutate

def Mutation.apply (m : Mutation) (e : Event) (root : State.Value) : Except State.PathError State.Value :=
  match m.op with
  | .bind => (root.set m.path e.iteration e.payload).map Prod.snd
  | .toggle => (root.toggle m.path e.iteration).map Prod.snd
  | .remove => (root.remove m.path e.iteration).map Prod.snd

end ViewWiring.Binding

namespace ViewWiring.Dispatch

open Binding State

variable {ν : Type}

structure Progress (ν : Type) where
  desk : Desk ν
  called : List String

def Step.run (handlers : Entries String (Handler ν)) (e : Event) (w : Progress ν) :
    Step → Progress ν × Option DispatchError
  | mutate m =>
      match m.apply e w.desk.state with
      | .ok v => ({ w with desk := { w.desk with state := v } }, none)
      | .error err => (w, some (.path err))
  | call name =>
      match handlers.get? name with
      | none => (w, some (.missingHandler name))
      | some h =>
          let (desk, result) := (h (.ofEvent e)).run e.iteration w.desk
          (⟨desk, w.called ++ [name]⟩, match result with
            | .ok () => none
            | .error err => some (.handler name err))

def runSteps (handlers : Entries String (Handler ν)) (e : Event) : List Step → Progress ν →
    Progress ν × Option DispatchError
  | [], w => (w, none)
  | s :: ss, w =>
      match s.run handlers e w with
      | (w, none) => runSteps handlers e ss w
      | (w, some err) => (w, some err)

end ViewWiring.Dispatch
