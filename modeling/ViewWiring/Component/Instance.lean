import ViewWiring.Dispatch.Dispatcher
import ViewWiring.View.OfSpec
import ViewWiring.View.Tree

namespace ViewWiring.Component

open Address Dispatch State View

structure Instance (ν : Type) where
  spec : Spec
  shown : Forest
  handlers : HandlerTable ν
  state : Value
  dispatcher : Dispatcher

variable {ν : Type}

/-- A handler without a method comes before a method without a handler. -/
def handlerFault? (s : Spec) (t : HandlerTable ν) : Option ConfigError :=
  let stranger := t.names.find? fun name => !(s.member? name).any Descriptor.isMethod
  let unserved := s.members.find? fun d => d.isMethod && !d.triggers.isEmpty && !t.contains d.name
  (stranger.map .unknownHandler).or (unserved.map fun d => .missingHandler d.name)

namespace Instance

def build (d : Definition) (t : HandlerTable ν) (c : Config) : Except ConfigError (Instance ν) := do
  let s ← d.validate
  match handlerFault? s t with
  | some e => .error e
  | none => return ⟨s, s.shown, t, s.initialState, .ofConfig c⟩

/-- Entries of a map replace fields of the state one by one; any other value,
or any value where the state is no map, replaces the state. -/
def overlay (i : Instance ν) (v : Value) : Instance ν :=
  match i.state, v with
  | .map root, .map new => { i with state := .map (Entries.putAll root new) }
  | _, v => { i with state := v }

def dispatch (i : Instance ν) (e : Event) : List (Record ν) × Instance ν :=
  let (records, d, t, v) := i.dispatcher.dispatch i.spec.wiring i.handlers i.state e
  (records, { i with dispatcher := d, handlers := t, state := v })

def get (i : Instance ν) (p : Path) : Except PathError Value := i.state.lookup p none

def subscribe (i : Instance ν) : Nat × Instance ν :=
  let (id, d) := i.dispatcher.subscribe
  (id, { i with dispatcher := d })

def unsubscribe (i : Instance ν) (id : Nat) : Bool × Instance ν :=
  let (found, d) := i.dispatcher.unsubscribe id
  (found, { i with dispatcher := d })

def buildLog (d : Definition) (t : HandlerTable ν) (c : Config) : List LogLine :=
  d.validationLog ++
    match build d t c with
    | .error _ => []
    | .ok i => i.spec.showingLog ++
        [⟨.debug, "component `" ++ i.spec.name ++ "` ready: " ++ toString i.handlers.size ++ " handlers, " ++
          toString i.shown.size ++ " markup nodes"⟩]

end Instance

end ViewWiring.Component
