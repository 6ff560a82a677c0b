import ViewWiring.Component.ConfigError
import ViewWiring.Component.Trigger
import ViewWiring.Log

namespace ViewWiring.Component

open Address Binding State

structure Descriptor where
  kind : MemberKind
  name : String
  type : Option FieldType
  annotations : List Annotation
  triggers : List Trigger
  deriving DecidableEq, Repr

namespace Descriptor

def isMethod (d : Descriptor) : Bool := d.kind = .method

def repeated? (d : Descriptor) : Option Selector := d.annotations.findSome? Annotation.repeated?

def pipeline (d : Descriptor) (t : Trigger) : Pipeline :=
  ⟨d.name, if d.isMethod then some d.name else none, t.mutations⟩

def repetition (d : Descriptor) : Repetition := ⟨d.name, .key d.name⟩

end Descriptor

structure Spec where
  name : String
  members : List Descriptor
  wiring : Wiring
  deriving DecidableEq, Repr

namespace Member

/-- The selector text of the first event annotation, wherever it stands. -/
def inherited? (m : Member) : Option String :=
  (m.annotations.find? fun a => a.kind.event?.isSome).bind AnnotationText.selector

/-- The path is looked at before the selector. -/
def readAnnotation (m : Member) (a : AnnotationText) : Except ConfigError Annotation := do
  let readSelector (text : Option String) : Except ConfigError Selector :=
    match text with
    | none => .error (.missingSelector m.name a.kind)
    | some t => (Selector.parse t).mapError (.invalidSelector m.name t)
  match a.kind with
  | .viewFor => return .viewFor (← readSelector a.selector)
  | .event e => return .event e (← readSelector a.selector)
  | .mutation op =>
      let path ← match a.path with
        | none => .error (.missingPath m.name a.kind)
        | some t => (Path.parse t).mapError (.invalidPath m.name t)
      return .mutation op path (← readSelector (a.selector.or m.inherited?))

def shownType (m : Member) (as : List Annotation) : Except ConfigError (Option FieldType) :=
  if as.any fun a => a.kind = .viewFor then
    match m.kind, m.type with
    | .method, _ => .error (.repeatOnMethod m.name)
    | .field, none | .field, some .collection => .ok (some .collection)
    | .field, some found => .error (.repeatOnNonCollection m.name found)
  else .ok m.type

def read (m : Member) : Except ConfigError Descriptor := do
  let as ← m.annotations.mapM m.readAnnotation
  let type ← m.shownType as
  return ⟨m.kind, m.name, type, as, Trigger.ofAnnotations as⟩

end Member

def Descriptor.enter (d : Descriptor) (w : Wiring) : Except Conflict Wiring := do
  let w ← d.triggers.foldlM (fun w t => w.connect t.selector t.event (d.pipeline t)) w
  match d.repeated? with
  | none => return w
  | some s => w.repeatScope s d.repetition

namespace Spec

def add (s : Spec) (m : Member) : Except ConfigError Spec :=
  if s.members.any fun d => d.name = m.name then .error (.duplicateMember m.name)
  else do
    let d ← m.read
    let w ← (d.enter s.wiring).mapError .conflict
    return { s with members := s.members ++ [d], wiring := w }

/-- The first mutation with more placeholders than there are repeated scopes
around its selector. -/
def unsupplied? (s : Spec) : Option ConfigError :=
  s.members.findSome? fun d => d.triggers.findSome? fun t =>
    (t.mutations.find? fun m => m.path.placeholders > s.wiring.repeatsAround t.selector).map fun m =>
      .placeholderOutsideRepeat d.name m.path t.selector

def member? (s : Spec) (name : String) : Option Descriptor := s.members.find? fun d => d.name = name

def initialState (s : Spec) : Value :=
  .map ((s.members.filter fun d => d.kind = .field).map fun d =>
    (d.name, (d.type.map FieldType.initial).getD .null))

end Spec

/-- Placeholders are counted last: a repeated scope may be declared by a later
member than the one that counts on it. -/
def Definition.validate (d : Definition) : Except ConfigError Spec := do
  let s ← d.members.foldlM Spec.add ⟨d.name, [], .empty⟩
  match s.unsupplied? with
  | some e => .error e
  | none => return s

def Definition.validationLog (d : Definition) : List LogLine :=
  match d.validate with
  | .error _ => []
  | .ok s => [⟨.debug, "extracted `" ++ s.name ++ "`: " ++ toString s.members.length ++ " members, " ++
      toString s.wiring.size ++ " bindings"⟩]

end ViewWiring.Component
