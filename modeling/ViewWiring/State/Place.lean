import ViewWiring.State.Iteration

namespace ViewWiring.State

open Address

/-- A place inside one container. A field of a map may be absent; an index of a
sequence is in range wherever `Value.slot` made the slot. -/
inductive Slot
  | entry (entries : Entries String Value) (name : String)
  | element (items : List Value) (index : Nat)

namespace Slot

def current? : Slot → Option Value
  | entry es name => es.get? name
  | element xs i => xs[i]?

def isElement : Slot → Bool
  | entry .. => false
  | element .. => true

def container : Slot → Value
  | entry es _ => .map es
  | element xs _ => .sequence xs

def absence : Slot → Fault
  | entry _ name => .missingField name
  | element xs i => .indexOutOfRange i xs.length

def value (s : Slot) : Except Fault Value :=
  match s.current? with
  | some v => .ok v
  | none => .error s.absence

def put : Slot → Value → Value
  | entry es name, v => .map (es.put name v)
  | element xs i, v => .sequence (xs.set i v)

def without : Slot → Value
  | entry es name => .map (es.erase name)
  | element xs i => .sequence (xs.eraseIdx i)

end Slot

def Value.slot : Value → Key → Except Fault Slot
  | .map es, .field name => .ok (.entry es name)
  | .sequence xs, .index i =>
      if i < xs.length then .ok (.element xs i) else .error (.indexOutOfRange i xs.length)
  | v, .field _ => .error (.typeMismatch .map v.kind)
  | v, .index _ => .error (.typeMismatch .sequence v.kind)

theorem Value.container_of_slot {v : Value} {k : Key} {s : Slot} (h : v.slot k = .ok s) :
    s.container = v := by
  cases v <;> cases k <;> simp only [Value.slot, reduceCtorEq, Except.ok.injEq] at h
  case sequence.index =>
    split at h
    · exact Except.ok.inj h ▸ rfl
    · cases h
  case map.field => exact h ▸ rfl

def Value.child (v : Value) (k : Key) : Except Fault Value := do
  let s ← v.slot k
  s.value

def Value.follow (v : Value) : List Key → Except Fault Value
  | [] => .ok v
  | k :: ks => do
      let w ← v.child k
      w.follow ks

structure Place where
  outer : List Slot
  slot : Slot

namespace Place

def rebuild (p : Place) (v : Value) : Value := p.outer.foldr Slot.put v

def current? (p : Place) : Option Value := p.slot.current?

def set (p : Place) (v : Value) : Value := p.rebuild (p.slot.put v)

def toggle (p : Place) : Except Fault (Bool × Value) := do
  match ← p.slot.value with
  | .boolean b => return (!b, p.set (.boolean !b))
  | v => .error (.typeMismatch .boolean v.kind)

def remove (p : Place) : Except Fault (Value × Value) := do
  let v ← p.slot.value
  return (v, p.rebuild p.slot.without)

end Place

/-- Walks all keys but the last, and stops at the container that the last one
names a slot of. -/
def Value.locate (v : Value) (k : Key) : List Key → Except Fault Place
  | [] => do
      let s ← v.slot k
      return ⟨[], s⟩
  | k' :: ks => do
      let s ← v.slot k
      let w ← s.value
      let p ← w.locate k' ks
      return ⟨s :: p.outer, p.slot⟩

/-- Faults of one access carry the path as it was written. -/
def along {α : Type} (p : Path) (r : Except Fault α) : Except PathError α :=
  r.mapError (⟨p, ·⟩)

def innerKeys (p : Path) (it : Option Iteration) : Except PathError (List Key) :=
  along p (keysOf p.steps (suppliedIndices it))

namespace Value

def resolve (root : Value) (p : Path) (it : Option Iteration) : Except PathError Place := do
  let ks ← innerKeys p it
  along p (root.locate (.field p.field) ks)

def lookup (root : Value) (p : Path) (it : Option Iteration) : Except PathError Value := do
  let ks ← innerKeys p it
  along p (root.follow (.field p.field :: ks))

def set (root : Value) (p : Path) (it : Option Iteration) (v : Value) :
    Except PathError (Option Value × Value) := do
  let place ← root.resolve p it
  return (place.current?, place.set v)

def toggle (root : Value) (p : Path) (it : Option Iteration) : Except PathError (Bool × Value) := do
  let place ← root.resolve p it
  along p place.toggle

def remove (root : Value) (p : Path) (it : Option Iteration) : Except PathError (Value × Value) := do
  let place ← root.resolve p it
  along p place.remove

end Value

end ViewWiring.State
