import ViewWiring.Dispatch.Dispatcher

namespace ViewWiring.Dispatch

open Binding State

variable {ν : Type}

structure Pause (ν : Type) where
  left : Nat
  queue : List Event
  found : Situation ν

structure Turn (ν : Type) where
  before : Pause ν
  record : Record ν
  after : Pause ν

namespace Turn

def event (u : Turn ν) : Event := u.record.report.event

def verdict (u : Turn ν) : Verdict := u.record.report.verdict

def isApplied (u : Turn ν) : Bool := u.verdict.isApplied

def processing (c : Setting ν) (left : Nat) (e : Event) (rest : List Event) (s : Situation ν) : Turn ν :=
  let r := react c s e
  ⟨⟨left + 1, e :: rest, s⟩, r.record, ⟨left, rest ++ r.record.queued, r.after⟩⟩

def dropping (c : Setting ν) (e : Event) (rest : List Event) (s : Situation ν) : Turn ν :=
  ⟨⟨0, e :: rest, s⟩, overflow c.config.limit e rest, ⟨0, [], s⟩⟩

end Turn

def Pause.turn? (c : Setting ν) : Pause ν → Option (Turn ν)
  | ⟨_, [], _⟩ => none
  | ⟨0, e :: rest, s⟩ => some (.dropping c e rest s)
  | ⟨left + 1, e :: rest, s⟩ => some (.processing c left e rest s)

def Linked (c : Setting ν) : Pause ν → List (Turn ν) → Pause ν → Prop
  | p, [], q => p = q
  | p, u :: us, q => p.turn? c = some u ∧ Linked c u.after us q

def turns (c : Setting ν) : (left : Nat) → List Event → Situation ν → List (Turn ν)
  | _, [], _ => []
  | 0, e :: rest, s => [.dropping c e rest s]
  | left + 1, e :: rest, s =>
      let r := react c s e
      .processing c left e rest s :: turns c left (rest ++ r.record.queued) r.after

theorem turns_record (c : Setting ν) (left : Nat) (queue : List Event) (s : Situation ν) :
    (turns c left queue s).map Turn.record = (process c left queue s).1 := by
  induction left generalizing queue s with
  | zero => cases queue <;> rfl
  | succ left ih =>
      cases queue with
      | nil => rfl
      | cons e rest => simp only [turns, process, List.map_cons, ih, Turn.processing]

theorem turns_linked (c : Setting ν) (left : Nat) (queue : List Event) (s : Situation ν) :
    ∃ left', Linked c ⟨left, queue, s⟩ (turns c left queue s) ⟨left', [], (process c left queue s).2⟩ := by
  induction left generalizing queue s with
  | zero => cases queue <;> exact ⟨0, by simp [turns, process, Linked, Pause.turn?, Turn.dropping]⟩
  | succ left ih =>
      cases queue with
      | nil => exact ⟨left + 1, rfl⟩
      | cons e rest =>
          obtain ⟨left', h⟩ := ih (rest ++ (react c s e).record.queued) (react c s e).after
          exact ⟨left', rfl, h⟩

theorem Linked.forall_mem {c : Setting ν} {P : Turn ν → Prop} {p q : Pause ν} {us : List (Turn ν)}
    (h : Linked c p us q) (hP : ∀ (p : Pause ν) u, p.turn? c = some u → P u) : ∀ u ∈ us, P u := by
  induction us generalizing p with
  | nil => simp
  | cons u us ih =>
      intro v hv
      rcases List.mem_cons.mp hv with rfl | hv
      · exact hP p v h.1
      · exact ih h.2 v hv

theorem turn_cases {c : Setting ν} {p : Pause ν} {u : Turn ν} (h : p.turn? c = some u) :
    (∃ left e rest s, u = .processing c left e rest s) ∨ (∃ e rest s, u = .dropping c e rest s) := by
  rcases p with ⟨left, queue, s⟩
  cases queue with
  | nil => simp [Pause.turn?] at h
  | cons e rest =>
      cases left with
      | zero => exact .inr ⟨e, rest, s, (Option.some.inj h).symm⟩
      | succ left => exact .inl ⟨left, e, rest, s, (Option.some.inj h).symm⟩

theorem turn_before {c : Setting ν} {p : Pause ν} {u : Turn ν} (h : p.turn? c = some u) : u.before = p := by
  rcases p with ⟨left, queue, s⟩
  cases queue with
  | nil => simp [Pause.turn?] at h
  | cons e rest => cases left <;> exact Option.some.inj h ▸ rfl

namespace Dispatcher

def setting (d : Dispatcher) (w : Wiring) (t : HandlerTable ν) : Setting ν :=
  ⟨w, t.handlers, d.config, d.observers.ids⟩

def situation (d : Dispatcher) (t : HandlerTable ν) (root : Value) : Situation ν :=
  ⟨root, t.notes, d.generation⟩

def start (d : Dispatcher) (t : HandlerTable ν) (root : Value) : Pause ν :=
  ⟨d.config.limit, d.queue, d.situation t root⟩

def turns (d : Dispatcher) (w : Wiring) (t : HandlerTable ν) (root : Value) : List (Turn ν) :=
  Dispatch.turns (d.setting w t) d.config.limit d.queue (d.situation t root)

theorem process_reports (d : Dispatcher) (w : Wiring) (t : HandlerTable ν) (root : Value) :
    (d.process w t root).1 = (d.turns w t root).map Turn.record :=
  (turns_record (d.setting w t) d.config.limit d.queue (d.situation t root)).symm

theorem process_linked (d : Dispatcher) (w : Wiring) (t : HandlerTable ν) (root : Value) :
    ∃ left, Linked (d.setting w t) (d.start t root) (d.turns w t root)
      ⟨left, (d.process w t root).2.1.queue,
        (d.process w t root).2.1.situation (d.process w t root).2.2.1 (d.process w t root).2.2.2⟩ :=
  turns_linked (d.setting w t) d.config.limit d.queue (d.situation t root)

end Dispatcher

end ViewWiring.Dispatch
