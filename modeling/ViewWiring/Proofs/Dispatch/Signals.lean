import Mathlib.Data.List.Forall2
import Mathlib.Data.List.Nodup
import ViewWiring.Proofs.Dispatch.Queue

namespace ViewWiring.Dispatch

open Binding State

variable {ν : Type}

def Verdict.generation? : Verdict → Option Nat
  | applied g => some g
  | unbound | rejected _ => none

def Record.isApplied (r : Record ν) : Bool := r.report.verdict.isApplied

def generations (rs : List (Record ν)) : List Nat := rs.filterMap fun r => r.report.verdict.generation?

theorem generations_append (rs rs' : List (Record ν)) :
    generations (rs ++ rs') = generations rs ++ generations rs' := List.filterMap_append

theorem length_generations (rs : List (Record ν)) :
    (generations rs).length = rs.countP Record.isApplied := by
  rw [generations, List.length_filterMap_eq_countP]
  apply List.countP_congr
  intro r _
  rw [Record.isApplied]
  cases r.report.verdict <;> simp [Verdict.generation?, Verdict.isApplied]

theorem generations_filter (rs : List (Record ν)) :
    generations (rs.filter Record.isApplied) = generations rs := by
  rw [generations, List.filterMap_filter]
  apply List.filterMap_congr
  intro r _
  rw [Record.isApplied]
  cases r.report.verdict <;> rfl

structure Tells (x : Wiring × Record ν) (change : StateChanged) : Prop where
  generation : x.2.report.verdict = .applied change.generation
  event : change.event = x.2.report.event.kind
  selector : change.selector = x.2.report.event.selector
  member : (x.1.pipelineAt x.2.report.event.selector x.2.report.event.kind).map Pipeline.member =
    some change.member

theorem generations_of_tells {events : List (Wiring × Record ν)} {changes : List StateChanged}
    (h : List.Forall₂ Tells events changes) :
    changes.map StateChanged.generation = generations (events.map Prod.snd) := by
  induction h with
  | nil => rfl
  | cons htells _ ih => simp [generations, htells.generation, Verdict.generation?, ih]

inductive Announced (w : Wiring) (observers : List Nat) (r : Record ν) : Prop
  | applied {change : StateChanged} (h : Tells (w, r) change)
      (hs : r.signals = observers.map fun id => (id, change))
  | silent (h : r.isApplied = false) (hs : r.signals = [])

theorem react_announced (c : Setting ν) (s : Situation ν) (e : Event) :
    Announced c.wiring c.observers (react c s e).record := by
  rcases react_cases c s e with ⟨_, h⟩ | ⟨p, w, hp, _, h⟩ | ⟨p, w, err, _, _, h⟩ <;> rw [h]
  · exact .silent rfl rfl
  · have hmember : (c.wiring.pipelineAt e.selector e.kind).map Pipeline.member = some p.member := by
      rw [hp]; rfl
    have htells : Tells (c.wiring, (application c.observers e p s w).record)
        ⟨s.generation + 1, e.kind, e.selector, p.member⟩ := ⟨rfl, rfl, rfl, hmember⟩
    exact .applied htells rfl
  · exact .silent rfl rfl

theorem process_announced (d : Dispatcher) (w : Wiring) (t : HandlerTable ν) (root : Value)
    {r : Record ν} (hr : r ∈ (d.process w t root).1) : Announced w d.observers.ids r := by
  rcases process_record_cases d w t root hr with ⟨s, e, rfl⟩ | ⟨e, rest, rfl⟩
  · exact react_announced (d.setting w t) s e
  · exact .silent rfl rfl

structure Counts (g : Nat) (rs : List (Record ν)) (g' : Nat) : Prop where
  count : g' = g + (generations rs).length
  consecutive : generations rs = List.range' (g + 1) (generations rs).length

theorem Counts.append {g g' g'' : Nat} {rs rs' : List (Record ν)} (h : Counts g rs g')
    (h' : Counts g' rs' g'') : Counts g (rs ++ rs') g'' := by
  constructor
  · rw [h'.count, h.count, generations_append, List.length_append, Nat.add_assoc]
  · have hshift : g' + 1 = g + 1 + (generations rs).length := by rw [h.count]; omega
    rw [generations_append, List.length_append, ← List.range'_append_1, ← hshift, ← h.consecutive,
      ← h'.consecutive]

theorem react_counts (c : Setting ν) (s : Situation ν) (e : Event) :
    Counts s.generation [(react c s e).record] (react c s e).after.generation := by
  rcases react_cases c s e with ⟨_, h⟩ | ⟨p, w, _, _, h⟩ | ⟨p, w, err, _, _, h⟩ <;> rw [h]
  · exact ⟨rfl, rfl⟩
  · exact ⟨rfl, rfl⟩
  · exact ⟨rfl, rfl⟩

theorem Linked.counts {c : Setting ν} {p q : Pause ν} {us : List (Turn ν)} (h : Linked c p us q) :
    Counts p.found.generation (us.map Turn.record) q.found.generation := by
  induction us generalizing p with
  | nil => exact h ▸ ⟨rfl, rfl⟩
  | cons u us ih =>
      obtain ⟨hu, hrest⟩ := h
      have hturn : Counts p.found.generation [u.record] u.after.found.generation := by
        rw [← turn_before hu]
        rcases turn_cases hu with ⟨left, e, rest, s, rfl⟩ | ⟨e, rest, s, rfl⟩
        · exact react_counts c s e
        · exact ⟨rfl, rfl⟩
      exact hturn.append (ih hrest)

theorem process_counts (d : Dispatcher) (w : Wiring) (t : HandlerTable ν) (root : Value) :
    Counts d.generation (d.process w t root).1 (d.process w t root).2.1.generation := by
  obtain ⟨left, h⟩ := d.process_linked w t root
  rw [d.process_reports]
  exact h.counts

def heard (id : Nat) (r : Record ν) : List StateChanged :=
  (r.signals.filter fun s => s.1 = id).map Prod.snd

section

variable {w : Wiring} {observers : List Nat} {id : Nat}

theorem heard_of_signals {r : Record ν} {change : StateChanged}
    (hs : r.signals = observers.map fun id => (id, change)) :
    heard id r = List.replicate (observers.count id) change := by
  have hfilter : (observers.map fun id => (id, change)).filter (fun s => s.1 = id) =
      (observers.filter (· = id)).map fun id => (id, change) := List.filter_map
  rw [heard, hs, hfilter, List.filter_eq, List.map_replicate, List.map_replicate]

theorem Announced.heard_of_not_mem {r : Record ν} (h : Announced w observers r) (hid : id ∉ observers) :
    heard id r = [] := by
  cases h with
  | silent _ hs => rw [heard, hs]; rfl
  | applied _ hs => rw [heard_of_signals hs, List.count_eq_zero.mpr hid]; rfl

theorem Announced.heard_of_mem {r : Record ν} (h : Announced w observers r) (hid : id ∈ observers)
    (hnodup : observers.Nodup) :
    List.Forall₂ (fun r => Tells (w, r)) ([r].filter Record.isApplied) (heard id r) := by
  cases h with
  | silent h hs =>
      rw [heard, hs, List.filter_cons_of_neg (by simp [h])]
      exact .nil
  | applied h hs =>
      have happlied : r.isApplied = true := by rw [Record.isApplied, h.generation]; rfl
      rw [List.filter_cons_of_pos happlied, heard_of_signals hs, List.count_eq_one_of_mem hnodup hid]
      exact .cons h .nil

/-- Over the records of a run, one who observes it hears of each applied event
once, in their order. -/
theorem forall₂_heard {rs : List (Record ν)} (h : ∀ r ∈ rs, Announced w observers r) (hid : id ∈ observers)
    (hnodup : observers.Nodup) :
    List.Forall₂ (fun r => Tells (w, r)) (rs.filter Record.isApplied) (rs.flatMap (heard id)) := by
  induction rs with
  | nil => exact .nil
  | cons r rs ih =>
      rw [List.flatMap_cons, ← List.singleton_append, List.filter_append]
      apply List.rel_append
      · exact (h r List.mem_cons_self).heard_of_mem hid hnodup
      · exact ih fun r' hr' => h r' (List.mem_cons_of_mem _ hr')

end

end ViewWiring.Dispatch
