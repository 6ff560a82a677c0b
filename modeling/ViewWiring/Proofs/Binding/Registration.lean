import Mathlib.Data.List.Dedup
import Mathlib.Data.List.Induction
import ViewWiring.Proofs.Binding.Ordering

namespace ViewWiring.Binding

open Address

inductive Registration
  | connection (s : Selector) (e : EventKind) (p : Pipeline)
  | repetition (s : Selector) (p : Repetition)

namespace Registration

def attempt (w : Wiring) : Registration → Except Conflict Wiring
  | connection s e p => w.connect s e p
  | repetition s p => w.repeatScope s p

/-- The wiring that is there after an attempt, also after one that failed. -/
def leave (w : Wiring) (r : Registration) : Wiring :=
  match r.attempt w with
  | .ok w' => w'
  | .error _ => w

def after (rs : List Registration) : Wiring := rs.foldl leave .empty

def site? : Registration → Option Site
  | connection s e _ => some (s, e)
  | repetition _ _ => none

def pipelineFor? (x : Site) : Registration → Option Pipeline
  | connection s e p => if (s, e) = x then some p else none
  | repetition _ _ => none

def repetitionFor? (s : Selector) : Registration → Option Repetition
  | connection _ _ _ => none
  | repetition t p => if t = s then some p else none

/-- The member that was first to take what a registration asks for. -/
def rival? (rs : List Registration) : Registration → Option String
  | connection s e _ => (rs.findSome? (pipelineFor? (s, e))).map Pipeline.member
  | repetition s _ => (rs.findSome? (repetitionFor? s)).map Repetition.member

def conflict (existing : String) : Registration → Conflict
  | connection s e p => ⟨s, some e, existing, p.member⟩
  | repetition s p => ⟨s, none, existing, p.member⟩

theorem after_snoc (rs : List Registration) (r : Registration) :
    after (rs ++ [r]) = leave (after rs) r := by
  rw [after, List.foldl_append]
  rfl

theorem ordered_after (rs : List Registration) : (after rs).Ordered := by
  induction rs using List.reverseRecOn with
  | nil => exact Wiring.ordered_empty
  | append_singleton rs r ih =>
      rw [after_snoc, leave]
      split
      · rename_i w hw
        cases r with
        | connection s e p => exact ih.connect hw
        | repetition s p => exact ih.repeatScope hw
      · exact ih

variable {w : Wiring}

theorem leave_connection (w : Wiring) (s : Selector) (e : EventKind) (p : Pipeline) :
    leave w (connection s e p) = { w with
      pipelines := if (w.pipelineAt s e).isSome then w.pipelines
        else w.pipelines.insertBy Site.cmp (s, e) p } := by
  rw [leave, attempt, Wiring.connect]
  cases w.pipelineAt s e <;> rfl

theorem leave_repetition (w : Wiring) (s : Selector) (p : Repetition) :
    leave w (repetition s p) = { w with
      repeats := if (w.repeatAt s).isSome then w.repeats
        else w.repeats.insertBy Selector.cmp s p } := by
  rw [leave, attempt, Wiring.repeatScope]
  cases w.repeatAt s <;> rfl

theorem pipelineAt_leave (hw : w.Ordered) (r : Registration) (s : Selector) (e : EventKind) :
    (leave w r).pipelineAt s e = (w.pipelineAt s e).or (pipelineFor? (s, e) r) := by
  cases r with
  | connection t f p =>
      rw [leave_connection]
      exact Entries.get?_enter Site.cmp hw.pipelines.nodup (s, e)
  | repetition t p => rw [leave_repetition, pipelineFor?, Option.or_none, Wiring.pipelineAt, Wiring.pipelineAt]

theorem repeatAt_leave (hw : w.Ordered) (r : Registration) (s : Selector) :
    (leave w r).repeatAt s = (w.repeatAt s).or (repetitionFor? s r) := by
  cases r with
  | connection t f p => rw [leave_connection, repetitionFor?, Option.or_none, Wiring.repeatAt, Wiring.repeatAt]
  | repetition t p =>
      rw [leave_repetition]
      exact Entries.get?_enter Selector.cmp hw.repeats.nodup s

theorem pipelineAt_after (rs : List Registration) (s : Selector) (e : EventKind) :
    (after rs).pipelineAt s e = rs.findSome? (pipelineFor? (s, e)) := by
  induction rs using List.reverseRecOn with
  | nil => rfl
  | append_singleton rs r ih =>
      rw [after_snoc, pipelineAt_leave (ordered_after rs), ih, List.findSome?_append,
        List.findSome?_singleton]

theorem repeatAt_after (rs : List Registration) (s : Selector) :
    (after rs).repeatAt s = rs.findSome? (repetitionFor? s) := by
  induction rs using List.reverseRecOn with
  | nil => rfl
  | append_singleton rs r ih =>
      rw [after_snoc, repeatAt_leave (ordered_after rs), ih, List.findSome?_append,
        List.findSome?_singleton]

theorem attempt_after (rs : List Registration) (r : Registration) :
    r.attempt (after rs) = match r.rival? rs with
      | some member => .error (r.conflict member)
      | none => .ok (after (rs ++ [r])) := by
  rw [after_snoc]
  cases r with
  | connection s e p =>
      rw [rival?, ← pipelineAt_after, leave_connection, attempt, Wiring.connect]
      cases (after rs).pipelineAt s e <;> rfl
  | repetition s p =>
      rw [rival?, ← repeatAt_after, leave_repetition, attempt, Wiring.repeatScope]
      cases (after rs).repeatAt s <;> rfl

theorem mem_sites {rs : List Registration} {s : Selector} {e : EventKind} :
    (s, e) ∈ rs.filterMap site? ↔ (rs.findSome? (pipelineFor? (s, e))).isSome := by
  rw [List.findSome?_isSome_iff, List.mem_filterMap]
  apply exists_congr
  intro r
  cases r <;> simp [site?, pipelineFor?]

theorem keys_after (rs : List Registration) :
    (after rs).pipelines.keys.Perm (rs.filterMap site?).dedup := by
  apply (List.perm_ext_iff_of_nodup (ordered_after rs).pipelines.nodup (List.nodup_dedup _)).mpr
  rintro ⟨s, e⟩
  have hnone := Entries.get?_eq_none_iff (after rs).pipelines (s, e)
  rw [List.mem_dedup, mem_sites, ← pipelineAt_after, Wiring.pipelineAt, Option.isSome_iff_ne_none, ne_eq,
    hnone, not_not]

end Registration

open Registration

/-- What a wiring is to the registrations that were tried on it, all of them in
turn, from the empty one on. -/
structure Wiring.Records (w : Wiring) (rs : List Registration) : Prop where
  pipelines : ∀ s e, w.pipelineAt s e = rs.findSome? (pipelineFor? (s, e))
  repeats : ∀ s, w.repeatAt s = rs.findSome? (repetitionFor? s)
  attempts : ∀ r : Registration, match r.rival? rs with
    | some member => r.attempt w = .error (r.conflict member) ∧ after (rs ++ [r]) = w
    | none => r.attempt w = .ok (after (rs ++ [r]))
  listed : ∀ s e p, ((s, e), p) ∈ w.pipelines ↔ w.pipelineAt s e = some p
  once : w.pipelines.keys.Nodup
  ascending : w.pipelines.keys.Pairwise fun a b =>
    a.1.bytes < b.1.bytes ∨ a.1 = b.1 ∧ a.2.rank < b.2.rank
  canonical : ∀ rs', (∀ s e, (after rs').pipelineAt s e = w.pipelineAt s e) →
    (after rs').pipelines = w.pipelines
  size : w.size = w.pipelines.length ∧ w.size = (rs.filterMap site?).dedup.length

theorem first_registration_wins (rs : List Registration) : (after rs).Records rs := by
  have hordered := ordered_after rs
  constructor
  case pipelines => exact pipelineAt_after rs
  case repeats => exact repeatAt_after rs
  case attempts =>
    intro r
    have hattempt := attempt_after rs r
    cases hr : r.rival? rs with
    | some member =>
        rw [hr] at hattempt
        refine ⟨hattempt, ?_⟩
        rw [after_snoc, leave, hattempt]
    | none => rwa [hr] at hattempt
  case listed => exact fun s e p => (Entries.get?_eq_some_iff hordered.pipelines.nodup).symm
  case once => exact hordered.pipelines.nodup
  case ascending => exact hordered.pipelines.imp Site.before_of_cmp
  case canonical =>
    intro rs' h
    exact (ordered_after rs').pipelines.eq_of_get? hordered.pipelines fun x => h x.1 x.2
  case size =>
    refine ⟨rfl, ?_⟩
    rw [← (keys_after rs).length_eq, Entries.keys, List.length_map, Wiring.size]

/-- A scope is listed before those inside it, whichever was connected first. -/
example :
    (after [.connection ⟨"list", ["add"]⟩ .buttonTap ⟨"add", some "add", []⟩,
      .connection ⟨"list", []⟩ .inputChange ⟨"find", some "find", []⟩,
      .connection ⟨"list", ["add"]⟩ .buttonTap ⟨"late", some "late", []⟩]).pipelines =
    [((⟨"list", []⟩, .inputChange), ⟨"find", some "find", []⟩),
      ((⟨"list", ["add"]⟩, .buttonTap), ⟨"add", some "add", []⟩)] := by
  decide

end ViewWiring.Binding
