import Mathlib.Data.List.Forall2
import ViewWiring.Dispatch.Loop
import ViewWiring.Proofs.Dispatch.Queue

namespace ViewWiring.Dispatch

open Binding State

variable {ν : Type}

inductive Logged (w : Wiring) : Report → LogLine → Prop
  | unbound {e : Event} (h : w.pipelineAt e.selector e.kind = none) :
      Logged w ⟨e, .unbound⟩ ⟨.trace, e.label ++ ": unbound"⟩
  | applied {e : Event} {p : Pipeline} (h : w.pipelineAt e.selector e.kind = some p) (g : Nat) :
      Logged w ⟨e, .applied g⟩
        ⟨.debug, e.label ++ " -> `" ++ p.member ++ "` (generation " ++ toString g ++ ")"⟩
  | rejected {e : Event} {p : Pipeline} {err : DispatchError} (h : w.pipelineAt e.selector e.kind = some p)
      (herr : ∀ limit, err ≠ .queueOverflow limit) :
      Logged w ⟨e, .rejected err⟩ ⟨.warn, e.label ++ " rejected (" ++ p.member ++ "): " ++ err.message⟩
  | overflow (e : Event) (limit dropped : Nat) :
      Logged w ⟨e, .rejected (.queueOverflow limit)⟩ ⟨.warn, overflowText limit dropped⟩

theorem react_logged (c : Setting ν) (s : Situation ν) (e : Event) :
    Logged c.wiring (react c s e).record.report (react c s e).record.line := by
  have hoverflow := react_overflow c s e
  rcases react_cases c s e with ⟨hp, h⟩ | ⟨p, w, hp, _, h⟩ | ⟨p, w, err, hp, _, h⟩ <;> rw [h] at hoverflow ⊢
  · exact .unbound hp
  · exact .applied hp _
  · exact .rejected hp fun limit herr => hoverflow limit (congrArg Verdict.rejected herr)

namespace Run

/-- One turn of the loop is what the reaction to the event says. -/
theorem turn_eq (c : Setting ν) (r : Run ν) (e : Event) (rest : List Event) :
    r.turn c e rest =
      ⟨rest ++ (react c r.situation e).record.queued, r.processed + 1, (react c r.situation e).after,
        r.signals ++ (react c r.situation e).record.signals, r.log ++ [(react c r.situation e).record.line],
        r.reports ++ [(react c r.situation e).record.report]⟩ := by
  simp only [turn, apply, react]
  cases c.wiring.pipelineAt e.selector e.kind with
  | none => simp [ignored, logged, reported]
  | some p =>
      dsimp only
      rcases runSteps c.handlers e (p.steps c.config.order) _ with ⟨w, none | err⟩
      · rfl
      · simp [rejection, logged, reported]

def past (r : Run ν) (us : List (Turn ν)) (final : Situation ν) : Run ν :=
  ⟨[], r.processed + (Dispatch.processed us).length, final, r.signals ++ us.flatMap fun u => u.record.signals,
    r.log ++ us.map fun u => u.record.line, r.reports ++ us.map fun u => u.record.report⟩

theorem past_nil {r : Run ν} (hq : r.queue = []) : r.past [] r.situation = r := by
  obtain ⟨queue, processed, situation, signals, log, reports⟩ := r
  obtain rfl : queue = [] := hq
  simp [past, Dispatch.processed]

theorem past_turn (c : Setting ν) (r : Run ν) (left : Nat) (e : Event) (rest : List Event) (us : List (Turn ν))
    (final : Situation ν) :
    (r.turn c e rest).past us final = r.past (.processing c left e rest r.situation :: us) final := by
  have hrecord : (Turn.processing c left e rest r.situation).record = (react c r.situation e).record := rfl
  rw [turn_eq]
  simp only [past, processed_cons, List.flatMap_cons, List.map_cons, List.length_cons, hrecord, List.append_assoc,
    List.singleton_append, Nat.add_assoc, Nat.add_comm 1]

theorem stop_eq (c : Setting ν) (r : Run ν) (e : Event) (rest : List Event) :
    r.stop c.config.limit e rest = r.past [.dropping c e rest r.situation] r.situation := by
  rw [past, stop, reported, logged, Run.mk.injEq]
  exact ⟨rfl, rfl, rfl, (List.append_nil r.signals).symm, rfl, rfl⟩

/-- What the loop adds are the records of the turns, with their reports in one list and their
lines in another. -/
theorem loop_eq (c : Setting ν) (r : Run ν) :
    r.loop c = r.past (turns c (c.config.limit - r.processed) r.queue r.situation)
      (process c (c.config.limit - r.processed) r.queue r.situation).2 := by
  fun_induction loop c r with
  | case1 r hq =>
      rw [hq, turns, process]
      exact (past_nil hq).symm
  | case2 r e rest hq hlimit =>
      rw [hq, Nat.sub_eq_zero_of_le hlimit]
      exact stop_eq c r e rest
  | case3 r e rest hq hlimit ih =>
      have hleft : c.config.limit - r.processed = (c.config.limit - (r.processed + 1)) + 1 := by omega
      rw [ih, past_turn c r (c.config.limit - (r.processed + 1)), turn_eq, hq, hleft]
      rfl

end Run

section

variable (d : Dispatcher) (w : Wiring) (t : HandlerTable ν) (root : Value)

theorem run_eq_past : d.run w t root =
    Run.past ⟨d.queue, 0, d.situation t root, [], [], []⟩ (d.turns w t root)
      ((d.process w t root).2.1.situation (d.process w t root).2.2.1 (d.process w t root).2.2.2) :=
  Run.loop_eq (d.setting w t) _

theorem run_reports : (d.run w t root).reports = (d.process w t root).1.map Record.report := by
  rw [run_eq_past, d.process_reports, List.map_map]
  rfl

theorem run_log : (d.run w t root).log = (d.process w t root).1.map Record.line := by
  rw [run_eq_past, d.process_reports, List.map_map]
  rfl

theorem run_processed : (d.run w t root).processed = (processed (d.turns w t root)).length := by
  rw [run_eq_past]
  exact Nat.zero_add _

theorem run_logged : List.Forall₂ (Logged w) (d.run w t root).reports (d.run w t root).log := by
  rw [run_reports, run_log, List.forall₂_map_left_iff, List.forall₂_map_right_iff, List.forall₂_same]
  intro r hr
  rcases process_record_cases d w t root hr with ⟨s, e, rfl⟩ | ⟨e, rest, rfl⟩
  · exact react_logged (d.setting w t) s e
  · exact .overflow e d.config.limit (rest.length + 1)

theorem cut_of_overflow {e : Event} {limit : Nat}
    (h : ⟨e, .rejected (.queueOverflow limit)⟩ ∈ (d.run w t root).reports) :
    Cut (d.setting w t) d.config.limit d.queue (d.turns w t root) := by
  rw [run_reports, d.process_reports, List.map_map] at h
  obtain ⟨u, hu, hreport⟩ := List.mem_map.mp h
  have hoverflow : u.isOverflow = true := by
    rw [Turn.isOverflow, Turn.verdict, show u.record.report = _ from hreport]
    rfl
  rcases turns_served_or_cut (d.setting w t) d.config.limit d.queue (d.situation t root) with hserved | hcut
  · have hmem : u ∈ processed (d.turns w t root) := hserved.processed_eq.symm ▸ hu
    rw [processed, List.mem_filter, hoverflow] at hmem
    cases hmem.2
  · exact hcut

/-- A run that is cut short logs last how many events it drops. -/
theorem overflow_line_counts (hcut : Cut (d.setting w t) d.config.limit d.queue (d.turns w t root)) :
    ∃ dropped, (d.run w t root).log.getLast? = some ⟨.warn, overflowText d.config.limit dropped⟩ ∧
      dropped + (d.run w t root).processed =
        (arrivals (d.setting w t) d.queue (d.turns w t root)).length := by
  obtain ⟨u, hus, _, hrecord, _, _⟩ := hcut.last
  have hlast : (d.run w t root).log.getLast? = some u.record.line := by
    rw [run_log, d.process_reports, hus, List.map_append, List.map_append]
    exact List.getLast?_concat
  rw [hrecord] at hlast
  refine ⟨_, hlast, ?_⟩
  have hlength := hcut.lt_length
  rw [run_processed, hcut.length_processed, List.length_drop]
  omega

end

/-- The reports of a run and the lines that it logs tell of the same things in the same order,
and no event is left out of account when the queue is dropped. -/
theorem reports_match_log (d : Dispatcher) (w : Wiring) (t : HandlerTable ν) (root : Value) :
    (d.run w t root).reports = (d.process w t root).1.map Record.report ∧
    List.Forall₂ (Logged w) (d.run w t root).reports (d.run w t root).log ∧
    ∀ e limit, ⟨e, .rejected (.queueOverflow limit)⟩ ∈ (d.run w t root).reports →
      ∃ dropped, (d.run w t root).log.getLast? = some ⟨.warn, overflowText d.config.limit dropped⟩ ∧
        dropped + (d.run w t root).processed = (arrivals (d.setting w t) d.queue (d.turns w t root)).length := by
  refine ⟨run_reports d w t root, run_logged d w t root, ?_⟩
  intro e limit h
  exact overflow_line_counts d w t root (cut_of_overflow d w t root h)

end ViewWiring.Dispatch
