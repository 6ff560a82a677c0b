import ViewWiring.Proofs.Dispatch.Reaction
import ViewWiring.Proofs.Dispatch.Turns

namespace ViewWiring.Dispatch

open Address Binding State

variable {ν : Type}

namespace Turn

/-- Nothing outlasts the turn but the notes that handlers keep for themselves:
no event joins those that waited behind this one, and no observer is told. -/
structure Traceless (u : Turn ν) : Prop where
  state : u.after.found.state = u.before.found.state
  generation : u.after.found.generation = u.before.found.generation
  signals : u.record.signals = []
  queue : u.after.queue <:+ u.before.queue.tail

/-- What the steps of the turn's event make of a tree. Handlers remember what
they remember at the time of the turn. -/
def effect (c : Setting ν) (u : Turn ν) (root : Value) : Value :=
  (c.progress u.event u.before.found.notes root).1.desk.state

end Turn

theorem turn_traceless {c : Setting ν} (hc : c.config.rollback = true) {p : Pause ν} {u : Turn ν}
    (h : p.turn? c = some u) (hu : u.isApplied = false) : u.Traceless := by
  rcases turn_cases h with ⟨left, e, rest, s, rfl⟩ | ⟨e, rest, s, rfl⟩
  · obtain ⟨hs, hg, ho, hq⟩ := react_rolled_back hc s e hu
    exact ⟨hs, hg, ho, by simp [Turn.processing, hq]⟩
  · exact ⟨rfl, rfl, rfl, List.nil_suffix⟩

theorem turn_effect {c : Setting ν} {p : Pause ν} {u : Turn ν} (h : p.turn? c = some u)
    (hu : u.isApplied = true) :
    (c.progress u.event u.before.found.notes u.before.found.state).2 = none ∧
      u.after.found.state = u.effect c u.before.found.state := by
  rcases turn_cases h with ⟨left, e, rest, s, rfl⟩ | ⟨e, rest, s, rfl⟩
  · obtain ⟨hn, hs, _⟩ := react_applied hu
    have he : (Turn.processing c left e rest s).event = e := react_event c s e
    rw [Turn.effect, he]
    exact ⟨hn, hs⟩
  · cases hu

/-- The tree at the end of linked turns is made by those that were applied. -/
theorem Linked.state_eq {c : Setting ν} (hc : c.config.rollback = true) {p q : Pause ν}
    {us : List (Turn ν)} (h : Linked c p us q) :
    q.found.state =
      (us.filter Turn.isApplied).foldl (fun v u => u.effect c v) p.found.state := by
  induction us generalizing p with
  | nil => exact h ▸ rfl
  | cons u us ih =>
      obtain ⟨hu, hs⟩ := h
      have hb := turn_before hu
      rw [ih hs]
      by_cases ha : u.isApplied
      · rw [List.filter_cons_of_pos ha, List.foldl_cons, (turn_effect hu ha).2, hb]
      · rw [List.filter_cons_of_neg ha, (turn_traceless hc hu (by simpa using ha)).state, hb]

/-- With rollback on, a run does to the tree what its applied events do, one
after the other; the other events leave no trace. -/
theorem rejected_events_leave_no_trace (d : Dispatcher) (w : Wiring) (t : HandlerTable ν) (root : Value)
    (h : d.config.rollback = true) :
    (d.process w t root).1 = (d.turns w t root).map Turn.record ∧
    (∃ left, Linked (d.setting w t) (d.start t root) (d.turns w t root)
      ⟨left, (d.process w t root).2.1.queue,
        (d.process w t root).2.1.situation (d.process w t root).2.2.1 (d.process w t root).2.2.2⟩) ∧
    (∀ u ∈ d.turns w t root, u.isApplied = false → u.Traceless) ∧
    (∀ u ∈ d.turns w t root, u.isApplied = true →
      ((d.setting w t).progress u.event u.before.found.notes u.before.found.state).2 = none) ∧
    (d.process w t root).2.2.2 =
      ((d.turns w t root).filter Turn.isApplied).foldl (fun v u => u.effect (d.setting w t) v) root := by
  obtain ⟨left, hl⟩ := d.process_linked w t root
  refine ⟨d.process_reports w t root, ⟨left, hl⟩, ?_, ?_, hl.state_eq h⟩
  · exact hl.forall_mem fun p u hu hv => turn_traceless h hu hv
  · exact hl.forall_mem fun p u hu hv => (turn_effect hu hv).1

def boxWiring : Wiring :=
  ⟨[((⟨"box", []⟩, .inputChange), ⟨"title", none, [⟨.bind, .key "title"⟩]⟩),
    ((⟨"box", []⟩, .buttonTap), ⟨"lift", some "lift", [⟨.toggle, .key "open"⟩]⟩)], []⟩

def stuckLid : HandlerTable Unit :=
  ⟨[("lift", fun _ => do
    let _ ← Program.set (.key "title") .null
    Program.queue (.tap ⟨"box", []⟩)
    Program.fail (.message "stuck"))], []⟩

def boxTree (title : String) : Value := .map [("title", .string title), ("open", .boolean false)]

def boxDispatcher : Dispatcher :=
  ⟨[.tap ⟨"box", []⟩, .input ⟨"box", []⟩ (.string "tools"), .tap ⟨"lid", []⟩], .default, .none, 4⟩

theorem stuck_lid_leaves_no_trace :
    boxDispatcher.config.rollback = true ∧
    (boxDispatcher.turns boxWiring stuckLid (boxTree "")).map Turn.isApplied = [false, true, false] ∧
    (∀ u ∈ boxDispatcher.turns boxWiring stuckLid (boxTree ""), u.isApplied = false → u.Traceless) ∧
    (boxDispatcher.process boxWiring stuckLid (boxTree "")).2.2.2 = boxTree "tools" := by
  obtain ⟨_, _, htrace, _, hstate⟩ :=
    rejected_events_leave_no_trace boxDispatcher boxWiring stuckLid (boxTree "") rfl
  exact ⟨rfl, rfl, htrace, hstate.trans rfl⟩

end ViewWiring.Dispatch
