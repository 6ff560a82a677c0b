import ViewWiring.Proofs.Dispatch.Rollback

namespace ViewWiring.Dispatch

open Address Binding State

variable {ν : Type}

def reactAll (c : Setting ν) : List Event → Situation ν → List (Record ν) × Situation ν
  | [], s => ([], s)
  | e :: es, s =>
      let r := react c s e
      let (records, final) := reactAll c es r.after
      (r.record :: records, final)

/-- As long as no event joins the queue, it is served by reacting to those that wait
in it. -/
theorem process_eq_reactAll {c : Setting ν} {left : Nat} {es : List Event} {s : Situation ν}
    (hl : es.length ≤ left) (hquiet : ∀ r ∈ (process c left es s).1, r.queued = []) :
    process c left es s = reactAll c es s := by
  induction es generalizing left s with
  | nil => cases left <;> rfl
  | cons e es ih =>
      cases left with
      | zero => exact absurd hl (Nat.not_succ_le_zero _)
      | succ left =>
          rw [process, List.forall_mem_cons] at hquiet
          obtain ⟨hfirst, hrest⟩ := hquiet
          rw [hfirst, List.append_nil] at hrest
          rw [process, reactAll, hfirst, List.append_nil, ih (Nat.le_of_succ_le_succ hl) hrest]

namespace Dispatcher

def pushAll (d : Dispatcher) (es : List Event) : Dispatcher := es.foldl push d

/-- Each event is given to the dispatcher when the run of the one before it is over. -/
def dispatchEach (d : Dispatcher) (w : Wiring) (t : HandlerTable ν) (root : Value) :
    List Event → List (Record ν) × Dispatcher × HandlerTable ν × Value
  | [] => ([], d, t, root)
  | e :: es =>
      let (records, d, t, root) := d.dispatch w t root e
      let (others, final) := d.dispatchEach w t root es
      (records ++ others, final)

def settled (d : Dispatcher) (t : HandlerTable ν) (out : List (Record ν) × Situation ν) :
    List (Record ν) × Dispatcher × HandlerTable ν × Value :=
  (out.1, { d with queue := [], generation := out.2.generation }, { t with notes := out.2.notes }, out.2.state)

theorem pushAll_eq (d : Dispatcher) (es : List Event) : d.pushAll es = { d with queue := d.queue ++ es } := by
  induction es generalizing d with
  | nil => rw [List.append_nil]; rfl
  | cons e es ih =>
      rw [pushAll, List.foldl_cons, ← pushAll, ih, push, List.append_assoc]
      rfl

theorem process_eq_settled (d : Dispatcher) (w : Wiring) (t : HandlerTable ν) (root : Value) :
    d.process w t root =
      d.settled t (Dispatch.process (d.setting w t) d.config.limit d.queue (d.situation t root)) := rfl

theorem dispatch_eq_settled {d : Dispatcher} {w : Wiring} {t : HandlerTable ν} {root : Value} {e : Event}
    (hidle : d.queue = []) (hl : 0 < d.config.limit)
    (hquiet : (react (d.setting w t) (d.situation t root) e).record.queued = []) :
    d.dispatch w t root e = d.settled t (reactAll (d.setting w t) [e] (d.situation t root)) := by
  have hrun : Dispatch.process (d.setting w t) d.config.limit [e] (d.situation t root) =
      reactAll (d.setting w t) [e] (d.situation t root) := by
    obtain ⟨left, hleft⟩ := Nat.exists_eq_add_of_lt hl
    rw [hleft, Nat.zero_add, Dispatch.process, reactAll, hquiet]
    cases left <;> rfl
  have hqueue : d.queue ++ [e] = [e] := by rw [hidle, List.nil_append]
  rw [dispatch, process_eq_settled, ← hrun, ← hqueue]
  rfl

theorem dispatchEach_eq_settled {d : Dispatcher} {w : Wiring} {t : HandlerTable ν} {root : Value}
    {es : List Event} (hidle : d.queue = []) (hl : es.length ≤ d.config.limit)
    (hquiet : ∀ r ∈ (reactAll (d.setting w t) es (d.situation t root)).1, r.queued = []) :
    d.dispatchEach w t root es = d.settled t (reactAll (d.setting w t) es (d.situation t root)) := by
  induction es generalizing d t root with
  | nil =>
      obtain ⟨queue, config, observers, generation⟩ := d
      obtain rfl : queue = [] := hidle
      rfl
  | cons e es ih =>
      rw [reactAll, List.forall_mem_cons] at hquiet
      obtain ⟨hfirst, hrest⟩ := hquiet
      have hpos : 0 < d.config.limit := Nat.lt_of_lt_of_le (Nat.succ_pos _) hl
      -- what the first run gives back is idle again, and its setting is the same
      let s := (react (d.setting w t) (d.situation t root) e).after
      have hnext : Dispatcher.dispatchEach { d with queue := [], generation := s.generation } w
          { t with notes := s.notes } s.state es = d.settled t (reactAll (d.setting w t) es s) :=
        ih rfl (Nat.le_of_succ_le hl) hrest
      rw [dispatchEach, dispatch_eq_settled hidle hpos hfirst]
      dsimp only [settled, reactAll]
      rw [hnext]
      rfl

end Dispatcher

/-- If no event joins the queue while a batch is processed, the batch does all that its
events do when they are dispatched one by one: it is reported in the same words, the
same handlers are called and the same observers told in the same order, and nothing
tells the dispatcher, the handlers' notes and the state apart afterwards. -/
theorem batch_does_what_its_events_do (d : Dispatcher) (w : Wiring) (t : HandlerTable ν) (root : Value)
    (es : List Event) (hidle : d.queue = []) (hl : es.length ≤ d.config.limit)
    (hquiet : ∀ r ∈ ((d.pushAll es).process w t root).1, r.queued = []) :
    (d.pushAll es).process w t root = d.dispatchEach w t root es := by
  have hbatch : (d.pushAll es).process w t root =
      d.settled t (process (d.setting w t) d.config.limit es (d.situation t root)) := by
    rw [d.pushAll_eq, hidle]
    rfl
  rw [hbatch] at hquiet ⊢
  have hreact := process_eq_reactAll hl hquiet
  rw [hreact] at hquiet ⊢
  exact (Dispatcher.dispatchEach_eq_settled hidle hl hquiet).symm

def idleBox : Dispatcher := ⟨[], ⟨.mutationsFirst, true, 3⟩, ⟨1, [0]⟩, 4⟩

def boxBatch : List Event :=
  [.tap ⟨"box", []⟩, .input ⟨"box", []⟩ (.string "tools"), .tap ⟨"crate", []⟩]

/-- The stuck lid asks for another tap, but since its handler fails no event joins
the queue. -/
theorem box_batch_does_what_its_events_do :
    idleBox.queue = [] ∧ boxBatch.length ≤ idleBox.config.limit ∧
    (∀ r ∈ ((idleBox.pushAll boxBatch).process boxWiring stuckLid (boxTree "")).1, r.queued = []) ∧
    (idleBox.pushAll boxBatch).process boxWiring stuckLid (boxTree "") =
      idleBox.dispatchEach boxWiring stuckLid (boxTree "") boxBatch ∧
    ((idleBox.dispatchEach boxWiring stuckLid (boxTree "") boxBatch).1.map fun r => r.report.verdict.isOk) =
      [false, true, true] ∧
    (idleBox.dispatchEach boxWiring stuckLid (boxTree "") boxBatch).1.map Record.called = [["lift"], [], []] := by
  have hqueued : ((idleBox.pushAll boxBatch).process boxWiring stuckLid (boxTree "")).1.map Record.queued =
      [[], [], []] := rfl
  have hquiet : ∀ r ∈ ((idleBox.pushAll boxBatch).process boxWiring stuckLid (boxTree "")).1,
      r.queued = [] := by
    have hall : ∀ es ∈ ([[], [], []] : List (List Event)), es = [] := by simp
    rw [← hqueued] at hall
    exact List.forall_mem_map.mp hall
  have hbatch := batch_does_what_its_events_do idleBox boxWiring stuckLid (boxTree "") boxBatch rfl
    (by decide) hquiet
  exact ⟨rfl, by decide, hquiet, hbatch, rfl, rfl⟩

end ViewWiring.Dispatch
