import ViewWiring.Proofs.Dispatch.Queue
import ViewWiring.Proofs.Dispatch.Stopping

namespace ViewWiring.Dispatch

open Address Binding State

variable {ν α : Type}

structure Attempt where
  found : Value
  iteration : Option Iteration
  write : Write

namespace Attempt

def outcome (a : Attempt) : Except PathError Value := a.write.apply a.iteration a.found

/-- The tree afterwards: a write that fails leaves the one that it found. -/
def left (a : Attempt) : Value :=
  match a.outcome with
  | .ok v => v
  | .error _ => a.found

def Lead : Value → List Attempt → Value → Prop
  | u, [], v => u = v
  | u, a :: as, v => a.found = u ∧ Lead a.left as v

def Keep (P : Value → Prop) : Prop := ∀ a : Attempt, P a.found → P a.left

theorem Lead.append {as bs : List Attempt} {u v w : Value} (h : Lead u as v) (h' : Lead v bs w) :
    Lead u (as ++ bs) w := by
  induction as generalizing u with
  | nil =>
      obtain rfl : u = v := h
      exact h'
  | cons a as ih => exact ⟨h.1, ih h.2⟩

theorem Lead.keeps {P : Value → Prop} (hP : Keep P) {as : List Attempt} {u v : Value} (h : Lead u as v)
    (hu : P u) : P v ∧ ∀ a ∈ as, P a.found ∧ P a.left := by
  induction as generalizing u with
  | nil =>
      obtain rfl : u = v := h
      exact ⟨hu, by simp⟩
  | cons a as ih =>
      obtain ⟨rfl, h⟩ := h
      obtain ⟨hv, has⟩ := ih h (hP a hu)
      exact ⟨hv, List.forall_mem_cons.mpr ⟨⟨hu, hP a hu⟩, has⟩⟩

end Attempt

def Request.attempts (it : Option Iteration) (root : Value) : Request ν → List Attempt
  | set p v => [⟨root, it, .set p v⟩]
  | toggle p => [⟨root, it, .toggle p⟩]
  | remove p => [⟨root, it, .remove p⟩]
  | _ => []

def Program.attempts (it : Option Iteration) : Program ν α → Desk ν → List Attempt
  | done _, _ => []
  | fail _, _ => []
  | ask r next, d => r.attempts it d.state ++ (next (r.perform it d).2).attempts it (r.perform it d).1

def Step.attempts (handlers : Entries String (Handler ν)) (e : Event) (w : Progress ν) : Step → List Attempt
  | mutate m => [⟨w.desk.state, e.iteration, m.write e⟩]
  | call name =>
      match handlers.get? name with
      | none => []
      | some h => (h (.ofEvent e)).attempts e.iteration w.desk

/-- The writes that steps try, until one of the steps fails. -/
def stepsAttempts (handlers : Entries String (Handler ν)) (e : Event) :
    List Step → Progress ν → List Attempt
  | [], _ => []
  | st :: steps, w =>
      st.attempts handlers e w ++
        match st.run handlers e w with
        | (w', none) => stepsAttempts handlers e steps w'
        | (_, some _) => []

def Setting.attempts (c : Setting ν) (s : Situation ν) (e : Event) : List Attempt :=
  stepsAttempts c.handlers e (c.steps e) (outset s.notes s.state)

def Turn.attempts (c : Setting ν) (u : Turn ν) : List Attempt :=
  if u.isOverflow then [] else c.attempts u.before.found u.event

theorem perform_attempts (it : Option Iteration) (r : Request ν) (d : Desk ν) :
    Attempt.Lead d.state (r.attempts it d.state) (r.perform it d).1.state := by
  have hchange {β : Type} (x : Write) (r : Except PathError (β × Value))
      (h : x.apply it d.state = r.map Prod.snd) :
      Attempt.Lead d.state [⟨d.state, it, x⟩] (d.change r).1.state := by
    refine ⟨rfl, ?_⟩
    rw [Attempt.left, Attempt.outcome, h]
    cases r <;> rfl
  cases r with
  | set p v | toggle p | remove p => exact hchange _ _ rfl
  | get p | state | queue e | note n | notes => rfl

theorem run_attempts (it : Option Iteration) (p : Program ν α) (d : Desk ν) :
    Attempt.Lead d.state (p.attempts it d) (p.run it d).1.state := by
  induction p generalizing d with
  | done a => rfl
  | fail err => rfl
  | ask r next ih => exact (perform_attempts it r d).append (ih _ _)

theorem step_run_attempts (handlers : Entries String (Handler ν)) (e : Event) (w : Progress ν) (st : Step) :
    Attempt.Lead w.desk.state (st.attempts handlers e w) (st.run handlers e w).1.desk.state := by
  cases st with
  | mutate m =>
      refine ⟨rfl, ?_⟩
      rw [Attempt.left, Attempt.outcome, ← m.apply_eq, Step.run]
      cases m.apply e w.desk.state <;> rfl
  | call name =>
      cases hh : handlers.get? name with
      | none => simp only [Step.run, Step.attempts, hh]; rfl
      | some h =>
          simpa only [Step.run, Step.attempts, hh] using run_attempts e.iteration (h (.ofEvent e)) w.desk

theorem runSteps_attempts (handlers : Entries String (Handler ν)) (e : Event) (steps : List Step)
    (w : Progress ν) : Attempt.Lead w.desk.state (stepsAttempts handlers e steps w)
      (runSteps handlers e steps w).1.desk.state := by
  induction steps generalizing w with
  | nil => rfl
  | cons st steps ih =>
      have hst := step_run_attempts handlers e w st
      rcases hr : st.run handlers e w with ⟨w', stop⟩
      rw [hr] at hst
      cases stop with
      | none =>
          simp only [runSteps, stepsAttempts, hr]
          exact hst.append (ih w')
      | some err => simpa only [runSteps, stepsAttempts, hr, List.append_nil] using hst

/-- An event leaves the tree that its attempts lead to, or takes them all back. -/
theorem react_attempts (c : Setting ν) (s : Situation ν) (e : Event) :
    ∃ v, Attempt.Lead s.state (c.attempts s e) v ∧
      ((react c s e).after.state = v ∨ (react c s e).after.state = s.state) := by
  refine ⟨_, runSteps_attempts c.handlers e (c.steps e) (Setting.outset s.notes s.state), ?_⟩
  change (react c s e).after.state = (c.progress e s.notes s.state).1.desk.state ∨ _
  rcases react_cases c s e with ⟨_, h⟩ | ⟨p, w, _, hw, h⟩ | ⟨p, w, err, _, hw, h⟩
  · exact .inr (by rw [h]; rfl)
  · exact .inl (by rw [h, hw]; rfl)
  · rw [h, hw]
    cases hc : c.config.rollback with
    | true => exact .inr rfl
    | false => exact .inl rfl

theorem attempts_processing (c : Setting ν) (left : Nat) (e : Event) (rest : List Event) (s : Situation ν) :
    (Turn.processing c left e rest s).attempts c = c.attempts s e := by
  have he : (Turn.processing c left e rest s).event = e := react_event c s e
  have ho : (Turn.processing c left e rest s).isOverflow = false := isOverflow_react c s e
  rw [Turn.attempts, he, ho]
  rfl

structure Turn.Holds (c : Setting ν) (P : Value → Prop) (u : Turn ν) : Prop where
  before : P u.before.found.state
  attempts : ∀ a ∈ u.attempts c, P a.found ∧ P a.left
  after : P u.after.found.state

section

variable {c : Setting ν} {P : Value → Prop} {p q : Pause ν}

theorem turn_holds (hP : Attempt.Keep P) {u : Turn ν} (h : p.turn? c = some u) (hp : P p.found.state) :
    u.Holds c P := by
  rcases turn_cases h with ⟨left, e, rest, s, rfl⟩ | ⟨e, rest, s, rfl⟩
  · obtain rfl := turn_before h
    obtain ⟨v, hlead, hafter⟩ := react_attempts c s e
    obtain ⟨hv, has⟩ := hlead.keeps hP hp
    refine ⟨hp, ?_, ?_⟩
    · rwa [attempts_processing]
    · rcases hafter with hafter | hafter
      · exact hafter.symm ▸ hv
      · exact hafter.symm ▸ hp
  · obtain rfl := turn_before h
    exact ⟨hp, (fun _ ha => nomatch ha), hp⟩

/-- What no attempt takes away holds as long as a run goes on. -/
theorem Linked.holds (hP : Attempt.Keep P) {us : List (Turn ν)} (h : Linked c p us q)
    (hp : P p.found.state) : P q.found.state ∧ ∀ u ∈ us, u.Holds c P := by
  induction us generalizing p with
  | nil =>
      obtain rfl : p = q := h
      exact ⟨hp, by simp⟩
  | cons u us ih =>
      have hu := turn_holds hP h.1 hp
      obtain ⟨hq, hus⟩ := ih h.2 hu.after
      exact ⟨hq, List.forall_mem_cons.mpr ⟨hu, hus⟩⟩

end

end ViewWiring.Dispatch
