import ViewWiring.Component.Instance
import ViewWiring.Proofs.Dispatch.Attempts
import ViewWiring.Proofs.Dispatch.Rollback
import ViewWiring.Proofs.State.Access

namespace ViewWiring.State

open Address

theorem Slot.kind_put (s : Slot) (v : Value) : (s.put v).kind = s.container.kind := by
  cases s <;> rfl

theorem Slot.kind_without (s : Slot) : s.without.kind = s.container.kind := by
  cases s <;> rfl

theorem kind_rebuild {v : Value} {k : Key} {ks : List Key} {p : Place} (h : v.locate k ks = .ok p)
    {w : Value} (hw : w.kind = p.slot.container.kind) : (p.rebuild w).kind = v.kind := by
  cases ks with
  | nil =>
      obtain ⟨s, hs, hp⟩ := bind_eq_ok.mp h
      cases hp
      exact hw.trans (congrArg Value.kind (Value.container_of_slot hs))
  | cons k' ks =>
      -- with a slot above it, the root is what that slot is put back into
      obtain ⟨s, hs, h⟩ := bind_eq_ok.mp h
      obtain ⟨u, _, h⟩ := bind_eq_ok.mp h
      obtain ⟨q, _, hp⟩ := bind_eq_ok.mp h
      cases hp
      exact (s.kind_put _).trans (congrArg Value.kind (Value.container_of_slot hs))

theorem locate_field_of_not_map {v : Value} (h : v.isMap = false) (name : String) (ks : List Key) :
    v.locate (.field name) ks = .error (.typeMismatch .map v.kind) := by
  have hslot : v.slot (.field name) = .error (.typeMismatch .map v.kind) := by
    cases v with
    | map es => cases h
    | null | boolean b | number n | string s | sequence xs => rfl
  cases ks <;> rw [Value.locate, hslot] <;> rfl

variable {root v : Value} {p : Path} {it : Option Iteration}

theorem kind_of_resolve {place : Place} (h : root.resolve p it = .ok place) {w : Value}
    (hw : w.kind = place.slot.container.kind) : (place.rebuild w).kind = root.kind := by
  obtain ⟨ks, _, h⟩ := bind_eq_ok.mp h
  exact kind_rebuild (mapError_eq_ok.mp h) hw

/-- Every path begins with the name of a field, so that without a map at the root it
leads nowhere. -/
theorem resolve_of_not_map (h : root.isMap = false) (p : Path) (it : Option Iteration) :
    ∃ e, root.resolve p it = .error e := by
  rw [Value.resolve]
  cases innerKeys p it with
  | error e => exact ⟨e, rfl⟩
  | ok ks =>
      have hlocate := locate_field_of_not_map h p.field ks
      exact ⟨⟨p, .typeMismatch .map root.kind⟩, congrArg (along p) hlocate⟩

end ViewWiring.State

namespace ViewWiring.Dispatch

open State

variable {it : Option Iteration} {root v : Value} {x : Write}

theorem Write.kind_apply (hx : x.apply it root = .ok v) : v.kind = root.kind := by
  cases x with
  | set p w =>
      obtain ⟨_, h, rfl⟩ := map_eq_ok.mp hx
      obtain ⟨place, hplace, h⟩ := bind_eq_ok.mp h
      cases h
      exact kind_of_resolve hplace (place.slot.kind_put w)
  | toggle p =>
      obtain ⟨_, h, rfl⟩ := map_eq_ok.mp hx
      obtain ⟨place, hplace, h⟩ := bind_eq_ok.mp h
      obtain ⟨w, _, h⟩ := bind_eq_ok.mp (mapError_eq_ok.mp h)
      cases w with
      | boolean b =>
          cases h
          exact kind_of_resolve hplace (place.slot.kind_put (.boolean !b))
      | null | number n | string s | sequence xs | map es => cases h
  | remove p =>
      obtain ⟨_, h, rfl⟩ := map_eq_ok.mp hx
      obtain ⟨place, hplace, h⟩ := bind_eq_ok.mp h
      obtain ⟨w, _, h⟩ := bind_eq_ok.mp (mapError_eq_ok.mp h)
      cases h
      exact kind_of_resolve hplace place.slot.kind_without

theorem Write.apply_of_not_map (h : root.isMap = false) (x : Write) (it : Option Iteration) :
    ∃ e, x.apply it root = .error e := by
  cases x with
  | set p w | toggle p | remove p =>
      obtain ⟨e, he⟩ := resolve_of_not_map h p it
      refine ⟨e, ?_⟩
      simp only [apply, Value.set, Value.toggle, Value.remove, he]
      rfl

namespace Attempt

theorem keep_kind (k : Kind) : Keep fun v => v.kind = k := by
  intro a ha
  rw [left]
  split
  · rename_i v hv
    exact (Write.kind_apply hv).trans ha
  · exact ha

theorem keep_of_not_map (h : root.isMap = false) : Keep (· = root) := by
  rintro a rfl
  obtain ⟨e, he⟩ := a.write.apply_of_not_map h a.iteration
  rw [left, outcome, he]

end Attempt

end ViewWiring.Dispatch

namespace ViewWiring.Component.Instance

open Dispatch State

variable {ν : Type}

def dispatchAll (i : Instance ν) : List Event → List (Record ν) × Instance ν
  | [] => ([], i)
  | e :: es =>
      let (records, i) := i.dispatch e
      let (others, final) := i.dispatchAll es
      (records ++ others, final)

def setting (i : Instance ν) : Setting ν := i.dispatcher.setting i.spec.wiring i.handlers

def turns (i : Instance ν) (e : Event) : List (Turn ν) :=
  (i.dispatcher.push e).turns i.spec.wiring i.handlers i.state

def turnsAll (i : Instance ν) : List Event → List (Turn ν)
  | [] => []
  | e :: es => i.turns e ++ (i.dispatch e).2.turnsAll es

theorem turnsAll_record (i : Instance ν) (es : List Event) :
    (i.turnsAll es).map Turn.record = (i.dispatchAll es).1 := by
  induction es generalizing i with
  | nil => rfl
  | cons e es ih =>
      have hfirst : (i.dispatch e).1 = (i.turns e).map Turn.record :=
        (i.dispatcher.push e).process_reports i.spec.wiring i.handlers i.state
      rw [turnsAll, List.map_append, ih, ← hfirst]
      rfl

theorem dispatch_holds (i : Instance ν) (e : Event) {P : Value → Prop} (hP : Attempt.Keep P)
    (hi : P i.state) : P (i.dispatch e).2.state ∧ ∀ u ∈ i.turns e, u.Holds i.setting P := by
  obtain ⟨left, h⟩ := (i.dispatcher.push e).process_linked i.spec.wiring i.handlers i.state
  exact h.holds hP hi

theorem dispatchAll_holds (i : Instance ν) (es : List Event) {P : Value → Prop} (hP : Attempt.Keep P)
    (hi : P i.state) : P (i.dispatchAll es).2.state ∧ ∀ u ∈ i.turnsAll es, u.Holds i.setting P := by
  induction es generalizing i with
  | nil => exact ⟨hi, by simp [turnsAll]⟩
  | cons e es ih =>
      obtain ⟨hnext, hfirst⟩ := i.dispatch_holds e hP hi
      -- a run changes neither the wiring nor the handlers, nor how events are served
      have hsetting : (i.dispatch e).2.setting = i.setting := rfl
      obtain ⟨hfinal, hrest⟩ := ih (i.dispatch e).2 hnext
      rw [hsetting] at hrest
      exact ⟨hfinal, List.forall_mem_append.mpr ⟨hfirst, hrest⟩⟩

/-- Whatever events an instance is given, all trees that it ever has are of one kind: a
map at the root stays a map. Without one no write succeeds, and the state stays as it is. -/
theorem root_keeps_its_kind (i : Instance ν) (es : List Event) :
    (i.turnsAll es).map Turn.record = (i.dispatchAll es).1 ∧
    (i.dispatchAll es).2.state.kind = i.state.kind ∧
    (∀ u ∈ i.turnsAll es, u.Holds i.setting fun v => v.kind = i.state.kind) ∧
    (i.state.isMap = false → (i.dispatchAll es).2.state = i.state ∧
      ∀ u ∈ i.turnsAll es, u.Holds i.setting (· = i.state) ∧
        ∀ a ∈ u.attempts i.setting, ∃ err, a.outcome = .error err) := by
  obtain ⟨hkind, hkinds⟩ := i.dispatchAll_holds es (Attempt.keep_kind i.state.kind) rfl
  refine ⟨i.turnsAll_record es, hkind, hkinds, ?_⟩
  intro hroot
  obtain ⟨hsame, hall⟩ := i.dispatchAll_holds es (Attempt.keep_of_not_map hroot) rfl
  refine ⟨hsame, ?_⟩
  intro u hu
  refine ⟨hall u hu, ?_⟩
  intro a ha
  have hfound : a.found = i.state := ((hall u hu).attempts a ha).1
  rw [Attempt.outcome, hfound]
  exact a.write.apply_of_not_map hroot a.iteration

def labelledBox : Instance Unit :=
  ⟨⟨"Box", [], boxWiring⟩, .empty, stuckLid, .string "tools", .ofConfig ⟨.handlerFirst, false, 8⟩⟩

def labelledEvents : List Event := [.tap ⟨"box", []⟩, .input ⟨"box", []⟩ (.string "nails")]

theorem labelled_box_keeps_its_label :
    labelledBox.state.isMap = false ∧
    (labelledBox.dispatchAll labelledEvents).2.state = .string "tools" ∧
    (∀ u ∈ labelledBox.turnsAll labelledEvents, ∀ a ∈ u.attempts labelledBox.setting,
      ∃ err, a.outcome = .error err) ∧
    (labelledBox.turnsAll labelledEvents).map (fun u => (u.attempts labelledBox.setting).length) = [1, 1] := by
  obtain ⟨-, -, -, hfails⟩ := root_keeps_its_kind labelledBox labelledEvents
  obtain ⟨hstate, hturns⟩ := hfails rfl
  exact ⟨rfl, hstate, fun u hu => (hturns u hu).2, rfl⟩

end ViewWiring.Component.Instance
