import ViewWiring.Proofs.Component.Validity

namespace ViewWiring.Component

open Address Binding

/-- An error that a member can make by what it declares. It has the member's name. -/
def ConfigError.Blames (name : String) : ConfigError → Prop
  | conflict c => c.member = name
  | duplicateMember member | missingPath member _ | missingSelector member _ | invalidSelector member _ _
  | invalidPath member _ _ | repeatOnMethod member | repeatOnNonCollection member _ => member = name
  | unknownHandler _ | missingHandler _ | placeholderOutsideRepeat _ _ _ => False

namespace Member

theorem readAnnotation_failsOnly (m : Member) (a : AnnotationText) :
    FailsOnly (ConfigError.Blames m.name) (m.readAnnotation a) := by
  have hparse {α : Type} (x : Except Malformed α) {f : Malformed → ConfigError}
      (hf : ∀ e, (f e).Blames m.name) : FailsOnly (ConfigError.Blames m.name) (x.mapError f) := by
    have hany : FailsOnly (fun _ => True) x := fun _ _ => trivial
    exact hany.mapError fun e _ => hf e
  have hselector (t : String) :
      FailsOnly (ConfigError.Blames m.name) ((Selector.parse t).mapError (.invalidSelector m.name t)) :=
    hparse _ fun _ => rfl
  have hpath (t : String) :
      FailsOnly (ConfigError.Blames m.name) ((Path.parse t).mapError (.invalidPath m.name t)) :=
    hparse _ fun _ => rfl
  rcases a with ⟨kind, selector, path⟩
  cases kind with
  | viewFor | event e =>
      cases selector with
      | none => exact .error rfl
      | some t => exact (hselector t).bind fun _ _ => .ok _
  | mutation op =>
      cases path with
      | none => exact .error rfl
      | some p =>
          apply (hpath p).bind
          intro q _
          dsimp only
          cases selector.or m.inherited? with
          | none => exact .error rfl
          | some t => exact (hselector t).bind fun _ _ => .ok _

theorem shownType_failsOnly (m : Member) (as : List Annotation) :
    FailsOnly (ConfigError.Blames m.name) (m.shownType as) := by
  unfold shownType
  split
  · split <;> first | exact .error rfl | exact .ok _
  · exact .ok _

theorem read_failsOnly (m : Member) : FailsOnly (ConfigError.Blames m.name) m.read := by
  apply (FailsOnly.mapM m.readAnnotation_failsOnly _).bind
  intro as _
  exact (m.shownType_failsOnly as).bind fun _ _ => .ok _

end Member

theorem Descriptor.enter_failsOnly (d : Descriptor) (w : Wiring) :
    FailsOnly (fun c => c.member = d.name) (d.enter w) := by
  have hconnect (w : Wiring) (t : Trigger) :
      FailsOnly (fun c => c.member = d.name) (w.connect t.selector t.event (d.pipeline t)) := by
    unfold Wiring.connect
    split
    · exact .error rfl
    · exact .ok _
  apply (FailsOnly.foldlM hconnect w d.triggers).bind
  intro w' _
  split
  · exact .ok _
  · unfold Wiring.repeatScope
    split
    · exact .error rfl
    · exact .ok _

namespace Spec

theorem add_failsOnly (s : Spec) (m : Member) : FailsOnly (ConfigError.Blames m.name) (s.add m) := by
  unfold add
  split
  · exact .error rfl
  · apply m.read_failsOnly.bind
    intro d hd
    obtain ⟨_, rfl⟩ := (m.read_eq_ok d).mp hd
    exact ((m.described.enter_failsOnly s.wiring).mapError fun _ h => h).bind fun _ _ => .ok _

theorem unsupplied?_kind {s : Spec} {e : ConfigError} (h : s.unsupplied? = some e) :
    ∃ name p r, e = .placeholderOutsideRepeat name p r := by
  obtain ⟨d, _, hd⟩ := List.exists_of_findSome?_eq_some h
  obtain ⟨t, _, ht⟩ := List.exists_of_findSome?_eq_some hd
  obtain ⟨m, _, rfl⟩ := Option.map_eq_some_iff.mp ht
  exact ⟨d.name, m.path, t.selector, rfl⟩

end Spec

theorem validate_eq_error {d : Definition} {e : ConfigError} : d.validate = .error e ↔
    d.members.foldlM Spec.add ⟨d.name, [], .empty⟩ = .error e ∨
    ∃ s, d.members.foldlM Spec.add ⟨d.name, [], .empty⟩ = .ok s ∧ s.unsupplied? = some e := by
  rw [Definition.validate]
  cases d.members.foldlM Spec.add ⟨d.name, [], .empty⟩ with
  | error e' => simp [bind, Except.bind]
  | ok s => cases hu : s.unsupplied? <;> simp [bind, Except.bind, hu, pure, Except.pure]

/-- Validation fails for what a member declares, or for want of a repetition. -/
theorem validate_failsOnly (d : Definition) :
    FailsOnly (fun e => (∃ name, e.Blames name) ∨ ∃ name p r, e = .placeholderOutsideRepeat name p r)
      d.validate := by
  intro e h
  rcases validate_eq_error.mp h with hm | ⟨s, _, hu⟩
  · have hadd (s : Spec) (m : Member) : FailsOnly (fun e => ∃ name, e.Blames name) (s.add m) :=
      fun e he => ⟨m.name, s.add_failsOnly m e he⟩
    exact .inl (FailsOnly.foldlM hadd _ _ e hm)
  · exact .inr (Spec.unsupplied?_kind hu)

/-- What validation says of a definition, it does not say of handlers. -/
theorem validate_ne_handler {d : Definition} {e : ConfigError} (h : d.validate = .error e)
    (name : String) : e ≠ .unknownHandler name ∧ e ≠ .missingHandler name := by
  rcases validate_failsOnly d e h with ⟨_, hm⟩ | ⟨_, _, _, rfl⟩
  · constructor <;> rintro rfl <;> exact hm
  · exact ⟨nofun, nofun⟩

end ViewWiring.Component
