import Mathlib.Data.List.Forall2

namespace ViewWiring

variable {ε δ α β γ : Type}

theorem bind_eq_ok {x : Except ε α} {f : α → Except ε β} {b : β} :
    x >>= f = .ok b ↔ ∃ a, x = .ok a ∧ f a = .ok b := by
  cases x <;> simp [bind, Except.bind]

theorem map_eq_ok {x : Except ε α} {f : α → β} {b : β} :
    x.map f = .ok b ↔ ∃ a, x = .ok a ∧ f a = b := by
  cases x <;> simp [Except.map]

theorem mapError_eq_ok {x : Except ε α} {f : ε → δ} {a : α} : x.mapError f = .ok a ↔ x = .ok a := by
  cases x with
  | error e => exact ⟨nofun, nofun⟩
  | ok b =>
      constructor
      · rintro ⟨⟩
        rfl
      · rintro ⟨⟩
        rfl

theorem toOption_eq_some {x : Except ε α} {a : α} : x.toOption = some a ↔ x = .ok a := by
  cases x <;> simp [Except.toOption]

theorem toOption_map (x : Except ε α) (f : α → β) : (x.map f).toOption = x.toOption.map f := by
  cases x <;> rfl

/-- Outcomes that agree but for their errors go on to do so. -/
theorem toOption_bind_congr {x : Except ε α} {y : Except δ α} {f : α → Except ε β} {g : α → Except δ β}
    (h : x.toOption = y.toOption) (hf : ∀ a, (f a).toOption = (g a).toOption) :
    (x >>= f).toOption = (y >>= g).toOption := by
  cases x with
  | error e =>
      cases y with
      | error e' => rfl
      | ok b => cases h
  | ok a =>
      cases y with
      | error e => cases h
      | ok b =>
          cases h
          exact hf a

theorem foldlM_cons_eq_ok {f : γ → α → Except ε γ} {a : α} {as : List α} {s t : γ} :
    (a :: as).foldlM f s = .ok t ↔ ∃ u, f s a = .ok u ∧ as.foldlM f u = .ok t := by
  rw [List.foldlM_cons, bind_eq_ok]

theorem foldlM_snoc_eq_ok {f : γ → α → Except ε γ} {a : α} {as : List α} {s t : γ} :
    (as ++ [a]).foldlM f s = .ok t ↔ ∃ u, as.foldlM f s = .ok u ∧ f u a = .ok t := by
  simp only [List.foldlM_append, bind_eq_ok, foldlM_cons_eq_ok, List.foldlM_nil, pure, Except.pure,
    Except.ok.injEq, exists_eq_right]

/-- What comes after the element at which a fold fails plays no part. -/
theorem foldlM_of_error {f : γ → α → Except ε γ} {before : List α} {a : α} {s t : γ} {e : ε}
    (h : before.foldlM f s = .ok t) (ha : f t a = .error e) (after : List α) :
    (before ++ a :: after).foldlM f s = .error e := by
  rw [List.foldlM_append, h]
  simp only [bind, Except.bind, List.foldlM_cons, ha]

theorem exists_of_foldlM_error {f : γ → α → Except ε γ} {as : List α} {s : γ} {e : ε}
    (h : as.foldlM f s = .error e) : ∃ before a after t, as = before ++ a :: after ∧
      before.foldlM f s = .ok t ∧ f t a = .error e := by
  induction as generalizing s with
  | nil => cases h
  | cons a as ih =>
      rw [List.foldlM_cons] at h
      cases hfirst : f s a with
      | error e' =>
          rw [hfirst] at h
          obtain rfl : e' = e := Except.error.inj h
          exact ⟨[], a, as, s, rfl, rfl, hfirst⟩
      | ok u =>
          rw [hfirst] at h
          obtain ⟨before, b, after, t, rfl, ht, hb⟩ := ih h
          exact ⟨a :: before, b, after, t, rfl, foldlM_cons_eq_ok.mpr ⟨u, hfirst, ht⟩, hb⟩

theorem foldlM_keeps {f : γ → α → Except ε γ} (P : γ → Prop) (hf : ∀ s a t, P s → f s a = .ok t → P t)
    {as : List α} {s t : γ} (hs : P s) (h : as.foldlM f s = .ok t) : P t := by
  induction as generalizing s with
  | nil => exact Except.ok.inj h ▸ hs
  | cons a as ih =>
      obtain ⟨u, hu, h⟩ := foldlM_cons_eq_ok.mp h
      exact ih (hf s a u hs hu) h

theorem mapM_eq_ok {f : α → Except ε β} {g : α → Option β} (h : ∀ a b, f a = .ok b ↔ g a = some b)
    {as : List α} {bs : List β} :
    as.mapM f = .ok bs ↔ (∀ a ∈ as, (g a).isSome) ∧ as.filterMap g = bs := by
  induction as generalizing bs with
  | nil => simp [pure, Except.pure]
  | cons a as ih =>
      simp only [List.mapM_cons, bind_eq_ok, ih, h, pure, Except.pure, Except.ok.injEq]
      constructor
      · rintro ⟨b, hb, cs, ⟨has, rfl⟩, rfl⟩
        refine ⟨?_, List.filterMap_cons_some hb⟩
        intro c hc
        rcases List.mem_cons.mp hc with rfl | hc
        · simp [hb]
        · exact has c hc
      · rintro ⟨has, rfl⟩
        obtain ⟨b, hb⟩ := Option.isSome_iff_exists.mp (has a List.mem_cons_self)
        refine ⟨b, hb, as.filterMap g, ⟨fun c hc => has c (List.mem_cons_of_mem _ hc), rfl⟩, ?_⟩
        rw [List.filterMap_cons_some hb]

theorem mapM_eq_ok_iff_forall₂ {f : α → Except ε β} {as : List α} {bs : List β} :
    as.mapM f = .ok bs ↔ List.Forall₂ (fun a b => f a = .ok b) as bs := by
  induction as generalizing bs with
  | nil => simp [pure, Except.pure, eq_comm]
  | cons a as ih =>
      simp only [List.mapM_cons, bind_eq_ok, ih, pure, Except.pure, Except.ok.injEq,
        List.forall₂_cons_left_iff]
      constructor
      · rintro ⟨b, hb, cs, hcs, rfl⟩
        exact ⟨b, cs, hb, hcs, rfl⟩
      · rintro ⟨b, cs, hb, hcs, rfl⟩
        exact ⟨b, hb, cs, hcs, rfl⟩

theorem exists_error_iff {x : Except ε α} : (∃ e, x = .error e) ↔ ∀ a, x ≠ .ok a := by
  cases x with
  | error e => exact ⟨fun _ => nofun, fun _ => ⟨e, rfl⟩⟩
  | ok a => exact ⟨nofun, fun h => absurd rfl (h a)⟩

/-- A list is not gone through to its end if one of its elements fails. -/
theorem mapM_fails_iff {f : α → Except ε β} {as : List α} :
    (∃ e, as.mapM f = .error e) ↔ ∃ a ∈ as, ∃ e, f a = .error e := by
  induction as with
  | nil => simp [pure, Except.pure]
  | cons a as ih =>
      rw [List.mapM_cons, List.exists_mem_cons_iff, ← ih]
      cases f a with
      | error e => exact ⟨fun _ => .inl ⟨e, rfl⟩, fun _ => ⟨e, rfl⟩⟩
      | ok b => cases as.mapM f <;> simp [bind, Except.bind, pure, Except.pure]

def FailsOnly (P : ε → Prop) (x : Except ε α) : Prop := ∀ e, x = .error e → P e

namespace FailsOnly

variable {P : ε → Prop} {Q : δ → Prop} {x : Except ε α}

theorem ok (a : α) : FailsOnly P (.ok a) := fun _ h => nomatch h

theorem error {e : ε} (h : P e) : FailsOnly (α := α) P (.error e) := by
  intro e' he
  exact Except.error.inj he ▸ h

theorem bind {f : α → Except ε β} (hx : FailsOnly P x) (hf : ∀ a, x = .ok a → FailsOnly P (f a)) :
    FailsOnly P (x >>= f) := by
  cases x with
  | error e => exact error (hx e rfl)
  | ok a => exact hf a rfl

theorem map (hx : FailsOnly P x) (f : α → β) : FailsOnly P (x.map f) := by
  cases x with
  | error e => exact error (hx e rfl)
  | ok a => exact ok (f a)

theorem mapError {f : ε → δ} (hx : FailsOnly P x) (hf : ∀ e, P e → Q (f e)) :
    FailsOnly Q (x.mapError f) := by
  cases x with
  | error e => exact error (hf e (hx e rfl))
  | ok a => exact ok a

theorem mapM {f : α → Except ε β} (hf : ∀ a, FailsOnly P (f a)) (as : List α) :
    FailsOnly P (as.mapM f) := by
  induction as with
  | nil => exact ok []
  | cons a as ih =>
      rw [List.mapM_cons]
      exact (hf a).bind fun b _ => ih.bind fun bs _ => ok (b :: bs)

theorem foldlM {f : γ → α → Except ε γ} (hf : ∀ s a, FailsOnly P (f s a)) (s : γ) (as : List α) :
    FailsOnly P (as.foldlM f s) := by
  induction as generalizing s with
  | nil => exact ok s
  | cons a as ih =>
      rw [List.foldlM_cons]
      exact (hf s a).bind fun t _ => ih t

end FailsOnly

end ViewWiring
