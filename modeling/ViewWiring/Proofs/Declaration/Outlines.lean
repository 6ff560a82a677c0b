import Mathlib.Data.List.Chain
import ViewWiring.Declaration.TypeName

namespace ViewWiring.Declaration

/-- How many brackets and angle brackets stand open after a token, if so many do
before it. Within brackets the angle brackets compare. -/
def Token.depthsAfter (brackets angles : Nat) : Token → Nat × Nat
  | opening _ => (brackets + 1, angles)
  | closing _ => (brackets - 1, angles)
  | sign '<' _ => (brackets, if brackets = 0 then angles + 1 else angles)
  | sign '>' _ => (brackets, if brackets = 0 then angles - 1 else angles)
  | _ => (brackets, angles)

def depthsFrom (brackets angles : Nat) : List Token → Nat × Nat
  | [] => (brackets, angles)
  -- the head of an arrow closes nothing
  | .sign '-' true :: .sign '>' _ :: ts => depthsFrom brackets angles ts
  | t :: ts => depthsFrom (t.depthsAfter brackets angles).1 (t.depthsAfter brackets angles).2 ts

def Closed (ts : List Token) : Prop := depthsFrom 0 0 ts = (0, 0)

instance (ts : List Token) : Decidable (Closed ts) := inferInstanceAs (Decidable (_ = _))

def Token.opensArguments : Token → Bool
  | sign '<' _ | opening .round => true
  | _ => false

def ArgumentsOnce (ts : List Token) : Prop :=
  (outline ts).IsChain fun t u => t.opensArguments → u.opensArguments = false

instance (ts : List Token) : Decidable (ArgumentsOnce ts) := inferInstanceAs (Decidable (List.IsChain _ _))

section Depths

variable {t : Token} {ts us : List Token} {brackets angles : Nat}

theorem layeredFrom_cons (h : ∀ joined vs, t = .sign '-' true → ts = .sign '>' joined :: vs → False) :
    layeredFrom brackets angles (t :: ts) = (t, brackets = 0 && angles = 0 && !t.isClosing) ::
      layeredFrom (t.depthsAfter brackets angles).1 (t.depthsAfter brackets angles).2 ts := by
  rw [layeredFrom.eq_def]
  split
  · rename_i heq
    cases heq
  · rename_i joined vs heq
    cases heq
    exact absurd rfl (h joined vs rfl)
  · rename_i heq
    cases heq
    fun_cases Token.depthsAfter brackets angles t with
    | case1 b | case2 b => rfl
    | case3 joined | case4 joined => rfl
    | case5 => simp

theorem depthsFrom_cons (h : ∀ joined vs, t = .sign '-' true → ts = .sign '>' joined :: vs → False) :
    depthsFrom brackets angles (t :: ts) =
      depthsFrom (t.depthsAfter brackets angles).1 (t.depthsAfter brackets angles).2 ts :=
  depthsFrom.eq_3 brackets angles t ts h

/-- What begins with no `>` makes no arrow with what stands before it. -/
theorem no_arrow_append (hus : ∀ joined, us.head? ≠ some (.sign '>' joined))
    (h : ∀ joined vs, t = .sign '-' true → ts = .sign '>' joined :: vs → False) :
    ∀ joined vs, t = .sign '-' true → ts ++ us = .sign '>' joined :: vs → False := by
  intro joined vs ht heq
  cases ts with
  | nil => exact hus joined (congrArg List.head? heq)
  | cons u ts => exact h joined ts ht (congrArg (· :: ts) (List.cons.inj heq).1)

theorem depthsFrom_append (hus : ∀ joined, us.head? ≠ some (.sign '>' joined)) :
    depthsFrom brackets angles (ts ++ us) =
      depthsFrom (depthsFrom brackets angles ts).1 (depthsFrom brackets angles ts).2 us := by
  fun_induction depthsFrom brackets angles ts with
  | case1 => rfl
  | case2 b a joined ts ih => exact ih
  | case3 b a t ts h ih => rw [List.cons_append, depthsFrom_cons (no_arrow_append hus h), ih]

theorem layeredFrom_append (hus : ∀ joined, us.head? ≠ some (.sign '>' joined)) :
    layeredFrom brackets angles (ts ++ us) = layeredFrom brackets angles ts ++
      layeredFrom (depthsFrom brackets angles ts).1 (depthsFrom brackets angles ts).2 us := by
  fun_induction depthsFrom brackets angles ts with
  | case1 => rfl
  | case2 b a joined ts ih => simp [layeredFrom, ih]
  | case3 b a t ts h ih =>
      rw [List.cons_append, layeredFrom_cons (no_arrow_append hus h), layeredFrom_cons h, ih, List.cons_append]

theorem outline_append (hts : Closed ts) (hus : ∀ joined, us.head? ≠ some (.sign '>' joined)) :
    outline (ts ++ us) = outline ts ++ outline us := by
  have hdepths : depthsFrom 0 0 ts = (0, 0) := hts
  simp only [outline, layered, layeredFrom_append hus, hdepths, Layered.outline, Layered.tokens,
    List.filter_append, List.map_append]

theorem Closed.append (hts : Closed ts) (hclosed : Closed us)
    (hus : ∀ joined, us.head? ≠ some (.sign '>' joined)) : Closed (ts ++ us) := by
  have hdepths : depthsFrom 0 0 ts = (0, 0) := hts
  rw [Closed, depthsFrom_append hus, hdepths]
  exact hclosed

def Token.isPlain : Token → Bool
  | word _ => true
  | sign c _ => c = ',' || c = '\x27'
  | _ => false

theorem Token.ne_minus_of_isPlain (h : t.isPlain) : t ≠ .sign '-' true := by
  rintro rfl
  cases h

theorem Token.depthsAfter_of_isPlain (h : t.isPlain) : t.depthsAfter brackets angles = (brackets, angles) := by
  cases t with
  | sign c joined =>
      have hc : c = ',' ∨ c = '\x27' := by simpa [isPlain] using h
      rcases hc with rfl | rfl <;> rfl
  | word | quote | literal => rfl
  | opening | closing => cases h

/-- Plain tokens stand as deep as what is before them. -/
theorem layeredFrom_plain (hts : ∀ t ∈ ts, t.isPlain) (h : 0 < angles) (us : List Token) :
    layeredFrom brackets angles (ts ++ us) = ts.map (·, false) ++ layeredFrom brackets angles us := by
  induction ts with
  | nil => rfl
  | cons t ts ih =>
      have ht : t.isPlain := hts t List.mem_cons_self
      have hts' := ih fun u hu => hts u (List.mem_cons_of_mem _ hu)
      have hangles : angles ≠ 0 := Nat.ne_of_gt h
      rw [List.cons_append, layeredFrom_cons fun _ _ hminus _ => Token.ne_minus_of_isPlain ht hminus,
        Token.depthsAfter_of_isPlain ht, hts']
      simp [hangles]

theorem depthsFrom_plain (hts : ∀ t ∈ ts, t.isPlain) (us : List Token) :
    depthsFrom brackets angles (ts ++ us) = depthsFrom brackets angles us := by
  induction ts with
  | nil => rfl
  | cons t ts ih =>
      have ht : t.isPlain := hts t List.mem_cons_self
      rw [List.cons_append, depthsFrom_cons fun _ _ hminus _ => Token.ne_minus_of_isPlain ht hminus,
        Token.depthsAfter_of_isPlain ht]
      exact ih fun u hu => hts u (List.mem_cons_of_mem _ hu)

end Depths

section LastName

variable {t u : Token} {ts us : List Token} {joined : Bool}

theorem cons_of_append_angle (ht : t.isSign '<' = false) (h : ts ++ [.sign '<' joined] = t :: us) :
    ∃ vs, ts = t :: vs ∧ vs ++ [.sign '<' joined] = us := by
  cases ts with
  | nil =>
      obtain ⟨rfl, -⟩ := List.cons.inj h
      cases ht
  | cons v ts =>
      obtain ⟨rfl, hus⟩ := List.cons.inj h
      exact ⟨ts, rfl, hus⟩

theorem cons_cons_of_append_angle (ht : t.isSign '<' = false) (hu : u.isSign '<' = false)
    (h : ts ++ [.sign '<' joined] = t :: u :: us) : ∃ vs, ts = t :: u :: vs := by
  obtain ⟨vs, rfl, hvs⟩ := cons_of_append_angle ht h
  obtain ⟨ws, rfl, -⟩ := cons_of_append_angle hu hvs
  exact ⟨ws, rfl⟩

/-- Arguments after a path leave its last name as it is. -/
theorem lastName?_append_angle (name : String) (ts : List Token) (joined : Bool) :
    lastName? name (ts ++ [.sign '<' joined]) = lastName? name ts := by
  fun_induction lastName? name ts with
  | case1 name i j w ts ih => exact ih
  | case2 name i j ts hword ih =>
      have hnext : ∀ w us, ts ++ [.sign '<' joined] = .word w :: us → False := by
        intro w us heq
        obtain ⟨vs, hvs, -⟩ := cons_of_append_angle rfl heq
        exact hword w vs hvs
      exact (lastName?.eq_2 name i j _ hnext).trans ih
  | case3 name i ts ih => exact ih
  | case4 name ts ih => exact ih
  | case5 name i j ts ih => exact ih
  | case6 name i j ts hround hplus | case7 name i j ts hround hplus =>
      have hnext : ∀ us, ts ++ [.sign '<' joined] = .opening .round :: us → False := by
        intro us heq
        obtain ⟨vs, hvs, -⟩ := cons_of_append_angle rfl heq
        exact hround vs hvs
      have hany : (ts ++ [Token.sign '<' joined]).any (Token.isSign '+') = ts.any (Token.isSign '+') := by
        rw [List.any_append]
        exact Bool.or_false _
      refine (lastName?.eq_6 name i j _ hnext).trans ?_
      rw [hany]
      simp [hplus]
  | case8 name i ts => rfl
  | case9 name i ts => rfl
  | case10 ts name hname hpath hangle hround hcall hto hbang hplus =>
      -- either the arguments come first, or what does is no part of a path as before
      rw [lastName?.eq_def]
      split <;> rename_i heq
      · obtain ⟨vs, hvs⟩ := cons_cons_of_append_angle rfl rfl heq
        exact (hpath _ _ vs hvs).elim
      · obtain ⟨vs, hvs⟩ := cons_cons_of_append_angle rfl rfl heq
        exact (hpath _ _ vs hvs).elim
      · cases ts with
        | nil =>
            obtain ⟨-, rfl⟩ := List.cons.inj heq
            rfl
        | cons t ts => exact (hangle _ ts (congrArg (· :: ts) (List.cons.inj heq).1)).elim
      · obtain ⟨vs, hvs, -⟩ := cons_of_append_angle rfl heq
        exact (hround vs hvs).elim
      · obtain ⟨vs, hvs⟩ := cons_cons_of_append_angle rfl rfl heq
        exact (hto _ _ vs hvs).elim
      · obtain ⟨vs, hvs⟩ := cons_cons_of_append_angle rfl rfl heq
        exact (hto _ _ vs hvs).elim
      · obtain ⟨vs, hvs, -⟩ := cons_of_append_angle rfl heq
        exact (hbang _ vs hvs).elim
      · obtain ⟨vs, hvs, -⟩ := cons_of_append_angle rfl heq
        exact (hplus _ vs hvs).elim
      · rfl

end LastName

end ViewWiring.Declaration
