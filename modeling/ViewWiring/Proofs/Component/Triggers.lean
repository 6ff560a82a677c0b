import Mathlib.Data.List.Basic
import ViewWiring.Component.Trigger

namespace ViewWiring.Component

open Address Binding

namespace Trigger

def site (t : Trigger) : Site := (t.selector, t.event)

def MutatesAt (ts : List Trigger) (s : Selector) (m : Mutation) : Prop :=
  ∃ t ∈ ts, t.selector = s ∧ m ∈ t.mutations

def carried (ts : List Trigger) : List (Selector × Mutation) :=
  ts.flatMap fun t => t.mutations.map (t.selector, ·)

end Trigger

def declaredSites (as : List Annotation) : List Site :=
  as.filterMap fun
    | .event e s => some (s, e)
    | _ => none

def declaredMutations (as : List Annotation) : List (Selector × Mutation) :=
  as.filterMap fun
    | .mutation op p s => some (s, ⟨op, p⟩)
    | _ => none

/-- The sites that mutations imply: one at each selector that is not taken,
with the default event of the first mutation there. -/
def impliedSites (taken : List Selector) : List Annotation → List Site
  | [] => []
  | .mutation op _ s :: as =>
      if s ∈ taken then impliedSites taken as
      else (s, op.defaultEvent) :: impliedSites (s :: taken) as
  | _ :: as => impliedSites taken as

def sitesOf (as : List Annotation) : List Site :=
  declaredSites as ++ impliedSites ((declaredSites as).map Prod.fst) as

theorem impliedSites_congr {taken taken' : List Selector} (h : ∀ s, s ∈ taken ↔ s ∈ taken')
    (as : List Annotation) : impliedSites taken as = impliedSites taken' as := by
  induction as generalizing taken taken' with
  | nil => rfl
  | cons a as ih =>
      cases a with
      | viewFor s | event e s => exact ih h
      | mutation op p s =>
          have hs : ∀ r, r ∈ s :: taken ↔ r ∈ s :: taken' := by simp [h]
          simp only [impliedSites, h s, ih h, ih hs]

namespace Trigger

def outline (t : Trigger) : Site × Bool := (t.site, t.implied)

theorem join_of_mem {m : Mutation} {s : Selector} {ts : List Trigger} (h : s ∈ ts.map selector) :
    (join m s ts).map outline = ts.map outline := by
  induction ts with
  | nil => simp at h
  | cons t ts ih =>
      by_cases ht : t.selector = s
      · simp [join, ht, outline, site]
      · have hs : s ∈ ts.map selector := (List.mem_cons.mp h).resolve_left (Ne.symm ht)
        simp [join, ht, ih hs]

theorem join_of_not_mem {m : Mutation} {s : Selector} {ts : List Trigger} (h : s ∉ ts.map selector) :
    join m s ts = ts ++ [⟨s, m.op.defaultEvent, true, [m]⟩] := by
  induction ts with
  | nil => rfl
  | cons t ts ih =>
      rw [List.map_cons, List.mem_cons, not_or] at h
      simp [join, Ne.symm h.1, ih h.2]

theorem mutatesAt_iff {ts : List Trigger} {s : Selector} {m : Mutation} :
    MutatesAt ts s m ↔ (s, m) ∈ carried ts := by
  simp only [MutatesAt, carried, List.mem_flatMap, List.mem_map, Prod.mk.injEq]
  constructor
  · rintro ⟨t, ht, hs, hm⟩
    exact ⟨t, ht, m, hm, hs, rfl⟩
  · rintro ⟨t, ht, _, hm, hs, rfl⟩
    exact ⟨t, ht, hs, hm⟩

theorem carried_cons (t : Trigger) (ts : List Trigger) :
    carried (t :: ts) = t.mutations.map (t.selector, ·) ++ carried ts :=
  List.flatMap_cons

theorem carried_join (m : Mutation) (s : Selector) (ts : List Trigger) :
    (carried (join m s ts)).Perm (carried ts ++ [(s, m)]) := by
  induction ts with
  | nil => exact .refl _
  | cons t ts ih =>
      rw [carried_cons, List.append_assoc, join]
      split
      · rename_i ht
        have hown : carried ({ t with mutations := t.mutations ++ [m] } :: ts) =
            t.mutations.map (t.selector, ·) ++ ([(s, m)] ++ carried ts) := by
          simp [carried_cons, ht]
        rw [hown]
        exact List.perm_append_comm.append_left _
      · rw [carried_cons]
        exact ih.append_left _

/-- Mutations that join one after the other are all carried, none of them twice. -/
theorem carried_foldl (xs : List (Selector × Mutation)) (ts : List Trigger) :
    (carried (xs.foldl (fun ts x => join x.2 x.1 ts) ts)).Perm (carried ts ++ xs) := by
  induction xs generalizing ts with
  | nil => simp
  | cons x xs ih =>
      have hstep : (carried (join x.2 x.1 ts) ++ xs).Perm (carried ts ++ [x] ++ xs) :=
        (carried_join x.2 x.1 ts).append_right xs
      rw [List.append_assoc] at hstep
      exact (ih (join x.2 x.1 ts)).trans hstep

theorem foldl_joinAnnotation (as : List Annotation) (ts : List Trigger) :
    as.foldl joinAnnotation ts = (declaredMutations as).foldl (fun ts x => join x.2 x.1 ts) ts := by
  induction as generalizing ts with
  | nil => rfl
  | cons a as ih => cases a <;> exact ih _

end Trigger

open Trigger

theorem outline_foldl (as : List Annotation) (ts : List Trigger) :
    (as.foldl joinAnnotation ts).map outline =
      ts.map outline ++ (impliedSites (ts.map selector) as).map fun x => (x, true) := by
  induction as generalizing ts with
  | nil => simp [impliedSites]
  | cons a as ih =>
      cases a with
      | viewFor s | event e s => exact ih ts
      | mutation op p s =>
          rw [List.foldl_cons, ih, joinAnnotation]
          -- a mutation opens a trigger only where none stands, which is what `taken` keeps count of
          by_cases hs : s ∈ ts.map selector
          · have ho := @join_of_mem ⟨op, p⟩ s ts hs
            have hsel : (join ⟨op, p⟩ s ts).map selector = ts.map selector := by
              have h := congrArg (List.map fun x => x.1.1) ho
              simpa only [List.map_map, Function.comp_def, outline, site] using h
            simp only [ho, hsel, impliedSites, hs, if_true]
          · have hperm : ∀ r, r ∈ ts.map selector ++ [s] ↔ r ∈ s :: ts.map selector := by
              simp [or_comm]
            simp only [join_of_not_mem hs, List.map_append, List.map_cons, List.map_nil,
              impliedSites_congr hperm, impliedSites, hs, if_false, outline, site, List.append_assoc,
              List.cons_append, List.nil_append]

theorem outline_ofAnnotations (as : List Annotation) :
    (ofAnnotations as).map outline = (declaredSites as).map (fun x => (x, false)) ++
      (impliedSites ((declaredSites as).map Prod.fst) as).map fun x => (x, true) := by
  have hd : (as.filterMap declared?).map outline = (declaredSites as).map fun x => (x, false) := by
    rw [declaredSites, List.map_filterMap, List.map_filterMap]
    congr 1
    funext a
    cases a <;> rfl
  have hs : (as.filterMap declared?).map selector = (declaredSites as).map Prod.fst := by
    have h := congrArg (List.map fun x => x.1.1) hd
    simpa only [List.map_map, Function.comp_def, outline, site] using h
  rw [ofAnnotations, outline_foldl, hd, hs]

theorem site_filter (p : Bool → Bool) (ts : List Trigger) :
    (ts.filter fun t => p t.implied).map site = ((ts.map outline).filter fun x => p x.2).map Prod.fst := by
  rw [List.filter_map, List.map_map]
  rfl

theorem declared_ofAnnotations (as : List Annotation) :
    ((ofAnnotations as).filter fun t => !t.implied).map site = declaredSites as := by
  rw [site_filter, outline_ofAnnotations]
  simp [List.filter_map, Function.comp_def]

theorem implied_ofAnnotations (as : List Annotation) :
    ((ofAnnotations as).filter implied).map site = impliedSites ((declaredSites as).map Prod.fst) as := by
  have hsites := site_filter id (ofAnnotations as)
  rw [outline_ofAnnotations] at hsites
  simpa [List.filter_map, Function.comp_def] using hsites

theorem site_ofAnnotations (as : List Annotation) : (ofAnnotations as).map site = sitesOf as := by
  have h := congrArg (List.map Prod.fst) (outline_ofAnnotations as)
  simpa [List.map_map, Function.comp_def, outline, sitesOf] using h

theorem mem_declaredSites {as : List Annotation} {s : Selector} {e : EventKind} :
    (s, e) ∈ declaredSites as ↔ .event e s ∈ as := by
  rw [declaredSites, List.mem_filterMap]
  constructor
  · rintro ⟨a, ha, h⟩
    cases a with
    | viewFor r | mutation op p r => cases h
    | event e' r => cases h; exact ha
  · exact fun h => ⟨_, h, rfl⟩

/-- An event annotation declares a trigger; any other trigger is implied. -/
theorem exists_site_ofAnnotations (as : List Annotation) (s : Selector) (e : EventKind) :
    (∃ t ∈ ofAnnotations as, t.site = (s, e)) ↔
      .event e s ∈ as ∨ ∃ t ∈ ofAnnotations as, t.implied = true ∧ t.site = (s, e) := by
  have hmem (b : Bool) : (∃ t ∈ ofAnnotations as, t.outline = ((s, e), b)) ↔
      ((s, e), b) ∈ (ofAnnotations as).map outline := List.mem_map.symm
  have hdeclared : (∃ t ∈ ofAnnotations as, t.outline = ((s, e), false)) ↔ .event e s ∈ as := by
    rw [hmem, outline_ofAnnotations]
    simp [mem_declaredSites]
  rw [← hdeclared]
  constructor
  · rintro ⟨t, ht, hs⟩
    cases hi : t.implied with
    | true => exact .inr ⟨t, ht, hi, hs⟩
    | false => exact .inl ⟨t, ht, by rw [outline, hs, hi]⟩
  · rintro (⟨t, ht, ho⟩ | ⟨t, ht, _, hs⟩)
    · exact ⟨t, ht, congrArg Prod.fst ho⟩
    · exact ⟨t, ht, hs⟩

theorem mem_declaredMutations {as : List Annotation} {s : Selector} {m : Mutation} :
    (s, m) ∈ declaredMutations as ↔ .mutation m.op m.path s ∈ as := by
  rw [declaredMutations, List.mem_filterMap]
  constructor
  · rintro ⟨a, ha, h⟩
    cases a with
    | viewFor r | event e r => cases h
    | mutation op p r => cases h; exact ha
  · exact fun h => ⟨_, h, rfl⟩

theorem carried_declared (as : List Annotation) : carried (as.filterMap declared?) = [] := by
  rw [carried, List.flatMap_eq_nil_iff]
  intro t ht
  obtain ⟨a, _, ha⟩ := List.mem_filterMap.mp ht
  cases a <;> simp only [declared?, Option.some.injEq, reduceCtorEq] at ha
  rw [← ha, List.map_nil]

/-- The triggers of a member carry what it declares, each mutation once. -/
theorem carried_ofAnnotations (as : List Annotation) :
    (carried (ofAnnotations as)).Perm (declaredMutations as) := by
  have h := carried_foldl (declaredMutations as) (as.filterMap declared?)
  rwa [carried_declared, List.nil_append, ← foldl_joinAnnotation] at h

theorem mutatesAt_ofAnnotations (as : List Annotation) (s : Selector) (m : Mutation) :
    MutatesAt (ofAnnotations as) s m ↔ .mutation m.op m.path s ∈ as := by
  rw [mutatesAt_iff, (carried_ofAnnotations as).mem_iff, mem_declaredMutations]

/-- Annotations set something off unless all of them are views. -/
theorem ofAnnotations_eq_nil (as : List Annotation) :
    ofAnnotations as = [] ↔ ∀ a ∈ as, a.kind = .viewFor := by
  constructor
  · intro h a ha
    cases a with
    | viewFor s => rfl
    | event e s =>
        obtain ⟨t, ht, _⟩ := (exists_site_ofAnnotations as s e).mpr (.inl ha)
        simp [h] at ht
    | mutation op p s =>
        obtain ⟨t, ht, _⟩ := (mutatesAt_ofAnnotations as s ⟨op, p⟩).mpr ha
        simp [h] at ht
  · intro h
    have hview (a) (ha : a ∈ as) : ∃ s, a = .viewFor s := by
      cases a with
      | viewFor s => exact ⟨s, rfl⟩
      | event | mutation => cases h _ ha
    have hevents : as.filterMap declared? = [] := by
      rw [List.filterMap_eq_nil_iff]
      intro a ha
      obtain ⟨s, rfl⟩ := hview a ha
      rfl
    have hmutations : declaredMutations as = [] := by
      rw [declaredMutations, List.filterMap_eq_nil_iff]
      intro a ha
      obtain ⟨s, rfl⟩ := hview a ha
      rfl
    rw [ofAnnotations, foldl_joinAnnotation, hevents, hmutations, List.foldl_nil]

end ViewWiring.Component
