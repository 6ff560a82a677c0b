import ViewWiring.Component.Spec
import ViewWiring.Proofs.Outcome

namespace ViewWiring.Component

open Address Binding

namespace Member

def selectorText? (m : Member) (a : AnnotationText) : Option String :=
  if a.kind.isMutation then a.selector.or m.inherited? else a.selector

def selectorFor? (m : Member) (a : AnnotationText) : Option Selector :=
  (m.selectorText? a).bind fun t => (Selector.parse t).toOption

end Member

def pathFor? (a : AnnotationText) : Option Path := a.path.bind fun t => (Path.parse t).toOption

namespace Member

def annotation? (m : Member) (a : AnnotationText) : Option Annotation :=
  (m.selectorFor? a).bind fun s => Annotation.ofParts? a.kind s (pathFor? a)

def annotationsRead (m : Member) : List Annotation := m.annotations.filterMap m.annotation?

def ShowsCollection (m : Member) : Prop :=
  m.kind = .field ∧ (m.type = none ∨ m.type = some .collection)

structure Readable (m : Member) : Prop where
  annotations : ∀ a ∈ m.annotations, (m.annotation? a).isSome
  views : ∀ a ∈ m.annotations, a.kind = .viewFor → m.ShowsCollection

def described (m : Member) : Descriptor :=
  ⟨m.kind, m.name, if m.annotations.any fun a => a.kind = .viewFor then some .collection else m.type,
    m.annotationsRead, Trigger.ofAnnotations m.annotationsRead⟩

theorem annotation?_isSome (m : Member) (a : AnnotationText) :
    (m.annotation? a).isSome ↔
      (m.selectorFor? a).isSome ∧ (a.kind.isMutation → (pathFor? a).isSome) := by
  rw [annotation?]
  cases m.selectorFor? a with
  | none => simp
  | some s => cases hk : a.kind <;> simp [ Annotation.ofParts?, AnnotationKind.isMutation,
      AnnotationKind.mutation?]

theorem annotation?_parts {m : Member} {a : AnnotationText} {x : Annotation}
    (h : m.annotation? a = some x) :
    x.kind = a.kind ∧ m.selectorFor? a = some x.selector ∧ ∀ p, x.path? = some p → pathFor? a = some p := by
  obtain ⟨s, hs, hx⟩ := Option.bind_eq_some_iff.mp h
  cases hk : a.kind with
  | viewFor | event e =>
      simp only [ Annotation.ofParts?, hk, Option.some.injEq] at hx
      exact hx ▸ ⟨rfl, hs, fun p hp => nomatch hp⟩
  | mutation op =>
      simp only [ Annotation.ofParts?, hk, Option.map_eq_some_iff] at hx
      obtain ⟨q, hq, rfl⟩ := hx
      refine ⟨rfl, hs, fun p hp => ?_⟩
      obtain rfl : q = p := Option.some.inj hp
      exact hq

theorem annotation?_kind {m : Member} {a : AnnotationText} {x : Annotation}
    (h : m.annotation? a = some x) : x.kind = a.kind :=
  (annotation?_parts h).1

theorem readAnnotation_eq_ok (m : Member) (a : AnnotationText) (x : Annotation) :
    m.readAnnotation a = .ok x ↔ m.annotation? a = some x := by
  rcases a with ⟨kind, selector, path⟩
  cases kind with
  | viewFor | event e =>
      cases selector <;>
        simp [ readAnnotation, annotation?, selectorFor?, selectorText?, Annotation.ofParts?, bind_eq_ok,
          mapError_eq_ok, toOption_eq_some, Option.bind_eq_some_iff, AnnotationKind.isMutation,
          AnnotationKind.mutation?, pure, Except.pure]
  | mutation op =>
      cases path with
      | none =>
          cases selector.or m.inherited? <;>
            simp [ readAnnotation, annotation?, pathFor?, Annotation.ofParts?, bind_eq_ok]
      | some text =>
          cases ht : selector.or m.inherited? with
          | none =>
              simp [ readAnnotation, annotation?, selectorFor?, selectorText?, ht, bind_eq_ok,
                AnnotationKind.isMutation, AnnotationKind.mutation?, Functor.map, Except.map]
          | some t =>
              have hswap : (∃ p, Path.parse text = .ok p ∧ ∃ s, Selector.parse t = .ok s ∧
                  Annotation.mutation op p s = x) ↔ ∃ s, Selector.parse t = .ok s ∧
                  ∃ p, Path.parse text = .ok p ∧ Annotation.mutation op p s = x :=
                ⟨fun ⟨p, hp, s, hs, hx⟩ => ⟨s, hs, p, hp, hx⟩, fun ⟨s, hs, p, hp, hx⟩ => ⟨p, hp, s, hs, hx⟩⟩
              simpa [ readAnnotation, annotation?, selectorFor?, selectorText?, pathFor?,
                Annotation.ofParts?, ht, bind_eq_ok, mapError_eq_ok, toOption_eq_some,
                Option.bind_eq_some_iff, AnnotationKind.isMutation, AnnotationKind.mutation?, pure,
                Except.pure] using hswap

theorem any_viewFor_annotationsRead {m : Member}
    (h : ∀ a ∈ m.annotations, (m.annotation? a).isSome) :
    (m.annotationsRead.any fun x => x.kind = .viewFor) = m.annotations.any fun a => a.kind = .viewFor := by
  rw [Bool.eq_iff_iff]
  simp only [List.any_eq_true, annotationsRead, List.mem_filterMap, decide_eq_true_eq]
  constructor
  · rintro ⟨x, ⟨a, ha, hx⟩, hk⟩
    exact ⟨a, ha, annotation?_kind hx ▸ hk⟩
  · rintro ⟨a, ha, hk⟩
    obtain ⟨x, hx⟩ := Option.isSome_iff_exists.mp (h a ha)
    exact ⟨x, ⟨a, ha, hx⟩, (annotation?_kind hx).trans hk⟩

theorem shownType_eq_ok {m : Member} (h : ∀ a ∈ m.annotations, (m.annotation? a).isSome)
    (type : Option FieldType) :
    m.shownType m.annotationsRead = .ok type ↔
      (∀ a ∈ m.annotations, a.kind = .viewFor → m.ShowsCollection) ∧ m.described.type = type := by
  rw [shownType, described, any_viewFor_annotationsRead h]
  by_cases hv : m.annotations.any fun a => a.kind = .viewFor
  · have hall : (∀ a ∈ m.annotations, a.kind = .viewFor → m.ShowsCollection) ↔ m.ShowsCollection := by
      obtain ⟨a, ha, hk⟩ := List.any_eq_true.mp hv
      exact ⟨fun hs => hs a ha (of_decide_eq_true hk), fun hs _ _ _ => hs⟩
    rw [hall, if_pos hv, if_pos hv, ShowsCollection]
    rcases m with ⟨kind, name, ty, as⟩
    rcases kind <;> rcases ty with _ | ty <;> simp
    cases ty <;> simp
  · have hall : ∀ a ∈ m.annotations, a.kind = .viewFor → m.ShowsCollection := by
      intro a ha hk
      exact absurd (List.any_eq_true.mpr ⟨a, ha, decide_eq_true hk⟩) hv
    rw [if_neg hv, if_neg hv, Except.ok.injEq]
    exact ⟨fun ht => ⟨hall, ht⟩, And.right⟩

theorem read_eq_ok (m : Member) (d : Descriptor) : m.read = .ok d ↔ m.Readable ∧ m.described = d := by
  have hmap (as : List Annotation) :
      m.annotations.mapM m.readAnnotation = .ok as ↔
        (∀ a ∈ m.annotations, (m.annotation? a).isSome) ∧ m.annotationsRead = as :=
    mapM_eq_ok m.readAnnotation_eq_ok
  simp only [read, bind_eq_ok, hmap, pure, Except.pure, Except.ok.injEq]
  constructor
  · rintro ⟨as, ⟨ha, rfl⟩, type, htype, rfl⟩
    obtain ⟨hv, rfl⟩ := (shownType_eq_ok ha type).mp htype
    exact ⟨⟨ha, hv⟩, rfl⟩
  · rintro ⟨h, rfl⟩
    exact ⟨_, ⟨h.annotations, rfl⟩, _, (shownType_eq_ok h.annotations _).mpr ⟨h.views, rfl⟩, rfl⟩

theorem selectorFor?_isSome (m : Member) (a : AnnotationText) :
    (m.selectorFor? a).isSome ↔ ∃ t s, m.selectorText? a = some t ∧ Selector.parse t = .ok s := by
  simp only [selectorFor?, Option.isSome_iff_exists, Option.bind_eq_some_iff, toOption_eq_some]
  exact ⟨fun ⟨s, t, h⟩ => ⟨t, s, h⟩, fun ⟨t, s, h⟩ => ⟨s, t, h⟩⟩

theorem mem_annotationsRead {m : Member} {op : MutationOp} {p : Path} {s : Selector} :
    .mutation op p s ∈ m.annotationsRead ↔
      ∃ a ∈ m.annotations, a.kind = .mutation op ∧ pathFor? a = some p ∧ m.selectorFor? a = some s := by
  rw [annotationsRead, List.mem_filterMap]
  constructor
  · rintro ⟨a, ha, h⟩
    obtain ⟨hk, hs, hp⟩ := annotation?_parts h
    exact ⟨a, ha, hk.symm, hp p rfl, hs⟩
  · rintro ⟨a, ha, hk, hp, hs⟩
    exact ⟨a, ha, by simp [annotation?, hs, Annotation.ofParts?, hk, hp]⟩

def firstView? (m : Member) : Option Selector :=
  (m.annotations.find? fun a => a.kind = .viewFor).bind m.selectorFor?

theorem annotation?_repeated {m : Member} {a : AnnotationText} {x : Annotation}
    (h : m.annotation? a = some x) : x.repeated? = if a.kind = .viewFor then m.selectorFor? a else none := by
  obtain ⟨hk, hs, _⟩ := annotation?_parts h
  rw [← hk, hs]
  cases x <;> rfl

theorem firstView?_eq {m : Member} (h : m.Readable) : m.firstView? = m.described.repeated? := by
  have hlist (as : List AnnotationText) (has : ∀ a ∈ as, (m.annotation? a).isSome) :
      (as.find? fun a => a.kind = .viewFor).bind m.selectorFor? =
        (as.filterMap m.annotation?).findSome? Annotation.repeated? := by
    induction as with
    | nil => rfl
    | cons a as ih =>
        obtain ⟨x, hx⟩ := Option.isSome_iff_exists.mp (has a List.mem_cons_self)
        have hrest := ih fun b hb => has b (List.mem_cons_of_mem _ hb)
        have hrep := annotation?_repeated hx
        rw [List.filterMap_cons_some hx, List.find?_cons, List.findSome?_cons, hrep]
        by_cases hk : a.kind = .viewFor
        · obtain ⟨s, hs⟩ : ∃ s, m.selectorFor? a = some s :=
            Option.isSome_iff_exists.mp ((m.annotation?_isSome a).mp (has a List.mem_cons_self)).1
          simp [hk, hs]
        · simpa [hk] using hrest
  exact hlist m.annotations h.annotations

end Member

end ViewWiring.Component
