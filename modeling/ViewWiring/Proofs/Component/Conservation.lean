import Mathlib
import ViewWiring.Proofs.Component.Validity

namespace ViewWiring.Component

open Address Binding

def eventsAt (r : Selector) (as : List Annotation) : List EventKind :=
  ((declaredSites as).filter fun x => x.1 = r).map Prod.snd

def mutationsAt (r : Selector) (as : List Annotation) : List Mutation :=
  ((declaredMutations as).filter fun x => x.1 = r).map Prod.snd

namespace Trigger

/-- The triggers of one member at one selector. The first event takes all the
mutations; where no event is declared, the default event of the first mutation
takes its place. -/
def shares (r : Selector) : List EventKind → List Mutation → List Trigger
  | e :: es, ms => ⟨r, e, false, ms⟩ :: es.map fun e => ⟨r, e, false, []⟩
  | [], m :: ms => [⟨r, m.op.defaultEvent, true, m :: ms⟩]
  | [], [] => []

variable {r : Selector} {es : List EventKind} {ms : List Mutation} {ts : List Trigger}

theorem join_shares (m : Mutation) : join m r (shares r es ms) = shares r es (ms ++ [m]) := by
  cases es with
  | cons e es => simp [shares, join]
  | nil => cases ms <;> simp [shares, join]

theorem filter_join (m : Mutation) (s r : Selector) (ts : List Trigger) :
    (join m s ts).filter (fun t => t.selector = r) =
      if s = r then join m s (ts.filter fun t => t.selector = r) else ts.filter fun t => t.selector = r := by
  induction ts with
  | nil => by_cases hs : s = r <;> simp [join, hs]
  | cons t ts ih =>
      -- `t` takes the mutation with the filter and without it, or else lets it pass both times
      by_cases ht : t.selector = s
      · subst s
        by_cases hr : t.selector = r <;> simp [join, hr]
      · have hjoin : join m s (t :: ts) = t :: join m s ts := if_neg ht
        by_cases hr : t.selector = r
        · have hs : s ≠ r := fun h => ht (hr.trans h.symm)
          rw [if_neg hs] at ih ⊢
          rw [hjoin, List.filter_cons_of_pos (by simpa using hr), ih,
            List.filter_cons_of_pos (by simpa using hr)]
        · rw [hjoin, List.filter_cons_of_neg (by simpa using hr), ih,
            List.filter_cons_of_neg (by simpa using hr)]

/-- Mutations go to the triggers at their selector as if no others were there. -/
theorem filter_foldl (xs : List (Selector × Mutation))
    (h : ts.filter (fun t => t.selector = r) = shares r es ms) :
    (xs.foldl (fun ts x => join x.2 x.1 ts) ts).filter (fun t => t.selector = r) =
      shares r es (ms ++ (xs.filter fun x => x.1 = r).map Prod.snd) := by
  induction xs generalizing ts ms with
  | nil => simpa using h
  | cons x xs ih =>
      by_cases hx : x.1 = r
      · have hstep : (join x.2 x.1 ts).filter (fun t => t.selector = r) = shares r es (ms ++ [x.2]) := by
          rw [filter_join, if_pos hx, h, hx, join_shares]
        simpa [hx] using ih hstep
      · have hstep : (join x.2 x.1 ts).filter (fun t => t.selector = r) = shares r es ms := by
          rw [filter_join, if_neg hx, h]
        simpa [hx] using ih hstep

theorem filter_declared (as : List Annotation) (r : Selector) :
    (as.filterMap declared?).filter (fun t => t.selector = r) = shares r (eventsAt r as) [] := by
  have hdeclared : as.filterMap declared? = (declaredSites as).map fun x => ⟨x.1, x.2, false, []⟩ := by
    rw [declaredSites, List.map_filterMap]
    congr 1
    funext a
    cases a <;> rfl
  have hshares (es : List EventKind) : shares r es [] = es.map fun e => ⟨r, e, false, []⟩ := by
    cases es <;> rfl
  rw [hdeclared, hshares, List.filter_map, eventsAt, List.map_map]
  apply List.map_congr_left
  intro x hx
  have hr : x.1 = r := by simpa using (List.mem_filter.mp hx).2
  rw [hr]
  rfl

theorem filter_ofAnnotations (as : List Annotation) (r : Selector) :
    (ofAnnotations as).filter (fun t => t.selector = r) = shares r (eventsAt r as) (mutationsAt r as) := by
  rw [ofAnnotations, foldl_joinAnnotation, filter_foldl (declaredMutations as) (filter_declared as r),
    List.nil_append, mutationsAt]

theorem implied_of_mem_shares {t : Trigger} (h : t ∈ shares r es ms) : t.implied = true ↔ es = [] := by
  cases es with
  | cons e es =>
      rcases List.mem_cons.mp h with rfl | h
      · simp
      · obtain ⟨e, _, rfl⟩ := List.mem_map.mp h
        simp
  | nil =>
      cases ms with
      | nil => cases h
      | cons m ms => rw [List.mem_singleton.mp h]; simp

theorem mutations_of_mem_shares {t : Trigger} (h : t ∈ shares r es ms) :
    t.mutations = ms ∨ t.mutations = [] := by
  cases es with
  | cons e es =>
      rcases List.mem_cons.mp h with rfl | h
      · exact .inl rfl
      · obtain ⟨e, _, rfl⟩ := List.mem_map.mp h
        exact .inr rfl
  | nil =>
      cases ms with
      | nil => cases h
      | cons m ms => rw [List.mem_singleton.mp h]; exact .inl rfl

theorem shares_of_no_event {t : Trigger} (h : t ∈ shares r [] ms) :
    shares r [] ms = [t] ∧ ∃ m ms', ms = m :: ms' ∧ t.event = m.op.defaultEvent := by
  cases ms with
  | nil => cases h
  | cons m ms =>
      obtain rfl := List.mem_singleton.mp h
      exact ⟨rfl, m, ms, rfl, rfl⟩

theorem mem_shares_of_mem {as : List Annotation} {t : Trigger} (h : t ∈ ofAnnotations as) :
    t ∈ shares t.selector (eventsAt t.selector as) (mutationsAt t.selector as) := by
  rw [← filter_ofAnnotations]
  exact List.mem_filter.mpr ⟨h, decide_eq_true rfl⟩

end Trigger

open Trigger

structure Member.Reads (m : Member) (a : AnnotationText) (x : Annotation) : Prop where
  kind : x.kind = a.kind
  selector : ∃ text, m.selectorText? a = some text ∧ Selector.parse text = .ok x.selector
  path : ∀ p, x.path? = some p → ∃ text, a.path = some text ∧ Path.parse text = .ok p

structure Conserved (m : Member) (d : Descriptor) : Prop where
  name : d.name = m.name
  kind : d.kind = m.kind
  annotations : List.Forall₂ m.Reads m.annotations d.annotations
  events : (d.triggers.filter fun t => !t.implied).map site = declaredSites d.annotations
  mutations : (carried d.triggers).Perm (declaredMutations d.annotations)
  order : ∀ t ∈ d.triggers, t.mutations = mutationsAt t.selector d.annotations ∨ t.mutations = []
  implied : ∀ t ∈ d.triggers, t.implied = true ↔ eventsAt t.selector d.annotations = []
  alone : ∀ t ∈ d.triggers, t.implied = true →
    (d.triggers.filter fun u => u.selector = t.selector) = [t] ∧
      ∃ m ms, mutationsAt t.selector d.annotations = m :: ms ∧ t.event = m.op.defaultEvent
  first : ∀ r e es, eventsAt r d.annotations = e :: es →
    (d.triggers.filter fun t => t.selector = r) =
      ⟨r, e, false, mutationsAt r d.annotations⟩ :: es.map fun e => ⟨r, e, false, []⟩
  pipelines : ∀ t ∈ d.triggers,
    d.pipeline t = ⟨m.name, if m.kind = .method then some m.name else none, t.mutations⟩

theorem Member.reads_of_annotation? {m : Member} {a : AnnotationText} {x : Annotation}
    (h : m.annotation? a = some x) : m.Reads a x := by
  obtain ⟨hk, hs, hp⟩ := annotation?_parts h
  constructor
  case kind => exact hk
  case selector =>
    obtain ⟨text, htext, hparse⟩ := Option.bind_eq_some_iff.mp hs
    exact ⟨text, htext, toOption_eq_some.mp hparse⟩
  case path =>
    intro p hx
    obtain ⟨text, htext, hparse⟩ := Option.bind_eq_some_iff.mp (hp p hx)
    exact ⟨text, htext, toOption_eq_some.mp hparse⟩

theorem Member.forall_reads {m : Member} {as : List AnnotationText}
    (h : ∀ a ∈ as, (m.annotation? a).isSome) : List.Forall₂ m.Reads as (as.filterMap m.annotation?) := by
  induction as with
  | nil => exact .nil
  | cons a as ih =>
      obtain ⟨x, hx⟩ := Option.isSome_iff_exists.mp (h a List.mem_cons_self)
      rw [List.filterMap_cons_some hx]
      exact .cons (reads_of_annotation? hx) (ih fun b hb => h b (List.mem_cons_of_mem _ hb))

theorem conserved_described {m : Member} (h : m.Readable) : Conserved m m.described := by
  constructor
  case name => rfl
  case kind => rfl
  case annotations => exact Member.forall_reads h.annotations
  case events => exact declared_ofAnnotations m.annotationsRead
  case mutations => exact carried_ofAnnotations m.annotationsRead
  case order => exact fun t ht => mutations_of_mem_shares (mem_shares_of_mem ht)
  case implied => exact fun t ht => implied_of_mem_shares (mem_shares_of_mem ht)
  case alone =>
    intro t ht hi
    have hshare := mem_shares_of_mem ht
    have hnone := (implied_of_mem_shares hshare).mp hi
    have hfilter := filter_ofAnnotations m.annotationsRead t.selector
    rw [hnone] at hshare hfilter
    obtain ⟨hone, hfirst⟩ := shares_of_no_event hshare
    exact ⟨hfilter.trans hone, hfirst⟩
  case first =>
    intro r e es he
    have hfilter := filter_ofAnnotations m.annotationsRead r
    have hevents : eventsAt r m.annotationsRead = e :: es := he
    rw [hevents] at hfilter
    exact hfilter
  case pipelines =>
    intro t _
    simp [Descriptor.pipeline, Descriptor.isMethod, Member.described]

/-- A wiring holds what the members declare, each annotation once. -/
theorem wiring_conserves_annotations {d : Definition} {s : Spec} (h : d.validate = .ok s) :
    List.Forall₂ Conserved d.members s.members ∧
    s.wiring.pipelines.keys.Nodup ∧
    s.wiring.pipelines.Perm (s.members.flatMap fun x => x.triggers.map fun t => (t.site, x.pipeline t)) ∧
    ∀ r e p, s.wiring.pipelineAt r e = some p ↔
      ∃ x ∈ s.members, ∃ t ∈ x.triggers, t.site = (r, e) ∧ x.pipeline t = p := by
  have hc := Spec.compiles_of_validate h
  refine ⟨?_, hc.distinct.sites, hc.gains.pipelines, fun r e p => hc.pipelineAt_eq_some⟩
  rw [hc.members, List.forall₂_map_right_iff, List.forall₂_same]
  exact fun m hm => conserved_described (hc.readable m hm)

def player : Definition :=
  ⟨"Player", [
    ⟨.method, "skip", none, [
      ⟨.mutation .toggle, none, some "playing"⟩,
      ⟨.event .buttonTap, some "deck", none⟩,
      ⟨.event .inputChange, some "deck", none⟩,
      ⟨.mutation .remove, some "deck > queue", some "queue[0]"⟩,
      ⟨.mutation .toggle, some "deck > queue", some "shuffled"⟩]⟩,
    ⟨.field, "title", some .text, [⟨.mutation .bind, some "title", some "title"⟩]⟩]⟩

def playerSpec : Spec :=
  let deck : Selector := ⟨"deck", []⟩
  let queue : Selector := ⟨"deck", ["queue"]⟩
  let title : Selector := ⟨"title", []⟩
  let skip (ms : List Mutation) : Pipeline := ⟨"skip", some "skip", ms⟩
  ⟨"Player", [
    ⟨.method, "skip", none,
      [.mutation .toggle (.key "playing") deck, .event .buttonTap deck, .event .inputChange deck,
        .mutation .remove ⟨"queue", [.index 0]⟩ queue, .mutation .toggle (.key "shuffled") queue],
      [⟨deck, .buttonTap, false, [⟨.toggle, .key "playing"⟩]⟩, ⟨deck, .inputChange, false, []⟩,
        ⟨queue, .buttonTap, true, [⟨.remove, ⟨"queue", [.index 0]⟩⟩, ⟨.toggle, .key "shuffled"⟩]⟩]⟩,
    ⟨.field, "title", some .text, [.mutation .bind (.key "title") title],
      [⟨title, .inputChange, true, [⟨.bind, .key "title"⟩]⟩]⟩],
    ⟨[((deck, .inputChange), skip []), ((deck, .buttonTap), skip [⟨.toggle, .key "playing"⟩]),
      ((queue, .buttonTap), skip [⟨.remove, ⟨"queue", [.index 0]⟩⟩, ⟨.toggle, .key "shuffled"⟩]),
      ((title, .inputChange), ⟨"title", none, [⟨.bind, .key "title"⟩]⟩)], []⟩⟩

theorem player_wiring_conserves_annotations :
    player.validate = .ok playerSpec ∧ List.Forall₂ Conserved player.members playerSpec.members ∧
    playerSpec.wiring.pipelineAt ⟨"deck", ["queue"]⟩ .buttonTap =
      some ⟨"skip", some "skip", [⟨.remove, ⟨"queue", [.index 0]⟩⟩, ⟨.toggle, .key "shuffled"⟩]⟩ := by
  have hs : player.validate = .ok playerSpec := by cbv
  obtain ⟨hmembers, _, _, hat⟩ := wiring_conserves_annotations hs
  refine ⟨hs, hmembers, (hat _ _ _).mpr ?_⟩
  exact ⟨_, List.mem_cons_self, _, List.mem_cons_of_mem _ (List.mem_cons_of_mem _ List.mem_cons_self), rfl, rfl⟩

end ViewWiring.Component
