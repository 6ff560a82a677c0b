import Mathlib
import ViewWiring.Proofs.Component.Validity

namespace ViewWiring.Binding

inductive Role
  | view | event | mutation
  deriving DecidableEq

def AnnotationKind.role : AnnotationKind → Role
  | viewFor => .view
  | event _ => .event
  | mutation _ => .mutation

end ViewWiring.Binding

namespace ViewWiring.Component

open Address Binding

/-- The same member with its annotations in another order, but for the order
within each group. -/
structure Member.Interleaves (m m' : Member) : Prop where
  kind : m'.kind = m.kind
  name : m'.name = m.name
  type : m'.type = m.type
  annotations : ∀ r, (m'.annotations.filter fun a => a.kind.role = r) =
    m.annotations.filter fun a => a.kind.role = r

structure Definition.Rearranges (d d' : Definition) : Prop where
  name : d'.name = d.name
  members : ∃ ms, d.members.Perm ms ∧ List.Forall₂ Member.Interleaves ms d'.members

namespace Member.Interleaves

variable {m m' : Member}

theorem symm (h : m.Interleaves m') : m'.Interleaves m :=
  ⟨h.kind.symm, h.name.symm, h.type.symm, fun r => (h.annotations r).symm⟩

theorem mem_iff (h : m.Interleaves m') (a : AnnotationText) : a ∈ m'.annotations ↔ a ∈ m.annotations := by
  have hmem := congrArg (a ∈ ·) (h.annotations a.kind.role)
  simpa using hmem

theorem inherited_eq (h : m.Interleaves m') : m'.inherited? = m.inherited? := by
  have hrole (a : AnnotationText) : a.kind.event?.isSome = decide (a.kind.role = .event) := by
    cases hk : a.kind <;> simp [AnnotationKind.event?, AnnotationKind.role]
  simp only [inherited?, hrole, ← List.head?_filter, h.annotations]

theorem annotation_eq (h : m.Interleaves m') : m'.annotation? = m.annotation? := by
  funext a
  simp only [annotation?, selectorFor?, selectorText?, h.inherited_eq]

theorem showsCollection (h : m.Interleaves m') (hm : m.ShowsCollection) : m'.ShowsCollection := by
  rwa [ShowsCollection, h.kind, h.type]

theorem readable (h : m.Interleaves m') (hm : m.Readable) : m'.Readable where
  annotations a ha := by
    rw [h.annotation_eq]
    exact hm.annotations a ((h.mem_iff a).mp ha)
  views a ha hk := h.showsCollection (hm.views a ((h.mem_iff a).mp ha) hk)

/-- What is read off the annotations of one group alone stays the same. -/
theorem filterMap_eq (h : m.Interleaves m') {β : Type} {f : Annotation → Option β} (r : Role)
    (hf : ∀ x, x.kind.role ≠ r → f x = none) :
    m'.annotationsRead.filterMap f = m.annotationsRead.filterMap f := by
  have hgroup (as : List AnnotationText) :
      (as.filterMap m.annotation?).filterMap f =
        ((as.filter fun a => a.kind.role = r).filterMap m.annotation?).filterMap f := by
    rw [List.filterMap_filter, List.filterMap_filterMap, List.filterMap_filterMap]
    congr 1
    funext a
    split
    · rfl
    · rename_i ha
      cases hx : m.annotation? a with
      | none => rfl
      | some x =>
          have hkind : x.kind = a.kind := annotation?_kind hx
          exact hf x (by simpa [hkind] using ha)
  rw [annotationsRead, annotationsRead, h.annotation_eq, hgroup m'.annotations, hgroup m.annotations,
    h.annotations]

theorem triggers_eq (h : m.Interleaves m') :
    Trigger.ofAnnotations m'.annotationsRead = Trigger.ofAnnotations m.annotationsRead := by
  have hevents : m'.annotationsRead.filterMap Trigger.declared? =
      m.annotationsRead.filterMap Trigger.declared? := by
    apply h.filterMap_eq .event
    intro x hx
    cases x <;> simp_all [ Annotation.kind, AnnotationKind.role, Trigger.declared?]
  have hmutations : declaredMutations m'.annotationsRead = declaredMutations m.annotationsRead := by
    apply h.filterMap_eq .mutation
    intro x hx
    cases x <;> simp_all [ Annotation.kind, AnnotationKind.role]
  rw [Trigger.ofAnnotations, Trigger.ofAnnotations, Trigger.foldl_joinAnnotation,
    Trigger.foldl_joinAnnotation, hevents, hmutations]

theorem repeated_eq (h : m.Interleaves m') : m'.described.repeated? = m.described.repeated? := by
  have hviews : m'.annotationsRead.filterMap Annotation.repeated? =
      m.annotationsRead.filterMap Annotation.repeated? := by
    apply h.filterMap_eq .view
    intro x hx
    cases x <;> simp_all [ Annotation.kind, AnnotationKind.role, Annotation.repeated?]
  rw [Descriptor.repeated?, Descriptor.repeated?, ← List.head?_filterMap, ← List.head?_filterMap]
  exact congrArg List.head? hviews

end Member.Interleaves

/-- What a descriptor says of its member, whatever the order of its annotations. -/
def Descriptor.kept (x : Descriptor) : List Trigger × MemberKind × Option FieldType :=
  (x.triggers, x.kind, x.type)

structure Descriptor.Alike (x x' : Descriptor) : Prop where
  kind : x'.kind = x.kind
  name : x'.name = x.name
  type : x'.type = x.type
  triggers : x'.triggers = x.triggers
  repeated : x'.repeated? = x.repeated?

theorem Member.Interleaves.alike {m m' : Member} (h : m.Interleaves m') :
    m.described.Alike m'.described := by
  constructor
  case kind => exact h.kind
  case name => exact h.name
  case type =>
    have hany : (m'.annotations.any fun a => a.kind = .viewFor) =
        m.annotations.any fun a => a.kind = .viewFor := by
      rw [Bool.eq_iff_iff]
      simp only [List.any_eq_true, h.mem_iff]
    rw [described, described, hany, h.type]
  case triggers => exact h.triggers_eq
  case repeated => exact h.repeated_eq

namespace Descriptor.Alike

variable {x x' : Descriptor}

theorem connections_eq (h : x.Alike x') : x'.connections = x.connections := by
  have hpipeline : x'.pipeline = x.pipeline := by
    funext t
    simp [pipeline, isMethod, h.name, h.kind]
  rw [connections, connections, hpipeline, h.triggers]

theorem repetitions_eq (h : x.Alike x') : x'.repetitions = x.repetitions := by
  rw [repetitions, repetitions, repetition, repetition, h.repeated, h.name]

theorem kept_eq (h : x.Alike x') : x'.kept = x.kept := by
  rw [kept, kept, h.triggers, h.kind, h.type]

end Descriptor.Alike

structure Spec.Agrees (s s' : Spec) : Prop where
  wiring : s'.wiring = s.wiring
  members : ∀ name, (s'.member? name).map Descriptor.kept = (s.member? name).map Descriptor.kept

namespace Definition.Rearranges

variable {d d' : Definition}

theorem symm (h : d.Rearranges d') : d'.Rearranges d := by
  obtain ⟨ms, hperm, hms⟩ := h.members
  obtain ⟨ns, hns, hperm'⟩ := List.perm_comp_forall₂ hperm hms
  exact ⟨h.name.symm, ns, hperm'.symm, (hns.imp fun _ _ hm => hm.symm).flip⟩

theorem exists_mem (h : d.Rearranges d') {m : Member} (hm : m ∈ d.members) :
    ∃ m' ∈ d'.members, m.Interleaves m' := by
  obtain ⟨ms, hperm, hms⟩ := h.members
  obtain ⟨i, hi, rfl⟩ := List.mem_iff_getElem.mp (hperm.mem_iff.mp hm)
  have hi' : i < d'.members.length := hms.length_eq ▸ hi
  exact ⟨d'.members[i], List.getElem_mem hi', hms.get hi hi'⟩

theorem map_perm (h : d.Rearranges d') {β : Type} {f : Member → β}
    (hf : ∀ m m', m.Interleaves m' → f m' = f m) : (d'.members.map f).Perm (d.members.map f) := by
  obtain ⟨ms, hperm, hms⟩ := h.members
  have hsame : List.Forall₂ (· = ·) (ms.map f) (d'.members.map f) := by
    rw [List.forall₂_map_left_iff, List.forall₂_map_right_iff]
    exact hms.imp fun m m' hm => (hf m m' hm).symm
  rw [List.forall₂_eq_eq_eq] at hsame
  exact hsame ▸ (hperm.map f).symm

theorem connections_perm (h : d.Rearranges d') :
    (allConnections (d'.members.map Member.described)).Perm
      (allConnections (d.members.map Member.described)) := by
  have hlists := h.map_perm fun _ _ hm => hm.alike.connections_eq
  simpa [allConnections, List.flatMap_def, Function.comp_def] using hlists.flatten

theorem repetitions_perm (h : d.Rearranges d') :
    (allRepetitions (d'.members.map Member.described)).Perm
      (allRepetitions (d.members.map Member.described)) := by
  have hlists := h.map_perm fun _ _ hm => hm.alike.repetitions_eq
  simpa [allRepetitions, List.flatMap_def, Function.comp_def] using hlists.flatten

theorem compilable (h : d.Rearranges d') (hd : Spec.Compilable d.members) :
    Spec.Compilable d'.members := by
  constructor
  case readable =>
    intro m' hm'
    obtain ⟨m, hm, hback⟩ := h.symm.exists_mem hm'
    exact hback.symm.readable (hd.readable m hm)
  case names => exact (h.map_perm fun _ _ hm => hm.name).nodup_iff.mpr hd.names
  case sites =>
    have hkeys := h.connections_perm.map Prod.fst
    rw [← Entries.keys, ← Entries.keys, Spec.sites_described, Spec.sites_described] at hkeys
    exact hkeys.nodup_iff.mpr hd.sites
  case scopes =>
    have hkeys := h.repetitions_perm.map Prod.fst
    rw [← Entries.keys, ← Entries.keys, Spec.scopes_described, Spec.scopes_described] at hkeys
    exact hkeys.nodup_iff.mpr hd.scopes

variable {s s' : Spec}

theorem wiring_eq (h : d.Rearranges d') (hs : d.members.foldlM Spec.add ⟨d.name, [], .empty⟩ = .ok s)
    (hs' : d'.members.foldlM Spec.add ⟨d'.name, [], .empty⟩ = .ok s') : s'.wiring = s.wiring := by
  have hc := Spec.compiles_foldl hs
  have hc' := Spec.compiles_foldl hs'
  have hordered := Spec.ordered_foldl hs
  have hordered' := Spec.ordered_foldl hs'
  -- both tables are in the order of their keys, so what was entered decides what they are
  have hpipelines : s'.wiring.pipelines = s.wiring.pipelines := by
    apply hordered'.pipelines.eq_of_perm hordered.pipelines
    refine hc'.gains.pipelines.trans (.trans ?_ hc.gains.pipelines.symm)
    rw [hc.members, hc'.members]
    exact h.connections_perm
  have hrepeats : s'.wiring.repeats = s.wiring.repeats := by
    apply hordered'.repeats.eq_of_perm hordered.repeats
    refine hc'.gains.repeats.trans (.trans ?_ hc.gains.repeats.symm)
    rw [hc.members, hc'.members]
    exact h.repetitions_perm
  exact congrArg₂ Wiring.mk hpipelines hrepeats

theorem exists_alike (h : d.Rearranges d') (hc : s.Compiles d.members) {x : Descriptor}
    (hc' : s'.Compiles d'.members) (hx : x ∈ s.members) : ∃ x' ∈ s'.members, x.Alike x' := by
  rw [hc.members] at hx
  obtain ⟨m, hm, rfl⟩ := List.mem_map.mp hx
  obtain ⟨m', hm', hback⟩ := h.exists_mem hm
  rw [hc'.members]
  exact ⟨m'.described, List.mem_map_of_mem hm', hback.alike⟩

theorem member?_alike (h : d.Rearranges d') (hc : s.Compiles d.members) (hc' : s'.Compiles d'.members)
    {name : String} {x : Descriptor} (hx : s.member? name = some x) :
    ∃ x', s'.member? name = some x' ∧ x.Alike x' := by
  obtain ⟨hmem, rfl⟩ := hc.member?_eq_some.mp hx
  obtain ⟨x', hx', halike⟩ := h.exists_alike hc hc' hmem
  exact ⟨x', hc'.member?_eq_some.mpr ⟨hx', halike.name⟩, halike⟩

theorem supplied (h : d.Rearranges d') (hc : s.Compiles d.members) (hc' : s'.Compiles d'.members)
    (hwiring : s'.wiring = s.wiring) (hs : s.Supplied) : s'.Supplied := by
  intro x' hx' t ht m hm
  obtain ⟨x, hx, halike⟩ := h.symm.exists_alike hc' hc hx'
  rw [hwiring]
  exact hs x hx t (halike.triggers ▸ ht) m hm

theorem exists_validate (h : d.Rearranges d') (hs : d.validate = .ok s) :
    ∃ s', d'.validate = .ok s' ∧ s.Agrees s' := by
  obtain ⟨hfold, hsupplied⟩ := validate_eq_ok.mp hs
  have hc := Spec.compiles_foldl hfold
  obtain ⟨s', hfold'⟩ := Spec.exists_compiles d'.name (h.compilable hc.compilable)
  have hc' := Spec.compiles_foldl hfold'
  have hwiring : s'.wiring = s.wiring := h.wiring_eq hfold hfold'
  refine ⟨s', validate_eq_ok.mpr ⟨hfold', h.supplied hc hc' hwiring hsupplied⟩, hwiring, ?_⟩
  intro name
  ext v
  simp only [Option.map_eq_some_iff]
  constructor
  · rintro ⟨x', hx', rfl⟩
    obtain ⟨x, hx, halike⟩ := h.symm.member?_alike hc' hc hx'
    exact ⟨x, hx, halike.kept_eq⟩
  · rintro ⟨x, hx, rfl⟩
    obtain ⟨x', hx', halike⟩ := h.member?_alike hc hc' hx
    exact ⟨x', hx', halike.kept_eq⟩

end Definition.Rearranges

/-- The order of members does not matter to validation, nor does that of a
member's annotations but for the order of its views, of its events, and of its
mutations. -/
theorem validation_ignores_arrangement {d d' : Definition} (h : d.Rearranges d') :
    match d.validate with
    | .ok s => ∃ s', d'.validate = .ok s' ∧ s.Agrees s'
    | .error _ => ∃ e, d'.validate = .error e := by
  cases hd : d.validate with
  | ok s => exact h.exists_validate hd
  | error e =>
      cases hd' : d'.validate with
      | error e' => exact ⟨e', rfl⟩
      | ok s' =>
          obtain ⟨s, hs, _⟩ := h.symm.exists_validate hd'
          rw [hd] at hs
          cases hs

def cart : Definition :=
  ⟨"Cart", [
    ⟨.method, "drop", none, [
      ⟨.mutation .remove, none, some "items[i]"⟩,
      ⟨.mutation .toggle, none, some "dirty"⟩,
      ⟨.event .buttonTap, some "cart > drop", none⟩]⟩,
    ⟨.field, "items", some .collection, [
      ⟨.viewFor, some "cart", none⟩,
      ⟨.mutation .bind, some "first", some "items[0]"⟩]⟩]⟩

def cartTurned : Definition :=
  ⟨"Cart", [
    ⟨.field, "items", some .collection, [
      ⟨.mutation .bind, some "first", some "items[0]"⟩,
      ⟨.viewFor, some "cart", none⟩]⟩,
    ⟨.method, "drop", none, [
      ⟨.mutation .remove, none, some "items[i]"⟩,
      ⟨.event .buttonTap, some "cart > drop", none⟩,
      ⟨.mutation .toggle, none, some "dirty"⟩]⟩]⟩

def cartSpec : Spec :=
  let drop : Selector := ⟨"cart", ["drop"]⟩
  let first : Selector := ⟨"first", []⟩
  let whole : Selector := ⟨"cart", []⟩
  let item : Mutation := ⟨.remove, ⟨"items", [.placeholder "i"]⟩⟩
  let dirty : Mutation := ⟨.toggle, .key "dirty"⟩
  let head : Mutation := ⟨.bind, ⟨"items", [.index 0]⟩⟩
  ⟨"Cart", [
    ⟨.method, "drop", none,
      [.mutation .remove item.path drop, .mutation .toggle dirty.path drop, .event .buttonTap drop],
      [⟨drop, .buttonTap, false, [item, dirty]⟩]⟩,
    ⟨.field, "items", some .collection, [.viewFor whole, .mutation .bind head.path first],
      [⟨first, .inputChange, true, [head]⟩]⟩],
    ⟨[((drop, .buttonTap), ⟨"drop", some "drop", [item, dirty]⟩),
      ((first, .inputChange), ⟨"items", none, [head]⟩)], [(whole, ⟨"items", .key "items"⟩)]⟩⟩

theorem cart_rearranges : cart.Rearranges cartTurned where
  name := rfl
  members := by
    refine ⟨_, .swap _ _ [], .cons ?_ (.cons ?_ .nil)⟩ <;>
      exact ⟨rfl, rfl, rfl, fun r => by cases r <;> rfl⟩

theorem cart_validation_ignores_arrangement :
    cart.validate = .ok cartSpec ∧ cart.Rearranges cartTurned ∧
    ∃ s, cartTurned.validate = .ok s ∧ cartSpec.Agrees s := by
  have hs : cart.validate = .ok cartSpec := by cbv
  have hall := validation_ignores_arrangement cart_rearranges
  rw [hs] at hall
  exact ⟨hs, cart_rearranges, hall⟩

end ViewWiring.Component
