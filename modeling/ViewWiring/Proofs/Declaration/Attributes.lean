import ViewWiring.Declaration.Block
import ViewWiring.Proofs.Outcome

namespace ViewWiring.Declaration

open ViewWiring.Binding Component

inductive Trailing : List Token → Prop
  | none : Trailing []
  | comma (joined : Bool) : Trailing [.sign ',' joined]

inductive Arguments : List Token → Quote → Option Quote → Prop
  | value {ts : List Token} (q : Quote) (h : Trailing ts) : Arguments (.quote q :: ts) q none
  | selector {ts : List Token} (q r : Quote) (comma equals : Bool) (h : Trailing ts) :
      Arguments (.quote q :: .sign ',' comma :: .word "selector" :: .sign '=' equals :: .quote r :: ts) q (some r)

inductive Attribute.Declares : Attribute → AnnotationText → Prop
  | viewFor {b : Bracket} {ts : List Token} {q : Quote} (h : Arguments ts q none) :
      Declares ⟨[.word (attributeOf .viewFor)], .arguments b ts⟩ ⟨.viewFor, some q.value, none⟩
  | event {e : EventKind} {b : Bracket} {ts : List Token} {q : Quote} (h : Arguments ts q none) :
      Declares ⟨[.word (attributeOf (.event e))], .arguments b ts⟩ ⟨.event e, some q.value, none⟩
  | mutation {op : MutationOp} {b : Bracket} {ts : List Token} {q : Quote} {r : Option Quote}
      (h : Arguments ts q r) :
      Declares ⟨[.word (attributeOf (.mutation op))], .arguments b ts⟩
        ⟨.mutation op, r.map Quote.value, some q.value⟩

theorem attributeOf_inj {k l : AnnotationKind} : attributeOf k = attributeOf l ↔ k = l := by
  constructor
  · intro h
    rcases k with _ | (_ | _ | _) | (_ | _ | _) <;> rcases l with _ | (_ | _ | _) | (_ | _ | _) <;>
      first | rfl | exact absurd h (by decide)
  · exact congrArg attributeOf

theorem mem_allKinds (k : AnnotationKind) : k ∈ AnnotationKind.all := by
  rcases k with _ | (_ | _ | _) | (_ | _ | _) <;> decide

namespace Attribute

theorem kind?_eq_some {a : Attribute} {k : AnnotationKind} :
    a.kind? = some k ↔ a.path = [.word (attributeOf k)] := by
  have hfound {l : AnnotationKind} (h : a.kind? = some l) : a.path = [.word (attributeOf l)] := by
    simpa using List.find?_some h
  constructor
  · exact hfound
  · intro h
    obtain ⟨l, hl⟩ : ∃ l, a.kind? = some l :=
      Option.isSome_iff_exists.mp (List.find?_isSome.mpr ⟨k, mem_allKinds k, decide_eq_true h⟩)
    have hsame : attributeOf l = attributeOf k := by simpa [hfound hl] using h
    rw [hl, attributeOf_inj.mp hsame]

end Attribute

namespace Binding

theorem readSelector_eq_ok {ts : List Token} {s : Option Quote} :
    readSelector ts = .ok s ↔
      ∃ equals r us, ts = .sign '=' equals :: .quote r :: us ∧ Trailing us ∧ some r = s := by
  constructor
  · intro h
    unfold readSelector at h
    split at h <;> cases h
    · exact ⟨_, _, [], rfl, .none, rfl⟩
    · exact ⟨_, _, _, rfl, .comma _, rfl⟩
  · rintro ⟨_, r, us, rfl, hus, rfl⟩
    cases hus <;> rfl

theorem readRest_eq_ok {ts : List Token} {s : Option Quote} : readRest ts = .ok s ↔
    Trailing ts ∧ none = s ∨ ∃ comma equals r us,
      ts = .sign ',' comma :: .word "selector" :: .sign '=' equals :: .quote r :: us ∧
        Trailing us ∧ some r = s := by
  constructor
  · intro h
    unfold readRest at h
    split at h
    · exact .inl ⟨.none, Except.ok.inj h⟩
    · exact .inl ⟨.comma _, Except.ok.inj h⟩
    · rename_i comma w rest
      by_cases hkey : w ∈ keywords
      · simp [hkey] at h
      · by_cases hw : w = "selector"
        · subst w
          simp only [hkey, if_false, ne_eq, not_true_eq_false] at h
          obtain ⟨equals, r, us, rfl, hus, rfl⟩ := readSelector_eq_ok.mp h
          exact .inr ⟨comma, equals, r, us, rfl, hus, rfl⟩
        · simp [hkey, hw] at h
    · cases h
    · cases h
  · rintro (⟨hts, rfl⟩ | ⟨comma, equals, r, us, rfl, hus, rfl⟩)
    · cases hts <;> rfl
    · have hkey : "selector" ∉ keywords := by decide
      simp only [readRest, hkey, if_false, ne_eq, not_true_eq_false]
      exact readSelector_eq_ok.mpr ⟨equals, r, us, rfl, hus, rfl⟩

theorem readArguments_eq_ok {ts : List Token} {q : Quote} {s : Option Quote} :
    readArguments ts = .ok (q, s) ↔ Arguments ts q s := by
  constructor
  · intro h
    unfold readArguments at h
    split at h
    · cases h
    · obtain ⟨r, hr, heq⟩ := map_eq_ok.mp h
      cases heq
      rcases readRest_eq_ok.mp hr with ⟨hts, rfl⟩ | ⟨comma, equals, r, us, rfl, hus, rfl⟩
      · exact .value q hts
      · exact .selector q r comma equals hus
    · cases h
  · intro h
    cases h with
    | value _ hts => exact map_eq_ok.mpr ⟨none, readRest_eq_ok.mpr (.inl ⟨hts, rfl⟩), rfl⟩
    | selector _ r comma equals hus =>
        exact map_eq_ok.mpr ⟨some r, readRest_eq_ok.mpr (.inr ⟨comma, equals, r, _, rfl, hus, rfl⟩), rfl⟩

theorem ofAttribute_eq_ok {k : AnnotationKind} {a : Attribute} {x : Binding} :
    ofAttribute k a = .ok x ↔ ∃ b ts, a.body = .arguments b ts ∧ Arguments ts x.value x.selector ∧
      (x.selector.isSome → k.isMutation) ∧ x.kind = k := by
  rcases a with ⟨path, body⟩
  cases body with
  | none => simp [ofAttribute]
  | value ts => simp [ofAttribute]
  | arguments b ts =>
      rw [ofAttribute, bind_eq_ok]
      constructor
      · rintro ⟨⟨q, s⟩, hargs, h⟩
        dsimp only at h
        by_cases hs : s.isSome && !k.isMutation
        · simp [hs] at h
        · rw [if_neg hs] at h
          obtain rfl := Except.ok.inj h
          refine ⟨b, ts, rfl, readArguments_eq_ok.mp hargs, ?_, rfl⟩
          simpa using hs
      · rintro ⟨_, _, heq, hargs, hs, rfl⟩
        cases heq
        refine ⟨(x.value, x.selector), readArguments_eq_ok.mpr hargs, ?_⟩
        have hno : (x.selector.isSome && !x.kind.isMutation) = false := by
          simpa using hs
        simp only [hno]
        rfl

theorem declares_annotation {k : AnnotationKind} {a : Attribute} {x : Binding}
    (hk : a.kind? = some k) (h : ofAttribute k a = .ok x) : a.Declares x.annotation := by
  obtain ⟨b, ts, hbody, hargs, hs, rfl⟩ := ofAttribute_eq_ok.mp h
  have hpath := Attribute.kind?_eq_some.mp hk
  rcases a with ⟨path, body⟩
  rcases x with ⟨kind, value, selector⟩
  subst hpath hbody
  have hnone (hkind : kind.isMutation = false) : selector = none := by
    simpa [hkind] using hs
  cases kind with
  | viewFor =>
      obtain rfl := hnone rfl
      exact .viewFor hargs
  | event e =>
      obtain rfl := hnone rfl
      exact .event hargs
  | mutation op => exact .mutation hargs

end Binding

theorem bindingsOf_eq_ok {as : List Attribute} {xs : List Binding} :
    bindingsOf as = .ok xs ↔ List.Forall₂ (fun a x => ∃ k, a.kind? = some k ∧ Binding.ofAttribute k a = .ok x)
      (as.filter Attribute.isBinding) xs := by
  rw [bindingsOf, mapM_eq_ok_iff_forall₂]
  induction as generalizing xs with
  | nil => simp
  | cons a as ih =>
      cases hk : a.kind? with
      | none => simpa [hk, Attribute.isBinding] using ih
      | some k => simp [hk, Attribute.isBinding, List.forall₂_cons_left_iff, ih]

theorem bindingsOf_declares {as : List Attribute} {xs : List Binding} (h : bindingsOf as = .ok xs) :
    List.Forall₂ Attribute.Declares (as.filter Attribute.isBinding) (xs.map Binding.annotation) := by
  rw [List.forall₂_map_right_iff]
  exact (bindingsOf_eq_ok.mp h).imp fun _ _ ⟨_, hk, hx⟩ => Binding.declares_annotation hk hx

end ViewWiring.Declaration
