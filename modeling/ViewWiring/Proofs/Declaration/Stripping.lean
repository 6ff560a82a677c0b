import ViewWiring.Proofs.Declaration.Constructors

namespace ViewWiring.Declaration

open ViewWiring.Binding Component

/-- What is wrong with a binding attribute on its own: its arguments are not those of a
binding, or an event or a view is given a selector besides the one that it has. -/
inductive Attribute.Flawed : Attribute → Prop
  | malformed {a : Attribute} (h : a.isBinding)
      (hno : ∀ b ts q s, a.body = .arguments b ts → ¬Arguments ts q s) : Flawed a
  | selector {a : Attribute} {k : AnnotationKind} {b : Bracket} {ts : List Token} {q r : Quote}
      (hk : a.kind? = some k) (hm : k.isMutation = false) (hb : a.body = .arguments b ts)
      (h : Arguments ts q (some r)) : Flawed a

inductive Item.Misused : Item → Prop
  | flawed {i : Item} {a : Attribute} (ha : a ∈ i.attributes) (h : a.Flawed) : Misused i
  | constant {name : String} {as : List Attribute} {type : List Token} (h : as.any Attribute.isBinding)
      (htype : isFieldType type = false) : Misused ⟨name, as, .constant type⟩
  | function {name : String} {as : List Attribute} {parameters : List Token}
      (h : as.any Attribute.isBinding)
      (hparameters : .receiver ∈ parametersOf parameters ∨ (parametersOf parameters).count .argument ≠ 1) :
      Misused ⟨name, as, .function parameters⟩
  | misplaced {i : Item} (hbody : i.body = .alias ∨ i.body = .invocation)
      (h : i.attributes.any Attribute.isBinding) : Misused i

def DeclaredMember.allowance (m : DeclaredMember) : Attribute :=
  match m.kind with
  | .field => .allow "non_upper_case_globals"
  | .method => .allow "non_snake_case"

def Item.memberKind? (i : Item) : Option MemberKind :=
  match i.body with
  | .constant _ => some .field
  | .function _ => some .method
  | .alias | .invocation => none

/-- What collecting makes of an item: it loses its binding attributes, and gains one
attribute if it is a member. -/
structure Item.Stripped (i : Item) (p : Item × Option DeclaredMember) : Prop where
  name : p.1.name = i.name
  body : p.1.body = i.body
  attributes : p.1.attributes = i.others ++ p.2.toList.map DeclaredMember.allowance
  bare : p.1.attributes.any Attribute.isBinding = false
  member : p.2.isSome = i.isMember
  described : ∀ m ∈ p.2, m.name = i.name ∧ i.memberKind? = some m.kind

inductive BlockItem.Stripped : BlockItem → BlockItem × Option DeclaredMember → Prop
  | item {i : Item} {p : Item × Option DeclaredMember} (h : i.Stripped p) : Stripped (.item i) (.item p.1, p.2)
  | verbatim (source : List Token) : Stripped (.verbatim source) (.verbatim source, none)

theorem Attribute.Flawed.isBinding {a : Attribute} (h : a.Flawed) : a.isBinding := by
  cases h with
  | malformed h => exact h
  | selector hk => exact Option.isSome_iff_exists.mpr ⟨_, hk⟩

theorem Arguments.unique {ts : List Token} {q q' : Quote} {s s' : Option Quote} (h : Arguments ts q s)
    (h' : Arguments ts q' s') : q = q' ∧ s = s' := by
  have hread := (Binding.readArguments_eq_ok.mpr h).symm.trans (Binding.readArguments_eq_ok.mpr h')
  simpa using hread

theorem ofAttribute_fails_iff {a : Attribute} {k : AnnotationKind} (hk : a.kind? = some k) :
    (∃ e, Binding.ofAttribute k a = .error e) ↔ a.Flawed := by
  rw [exists_error_iff]
  constructor
  · intro hfails
    by_cases hargs : ∃ b ts q s, a.body = .arguments b ts ∧ Arguments ts q s
    · obtain ⟨b, ts, q, s, hb, h⟩ := hargs
      -- arguments that can be read are refused for a selector only
      have hselector : ¬(s.isSome → k.isMutation) := fun hs =>
        hfails ⟨k, q, s⟩ (Binding.ofAttribute_eq_ok.mpr ⟨b, ts, hb, h, hs, rfl⟩)
      obtain ⟨hs, hm⟩ := Classical.not_imp.mp hselector
      obtain ⟨r, rfl⟩ := Option.isSome_iff_exists.mp hs
      exact .selector hk (Bool.eq_false_iff.mpr hm) hb h
    · refine .malformed (Option.isSome_iff_exists.mpr ⟨k, hk⟩) ?_
      exact fun b ts q s hb h => hargs ⟨b, ts, q, s, hb, h⟩
  · intro h x hx
    obtain ⟨b, ts, hb, hargs, hs, -⟩ := Binding.ofAttribute_eq_ok.mp hx
    cases h with
    | malformed _ hno => exact hno b ts _ _ hb hargs
    | selector hk' hm hb' h =>
        cases hk.symm.trans hk'
        cases hb.symm.trans hb'
        have hselector : x.selector.isSome := (hargs.unique h).2 ▸ rfl
        exact Bool.eq_false_iff.mp hm (hs hselector)

theorem bindingsOf_fails_iff {as : List Attribute} :
    (∃ e, bindingsOf as = .error e) ↔ ∃ a ∈ as, a.Flawed := by
  rw [bindingsOf, mapM_fails_iff]
  constructor
  · rintro ⟨⟨k, a⟩, hp, herror⟩
    obtain ⟨b, hb, heq⟩ := List.mem_filterMap.mp hp
    obtain ⟨l, hl, heq⟩ := Option.map_eq_some_iff.mp heq
    cases heq
    exact ⟨a, hb, (ofAttribute_fails_iff hl).mp herror⟩
  · rintro ⟨a, ha, hflawed⟩
    obtain ⟨k, hk⟩ := Option.isSome_iff_exists.mp hflawed.isBinding
    have hmem : (k, a) ∈ as.filterMap fun a => a.kind?.map fun k => (k, a) :=
      List.mem_filterMap.mpr ⟨a, ha, by rw [hk]; rfl⟩
    exact ⟨(k, a), hmem, (ofAttribute_fails_iff hk).mpr hflawed⟩

namespace Item

def bindable (i : Item) : Bool :=
  match i.body with
  | .constant type => isFieldType type
  | .function parameters => takesOne parameters
  | .alias | .invocation => false

theorem takesOne_iff {parameters : List Token} : takesOne parameters = true ↔
    .receiver ∉ parametersOf parameters ∧ (parametersOf parameters).count .argument = 1 := by
  rw [takesOne, decide_eq_true_iff]
  have hcount : ((parametersOf parameters).filter (· ≠ .rest)).count .argument =
      (parametersOf parameters).count .argument := List.count_filter rfl
  constructor
  · intro h
    rw [h] at hcount
    refine ⟨?_, hcount.symm⟩
    intro hr
    have hmem : Parameter.receiver ∈ (parametersOf parameters).filter (· ≠ .rest) :=
      List.mem_filter.mpr ⟨hr, rfl⟩
    rw [h] at hmem
    simp at hmem
  · rintro ⟨hr, hone⟩
    -- what is neither a receiver nor the rest is an argument, and there is one of them
    have hall : ∀ x ∈ (parametersOf parameters).filter (· ≠ .rest), x = .argument := by
      intro x hx
      obtain ⟨hx, hrest⟩ := List.mem_filter.mp hx
      cases x with
      | receiver => exact absurd hx hr
      | argument => rfl
      | rest => cases hrest
    have hreplicate := List.eq_replicate_of_mem hall
    rw [hone, hreplicate, List.count_replicate_self] at hcount
    rw [hreplicate, hcount]
    rfl

theorem takesOne_eq_false_iff {parameters : List Token} : takesOne parameters = false ↔
    .receiver ∈ parametersOf parameters ∨ (parametersOf parameters).count .argument ≠ 1 := by
  rw [← Bool.not_eq_true, takesOne_iff, Classical.not_and_iff_not_or_not, not_not]

theorem any_others (i : Item) : i.others.any Attribute.isBinding = false := by
  simp [others]

theorem stripped_member (i : Item) (m : DeclaredMember) (hi : i.isMember = true)
    (hm : m.name = i.name ∧ i.memberKind? = some m.kind) :
    i.Stripped ({ i with attributes := i.others ++ [m.allowance] }, some m) := by
  constructor
  case name => rfl
  case body => rfl
  case attributes => rfl
  case bare =>
    have hallowance : m.allowance.isBinding = false := by
      rw [DeclaredMember.allowance]
      cases m.kind <;> rfl
    simp [any_others, hallowance]
  case member => exact hi.symm
  case described => simpa using hm

theorem stripped_other (i : Item) (hi : i.isMember = false) :
    i.Stripped ({ i with attributes := i.others }, none) :=
  ⟨rfl, rfl, (List.append_nil _).symm, i.any_others, hi.symm, nofun⟩

theorem collect_stripped {i : Item} {p : Item × Option DeclaredMember} (h : i.collect = .ok p) :
    i.Stripped p := by
  rcases collect_cases h with
    ⟨type, bs, hbody, htype, -, rfl⟩ | ⟨parameters, bs, hbody, hany, -, rfl⟩ | ⟨hi, rfl⟩
  · have hi : i.isMember = true := by
      rw [isMember, hbody]
      exact htype
    exact i.stripped_member ⟨.field, i.name, bs⟩ hi ⟨rfl, by rw [memberKind?, hbody]⟩
  · have hi : i.isMember = true := by
      rw [isMember, hbody]
      exact hany
    exact i.stripped_member ⟨.method, i.name, bs⟩ hi ⟨rfl, by rw [memberKind?, hbody]⟩
  · exact i.stripped_other hi

section

variable {i : Item}

theorem collect_of_flawed {a : Attribute} (ha : a ∈ i.attributes) (h : a.Flawed) :
    ∃ e, i.collect = .error e := by
  obtain ⟨e, he⟩ := bindingsOf_fails_iff.mpr ⟨a, ha, h⟩
  have hany : i.attributes.any Attribute.isBinding = true := List.any_eq_true.mpr ⟨a, ha, h.isBinding⟩
  rcases i with ⟨name, as, body⟩
  cases body with
  | constant type | function parameters => exact ⟨e, by rw [collect, he]; rfl⟩
  | _ => exact ⟨.misplaced, if_pos hany⟩

/-- If its bindings can be read, an item fails only for having them. -/
theorem collect_of_read {bs : List Binding} (h : bindingsOf i.attributes = .ok bs) :
    (∃ e, i.collect = .error e) ↔ i.attributes.any Attribute.isBinding ∧ i.bindable = false := by
  have hempty := bindingsOf_isEmpty h
  rcases i with ⟨name, as, body⟩
  dsimp only at h hempty ⊢
  cases body with
  | constant type =>
      cases htype : isFieldType type <;> cases hany : as.any Attribute.isBinding <;>
        simp [collect, bindable, h, hempty, hany, htype, bind, Except.bind, pure, Except.pure]
  | function parameters =>
      cases hone : takesOne parameters <;> cases hany : as.any Attribute.isBinding <;>
        simp [collect, bindable, h, hempty, hany, hone, bind, Except.bind, pure, Except.pure]
  | _ => cases hany : as.any Attribute.isBinding <;> simp [collect, bindable, hany]

theorem misused_iff : i.Misused ↔
    (∃ a ∈ i.attributes, a.Flawed) ∨ i.attributes.any Attribute.isBinding ∧ i.bindable = false := by
  constructor
  · intro h
    cases h with
    | flawed ha hflawed => exact .inl ⟨_, ha, hflawed⟩
    | constant hany htype => exact .inr ⟨hany, htype⟩
    | function hany hparameters => exact .inr ⟨hany, takesOne_eq_false_iff.mpr hparameters⟩
    | misplaced hbody hany => exact .inr ⟨hany, by rcases hbody with h | h <;> rw [bindable, h]⟩
  · rintro (⟨a, ha, hflawed⟩ | ⟨hany, hno⟩)
    · exact .flawed ha hflawed
    · rcases i with ⟨name, as, body⟩
      cases body with
      | constant type => exact .constant hany hno
      | function parameters => exact .function hany (takesOne_eq_false_iff.mp hno)
      | _ => exact .misplaced (by simp) hany

theorem collect_fails_iff : (∃ e, i.collect = .error e) ↔ i.Misused := by
  rw [misused_iff]
  by_cases hflawed : ∃ a ∈ i.attributes, a.Flawed
  · obtain ⟨a, ha, h⟩ := hflawed
    exact iff_of_true (collect_of_flawed ha h) (.inl ⟨a, ha, h⟩)
  · cases hbs : bindingsOf i.attributes with
    | error e => exact absurd (bindingsOf_fails_iff.mp ⟨e, hbs⟩) hflawed
    | ok bs => rw [collect_of_read hbs, or_iff_right hflawed]

end

end Item

namespace BlockItem

theorem collect_stripped {b : BlockItem} {p : BlockItem × Option DeclaredMember} (h : b.collect = .ok p) :
    b.Stripped p := by
  rcases collect_cases h with ⟨i, q, rfl, hq, rfl⟩ | ⟨source, rfl, rfl⟩
  · exact .item (Item.collect_stripped hq)
  · exact .verbatim source

theorem collect_fails_iff {b : BlockItem} : (∃ e, b.collect = .error e) ↔ ∃ i, b = .item i ∧ i.Misused := by
  cases b with
  | item i =>
      have hfails : (∃ e, (item i).collect = .error e) ↔ ∃ e, i.collect = .error e := by
        cases hi : i.collect <;> simp [collect, hi, bind, Except.bind, pure, Except.pure]
      simp [hfails, Item.collect_fails_iff]
  | verbatim source => simp [collect]

end BlockItem

/-- Collecting takes all binding attributes out of a block and changes nothing else: its
items stay in their order with their other attributes, and each member is allowed its
name. It fails exactly if some item has a binding attribute that is flawed or misplaced. -/
theorem binding_attributes_stripped (bs : List BlockItem) :
    (∀ ps, bs.mapM BlockItem.collect = .ok ps → List.Forall₂ BlockItem.Stripped bs ps) ∧
    ((∃ e, bs.mapM BlockItem.collect = .error e) ↔ ∃ i, .item i ∈ bs ∧ i.Misused) := by
  constructor
  · intro ps h
    exact (mapM_eq_ok_iff_forall₂.mp h).imp fun _ _ => BlockItem.collect_stripped
  · rw [mapM_fails_iff]
    simp only [BlockItem.collect_fails_iff]
    constructor
    · rintro ⟨_, hb, i, rfl, hi⟩
      exact ⟨i, hb, hi⟩
    · rintro ⟨i, hb, hi⟩
      exact ⟨_, hb, i, rfl, hi⟩

def boundLimit : Item :=
  ⟨"LIMIT", [⟨[.word "view_for"], .arguments .round [.quote ⟨"limit", "\"limit\""⟩]⟩],
    .constant [.word "usize"]⟩

theorem page_attributes_stripped :
    (∃ ps, page.items.mapM BlockItem.collect = .ok ps ∧ List.Forall₂ BlockItem.Stripped page.items ps ∧
      ps.map Prod.fst = pageExpansion.items) ∧
    ∃ e, (page.items ++ [BlockItem.item boundLimit]).mapM BlockItem.collect = .error e := by
  have hpage : (page.items.mapM BlockItem.collect).toOption.map (List.map Prod.fst) =
      some pageExpansion.items := by cbv
  constructor
  · obtain ⟨ps, hps, hitems⟩ := Option.map_eq_some_iff.mp hpage
    have hcollected := toOption_eq_some.mp hps
    exact ⟨ps, hcollected, (binding_attributes_stripped page.items).1 ps hcollected, hitems⟩
  · apply (binding_attributes_stripped (page.items ++ [BlockItem.item boundLimit])).2.mpr
    exact ⟨boundLimit, by simp, .constant rfl (by decide)⟩

end ViewWiring.Declaration
