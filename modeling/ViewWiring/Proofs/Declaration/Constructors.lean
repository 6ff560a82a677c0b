import Mathlib
import ViewWiring.Proofs.Component.Faults
import ViewWiring.Proofs.Component.Handlers
import ViewWiring.Proofs.Declaration.Attributes
import ViewWiring.Proofs.Declaration.Calls

namespace ViewWiring.Declaration

open ViewWiring.Binding Component Dispatch

theorem bindingsOf_proper {as : List Attribute} {bs : List Binding} (h : bindingsOf as = .ok bs) :
    ∀ b ∈ bs, b.Proper := by
  intro b hb
  obtain ⟨i, hi, rfl⟩ := List.mem_iff_getElem.mp hb
  have hall := bindingsOf_eq_ok.mp h
  obtain ⟨k, _, hk⟩ := hall.get (hall.length_eq ▸ hi) hi
  obtain ⟨_, _, _, _, hs, hkind⟩ := Binding.ofAttribute_eq_ok.mp hk
  exact fun hsome => hkind ▸ hs hsome

theorem bindingsOf_isEmpty {as : List Attribute} {bs : List Binding} (h : bindingsOf as = .ok bs) :
    bs.isEmpty = !as.any Attribute.isBinding := by
  have hnil : bs = [] ↔ as.filter Attribute.isBinding = [] := by
    rw [← List.length_eq_zero_iff, ← (bindingsOf_eq_ok.mp h).length_eq, List.length_eq_zero_iff]
  rw [Bool.eq_iff_iff, List.isEmpty_iff, hnil]
  simp

namespace Item

/-- Constants of the field type are members, and so are functions with a binding. -/
def isMember (i : Item) : Bool :=
  match i.body with
  | .constant type => isFieldType type
  | .function _ => i.attributes.any Attribute.isBinding
  | .alias | .invocation => false

inductive Declares (typeOf : String → FieldType) : Item → Member → Prop
  | field {name : String} {as : List Attribute} {type : List Token} {xs : List AnnotationText}
      (h : List.Forall₂ Attribute.Declares (as.filter Attribute.isBinding) xs) :
      Declares typeOf ⟨name, as, .constant type⟩ ⟨.field, name, some (typeOf name), xs⟩
  | method {name : String} {as : List Attribute} {parameters : List Token} {xs : List AnnotationText}
      (h : List.Forall₂ Attribute.Declares (as.filter Attribute.isBinding) xs) :
      Declares typeOf ⟨name, as, .function parameters⟩ ⟨.method, name, none, xs⟩

theorem collect_cases {i : Item} {p : Item × Option DeclaredMember} (h : i.collect = .ok p) :
    (∃ type bs, i.body = .constant type ∧ isFieldType type = true ∧ bindingsOf i.attributes = .ok bs ∧
      p = ({ i with attributes := i.others ++ [.allow "non_upper_case_globals"] },
        some ⟨.field, i.name, bs⟩)) ∨
    (∃ parameters bs, i.body = .function parameters ∧ i.attributes.any Attribute.isBinding = true ∧
      bindingsOf i.attributes = .ok bs ∧
      p = ({ i with attributes := i.others ++ [.allow "non_snake_case"] }, some ⟨.method, i.name, bs⟩)) ∨
    (i.isMember = false ∧ p = ({ i with attributes := i.others }, none)) := by
  rcases i with ⟨name, as, body⟩
  cases body with
  | constant type =>
      obtain ⟨bs, hbs, h⟩ := bind_eq_ok.mp h
      dsimp only at h
      split at h
      · rename_i htype
        exact .inl ⟨type, bs, rfl, htype, hbs, (Except.ok.inj h).symm⟩
      · rename_i htype
        split at h
        · exact .inr (.inr ⟨Bool.eq_false_iff.mpr htype, (Except.ok.inj h).symm⟩)
        · cases h
  | function parameters =>
      obtain ⟨bs, hbs, h⟩ := bind_eq_ok.mp h
      have hempty := bindingsOf_isEmpty hbs
      dsimp only at h
      split at h
      · rename_i hnone
        have hany : as.any Attribute.isBinding = false := by simpa [hnone] using hempty
        exact .inr (.inr ⟨hany, (Except.ok.inj h).symm⟩)
      · rename_i hsome
        split at h
        · cases h
        · have hany : as.any Attribute.isBinding = true := by simpa [hsome] using hempty
          exact .inr (.inl ⟨parameters, bs, rfl, hany, hbs, (Except.ok.inj h).symm⟩)
  | _ =>
      rw [collect] at h
      dsimp only at h
      split at h
      · cases h
      · rename_i hnone
        -- without a binding all attributes are others
        have hothers : as.filter (fun a => !a.isBinding) = as := by
          rw [List.filter_eq_self]
          simpa using hnone
        refine .inr (.inr ⟨rfl, (Except.ok.inj h).symm.trans ?_⟩)
        rw [others]
        dsimp only
        rw [hothers]

theorem collect_member {i : Item} {p : Item × Option DeclaredMember} (h : i.collect = .ok p) :
    match p.2 with
    | none => i.isMember = false
    | some m => i.isMember = true ∧ (∀ b ∈ m.bindings, b.Proper) ∧
        ∀ typeOf, i.Declares typeOf (m.member typeOf) := by
  rcases i with ⟨name, as, body⟩
  rcases collect_cases h with
    ⟨type, bs, rfl, htype, hbs, rfl⟩ | ⟨parameters, bs, rfl, hany, hbs, rfl⟩ | ⟨hi, rfl⟩
  · exact ⟨htype, bindingsOf_proper hbs, fun typeOf => .field (bindingsOf_declares hbs)⟩
  · exact ⟨hany, bindingsOf_proper hbs, fun typeOf => .method (bindingsOf_declares hbs)⟩
  · exact hi

end Item

theorem BlockItem.collect_cases {b : BlockItem} {p : BlockItem × Option DeclaredMember} (h : b.collect = .ok p) :
    (∃ i q, b = .item i ∧ i.collect = .ok q ∧ p = (.item q.1, q.2)) ∨
    ∃ source, b = .verbatim source ∧ p = (.verbatim source, none) := by
  cases b with
  | item i =>
      obtain ⟨q, hq, h⟩ := bind_eq_ok.mp h
      exact .inl ⟨i, q, rfl, hq, (Except.ok.inj h).symm⟩
  | verbatim source => exact .inr ⟨source, rfl, (Except.ok.inj h).symm⟩

theorem members_declared {is : List BlockItem} {ps : List (BlockItem × Option DeclaredMember)}
    (h : is.mapM BlockItem.collect = .ok ps) (typeOf : String → FieldType) :
    (∀ m ∈ ps.filterMap Prod.snd, ∀ b ∈ m.bindings, b.Proper) ∧
    List.Forall₂ (Item.Declares typeOf) ((is.filterMap BlockItem.item?).filter Item.isMember)
      ((ps.filterMap Prod.snd).map (DeclaredMember.member typeOf)) := by
  rw [mapM_eq_ok_iff_forall₂] at h
  induction h with
  | nil => exact ⟨nofun, .nil⟩
  | @cons b p is ps hp _ ih =>
      rcases BlockItem.collect_cases hp with ⟨i, ⟨j, m?⟩, rfl, hq, rfl⟩ | ⟨source, rfl, rfl⟩
      · have hmember := Item.collect_member hq
        have hitem : (BlockItem.item i).item? = some i := rfl
        rw [List.filterMap_cons_some hitem]
        cases m? with
        | none =>
            have hi : i.isMember = false := hmember
            simpa [hi] using ih
        | some m =>
            obtain ⟨hi, hproper, hdeclares⟩ := hmember
            have hfirst : (BlockItem.item j, some m).2 = some m := rfl
            rw [List.filter_cons_of_pos hi, List.filterMap_cons_some hfirst, List.map_cons]
            exact ⟨List.forall_mem_cons.mpr ⟨hproper, ih.1⟩, .cons (hdeclares typeOf) ih.2⟩
      -- what is kept as it is written declares nothing
      · exact ih

theorem expand_eq {b : Block} {x : Expansion} (h : b.expand = .ok x) :
    ∃ name ps, typeName? b.subject.header.selfType = some name ∧ b.items.mapM BlockItem.collect = .ok ps ∧
      x = ⟨ps.map Prod.fst, b.subject.header.ofConstructors, name, ps.filterMap Prod.snd⟩ := by
  unfold Block.expand at h
  -- four guards are passed before the type is named
  iterate 4
    split at h
    · cases h
  split at h
  · cases h
  · rename_i name hname
    obtain ⟨ps, hps, h⟩ := bind_eq_ok.mp h
    exact ⟨name, ps, hname, hps, (Except.ok.inj h).symm⟩

theorem expand_collects {b : Block} {x : Expansion} (h : b.expand = .ok x) :
    typeName? b.subject.header.selfType = some x.constructors.component ∧
      ∃ ps, b.items.mapM BlockItem.collect = .ok ps ∧ ps.map Prod.fst = x.items ∧
        ps.filterMap Prod.snd = x.constructors.members := by
  obtain ⟨name, ps, hname, hps, rfl⟩ := expand_eq h
  exact ⟨hname, ps, hps, rfl, rfl⟩

namespace Constructors

variable {ν : Type} (c : Constructors) (typeOf : String → FieldType) (bodyOf : String → Handler ν)

theorem methods_definition : (c.definition typeOf).methods = c.methods.map DeclaredMember.name := by
  simp only [definition, Definition.methods, methods, List.filter_map, List.map_map]
  rfl

theorem get?_table (name : String) : (c.table bodyOf).get? name =
    if name ∈ (c.definition typeOf).methods then some (bodyOf name) else none := by
  have hfold (ms : List DeclaredMember) (t : HandlerTable ν) :
      (ms.foldl (fun t m => t.insert m.name (bodyOf m.name)) t).get? name =
        if name ∈ ms.map DeclaredMember.name then some (bodyOf name) else t.get? name := by
    induction ms generalizing t with
    | nil => simp
    | cons m ms ih =>
        simp only [List.foldl_cons, ih, List.map_cons, List.mem_cons]
        by_cases hm : name = m.name
        · simp [hm, HandlerTable.insert, HandlerTable.get?, Entries.get?_put_self]
        · simp [hm, HandlerTable.insert, HandlerTable.get?, Entries.get?_put_of_ne _ _ hm]
  rw [methods_definition, table, hfold]
  rfl

theorem contains_table (name : String) :
    (c.table bodyOf).contains name ↔ name ∈ (c.definition typeOf).methods := by
  have hget := c.get?_table typeOf bodyOf name
  rw [HandlerTable.contains, Entries.contains, ← HandlerTable.get?, hget]
  split <;> simp_all

theorem handlerFault?_table {s : Spec} (hs : (c.definition typeOf).validate = .ok s) :
    handlerFault? s (c.table bodyOf) = none := by
  have hc := Spec.compiles_of_validate hs
  refine handlerFault?_eq_none.mpr ⟨?_, ?_⟩
  · intro name hname
    exact (hc.isMethod_member? name).mpr ((c.contains_table typeOf bodyOf name).mp hname)
  · intro x hx hmethod _
    apply (c.contains_table typeOf bodyOf x.name).mpr
    rw [← hc.isMethod_member?, hc.member?_eq_some.mpr ⟨hx, rfl⟩]
    exact hmethod

/-- The table never adds a fault to those of the definition. -/
theorem build_eq_error (config : Config) (e : ConfigError) :
    Instance.build (c.definition typeOf) (c.table bodyOf) config = .error e ↔
      (c.definition typeOf).validate = .error e := by
  cases hd : (c.definition typeOf).validate with
  | error e' => simp [Instance.build, hd, bind, Except.bind]
  | ok s =>
      have hfault := c.handlerFault?_table typeOf bodyOf hd
      simp [Instance.build, hd, bind, Except.bind, hfault, pure, Except.pure]

end Constructors

/-- What is written beside a block builds a definition and a table that fit: a
member for each item that is one, with its annotations in order, and a handler
for each method. An instance fails only as validation fails. -/
theorem constructors_fit_together {b : Block} {x : Expansion} (h : b.expand = .ok x)
    (typeOf : String → FieldType) {ν : Type} (bodyOf : String → Handler ν) :
    let d := x.constructors.definition typeOf
    let t := x.constructors.table bodyOf
    (x.constructors.definitionText = spaced x.constructors.definitionTokens ∧
      MakesDefinition typeOf x.constructors.definitionTokens d) ∧
    (x.constructors.tableText = spaced x.constructors.tableTokens ∧
      MakesTable bodyOf x.constructors.tableTokens t) ∧
    typeName? b.subject.header.selfType = some d.name ∧
    List.Forall₂ (Item.Declares typeOf) ((b.items.filterMap BlockItem.item?).filter Item.isMember) d.members ∧
    (∀ name, name ∈ t.names ↔ name ∈ d.methods) ∧
    (∀ name ∈ d.methods, t.get? name = some (bodyOf name)) ∧
    ∀ config e, (Instance.build d t config = .error e ↔ d.validate = .error e) ∧
      (Instance.build d t config = .error e → ∀ name, e ≠ .unknownHandler name ∧ e ≠ .missingHandler name) := by
  intro d t
  obtain ⟨hname, ps, hps, -, hmembers⟩ := expand_collects h
  obtain ⟨hproper, hdeclared⟩ := members_declared hps typeOf
  rw [hmembers] at hproper hdeclared
  have hbuild (config : Config) (e : ConfigError) :=
    x.constructors.build_eq_error typeOf bodyOf config e
  refine ⟨⟨x.constructors.spaced_definitionTokens.symm, Constructors.makes_definition typeOf hproper⟩,
    ⟨x.constructors.spaced_tableTokens.symm, x.constructors.makes_table bodyOf⟩, hname, hdeclared, ?_, ?_, ?_⟩
  · intro name
    rw [mem_names]
    exact x.constructors.contains_table typeOf bodyOf name
  · intro name hn
    rw [x.constructors.get?_table typeOf bodyOf, if_pos hn]
  · intro config e
    exact ⟨hbuild config e, fun he => validate_ne_handler ((hbuild config e).mp he)⟩

def unwritten : List Token :=
  [.word "fn", .word "unwritten", .opening .round, .closing .round, .sign ';' false]

def page : Block where
  arguments := []
  subject := ⟨⟨[], [.word "Page"], []⟩, none, false⟩
  items := [
    .item ⟨"todos", [⟨[.word "view_for"], .arguments .round [.quote ⟨"todos", "\"todos\""⟩]⟩],
      .constant [.word "FieldType"]⟩,
    .item ⟨"LIMIT", [], .constant [.word "usize"]⟩,
    .verbatim unwritten,
    .item ⟨"check", [
        ⟨[.word "inline"], .none⟩,
        ⟨[.word "toggle"], .arguments .round [.quote ⟨"todos[i].done", "\"todos[i].done\""⟩, .sign ',' false,
          .word "selector", .sign '=' false, .quote ⟨"todos > done", "\"todos > done\""⟩, .sign ',' false]⟩,
        ⟨[.word "button_tap"], .arguments .round [.quote ⟨"clear", "\"clear\""⟩]⟩],
      .function [.word "cx", .sign ':' false, .word "Context"]⟩,
    .item ⟨"helper", [], .function []⟩]

def pageMembers : List DeclaredMember :=
  [⟨.field, "todos", [⟨.viewFor, ⟨"todos", "\"todos\""⟩, none⟩]⟩,
    ⟨.method, "check", [
      ⟨.mutation .toggle, ⟨"todos[i].done", "\"todos[i].done\""⟩, some ⟨"todos > done", "\"todos > done\""⟩⟩,
      ⟨.event .buttonTap, ⟨"clear", "\"clear\""⟩, none⟩]⟩]

def pageExpansion : Expansion where
  items := [
    .item ⟨"todos", [.allow "non_upper_case_globals"], .constant [.word "FieldType"]⟩,
    .item ⟨"LIMIT", [], .constant [.word "usize"]⟩,
    .verbatim unwritten,
    .item ⟨"check", [⟨[.word "inline"], .none⟩, .allow "non_snake_case"],
      .function [.word "cx", .sign ':' false, .word "Context"]⟩,
    .item ⟨"helper", [], .function []⟩]
  constructors := ⟨⟨[], [.word "Page"], []⟩, "Page", pageMembers⟩

theorem page_constructors_fit_together :
    page.expand = .ok pageExpansion ∧
    (let d := pageExpansion.constructors.definition fun _ => .collection
     let t := pageExpansion.constructors.table fun _ _ => (.done () : Program Empty Unit)
     List.Forall₂ (Item.Declares fun _ => .collection)
       ((page.items.filterMap BlockItem.item?).filter Item.isMember) d.members ∧
     d.methods = ["check"] ∧ (∀ name, name ∈ t.names ↔ name = "check") ∧
     ∀ config e, Instance.build d t config ≠ .error e) := by
  have hpage : page.expand = .ok pageExpansion := by cbv
  have hmethods : (pageExpansion.constructors.definition fun _ => .collection).methods = ["check"] := by decide
  have hvalid : (pageExpansion.constructors.definition fun _ => .collection).validate.isOk = true := by cbv
  obtain ⟨-, -, -, hmembers, hnames, -, hbuild⟩ :=
    constructors_fit_together hpage (fun _ => .collection) fun _ _ => (.done () : Program Empty Unit)
  refine ⟨hpage, hmembers, hmethods, ?_, ?_⟩
  · simpa [hmethods] using hnames
  · intro config e he
    rw [((hbuild config e).1.mp he)] at hvalid
    cases hvalid

end ViewWiring.Declaration
