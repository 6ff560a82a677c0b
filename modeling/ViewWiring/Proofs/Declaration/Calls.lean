import Mathlib.Data.List.Forall2
import ViewWiring.Declaration.Expansion
import ViewWiring.Proofs.Declaration.Spacing

namespace ViewWiring.Declaration

open ViewWiring.Binding Component Dispatch

def ownItem (name : String) : List Token := [.word "Self", .sign ':' true, .sign ':' false, .word name]

def someOwnItem (name : String) : List Token :=
  absolute ["core", "option", "Option", "Some"] ++ bracketed .round [ownItem name]

def stringToken (s : String) : Token := .quote (.ofString s)

def rawCall (name : String) (q : Quote) : List Token :=
  absolute ["bindview", "binding", "RawAnnotation", name] ++ bracketed .round [[.quote q]]

/-- The annotation that calls make: a constructor is given the selector of a view
or an event, or the path of a mutation, and a call after it sets the selector. -/
inductive MakesAnnotation : List Token → AnnotationText → Prop
  | viewFor (q : Quote) : MakesAnnotation (rawCall (attributeOf .viewFor) q) ⟨.viewFor, some q.value, none⟩
  | event (e : EventKind) (q : Quote) :
      MakesAnnotation (rawCall (attributeOf (.event e)) q) ⟨.event e, some q.value, none⟩
  | mutation (op : MutationOp) (q : Quote) :
      MakesAnnotation (rawCall (attributeOf (.mutation op)) q) ⟨.mutation op, none, some q.value⟩
  | at {ts : List Token} {x : AnnotationText} (h : MakesAnnotation ts x) (q : Quote) :
      MakesAnnotation (ts ++ chained "at" [[.quote q]]) { x with selector := some q.value }

inductive MakesDefinition (typeOf : String → FieldType) : List Token → Definition → Prop
  | new (q : Quote) : MakesDefinition typeOf
      (absolute ["bindview", "metadata", "ComponentDef", "new"] ++ bracketed .round [[.quote q]]) ⟨q.value, []⟩
  | field {ts : List Token} {d : Definition} {as : List (List Token)} {xs : List AnnotationText}
      (h : MakesDefinition typeOf ts d) (q : Quote) (c : String) (hxs : List.Forall₂ MakesAnnotation as xs) :
      MakesDefinition typeOf
        (ts ++ chained "field" [[.quote q], someOwnItem c, bracketed .square as])
        { d with members := d.members ++ [⟨.field, q.value, some (typeOf c), xs⟩] }
  | method {ts : List Token} {d : Definition} {as : List (List Token)} {xs : List AnnotationText}
      (h : MakesDefinition typeOf ts d) (q : Quote) (hxs : List.Forall₂ MakesAnnotation as xs) :
      MakesDefinition typeOf (ts ++ chained "method" [[.quote q], bracketed .square as])
        { d with members := d.members ++ [⟨.method, q.value, none, xs⟩] }

inductive MakesTable {ν : Type} (bodyOf : String → Handler ν) : List Token → HandlerTable ν → Prop
  | new : MakesTable bodyOf (absolute ["bindview", "event", "HandlerTable", "new"] ++ bracketed .round []) .empty
  | handler {ts : List Token} {t : HandlerTable ν} (h : MakesTable bodyOf ts t) (q : Quote) (c : String) :
      MakesTable bodyOf (ts ++ chained "with" [[.quote q], ownItem c]) (t.insert q.value (bodyOf c))

theorem spaced_rawCall (name : String) (q : Quote) : spaced (rawCall name q) =
    ":: bindview :: binding :: RawAnnotation :: " ++ name ++ " (" ++ q.source ++ ")" := by
  rw [rawCall, spaced_called _ rfl (by simp [separable_quote]), spaced_absolute]
  simp only [String.intercalate_cons_cons, String.intercalate_singleton, List.map_cons, List.map_nil, spaced,
    Token.text, ← String.append_assoc, String.reduceAppend]

theorem separable_ownItem (name : String) : Separable (ownItem name) := ⟨rfl, rfl⟩

theorem spaced_ownItem (name : String) : spaced (ownItem name) = "Self :: " ++ name := by
  have hparts : spaced (ownItem name) = "Self" ++ " " ++ (":" ++ "" ++ (":" ++ " " ++ name)) := rfl
  simp only [hparts, ← String.append_assoc, String.reduceAppend]

theorem spaced_someOwnItem (name : String) :
    spaced (someOwnItem name) = ":: core :: option :: Option :: Some (Self :: " ++ name ++ ")" := by
  rw [someOwnItem, spaced_called _ rfl (List.forall_mem_singleton.mpr (separable_ownItem name)), spaced_absolute]
  simp only [List.map_cons, List.map_nil, String.intercalate_cons_cons, String.intercalate_singleton,
    spaced_ownItem, ← String.append_assoc, String.reduceAppend]

namespace Binding

def tokens (b : Binding) : List Token :=
  let constructed := rawCall (attributeOf b.kind) b.value
  match b.selector with
  | none => constructed
  | some q => constructed ++ chained "at" [[.quote q]]

theorem spaced_tokens (b : Binding) : spaced b.tokens = b.text := by
  unfold tokens text
  cases b.selector with
  | none =>
      simp only [String.append_empty]
      exact spaced_rawCall _ _
  | some q =>
      have hlast : (rawCall (attributeOf b.kind) b.value).getLast? = some (.closing .round) :=
        getLast?_called _ _
      have hsource : spaced [.quote q] = q.source := rfl
      have hliteral : " . at (" = " " ++ (". " ++ "at" ++ " (") := rfl
      dsimp only
      rw [spaced_append_chained hlast, spaced_chained "at" (by simp [separable_quote]), spaced_rawCall,
        hliteral]
      simp only [List.map_cons, List.map_nil, String.intercalate_singleton, hsource, String.append_assoc]

def Proper (b : Binding) : Prop := b.selector.isSome → b.kind.isMutation

theorem makes_annotation {b : Binding} (hb : b.Proper) : MakesAnnotation b.tokens b.annotation := by
  rcases b with ⟨kind, value, selector⟩
  cases selector with
  | none =>
      cases kind with
      | viewFor => exact .viewFor value
      | event e => exact .event e value
      | mutation op => exact .mutation op value
  | some q =>
      cases kind with
      | viewFor | event e => cases hb rfl
      | mutation op => exact .at (.mutation op value) q

theorem separable_tokens (b : Binding) : Separable b.tokens := by
  have hraw : Separable (rawCall (attributeOf b.kind) b.value) :=
    .append ⟨rfl, rfl⟩ (separable_bracketed .round _)
  unfold tokens
  cases b.selector with
  | none => exact hraw
  | some q => exact hraw.append (separable_chained "at" _)

end Binding

namespace DeclaredMember

def tokens (m : DeclaredMember) : List Token :=
  let annotations := bracketed .square (m.bindings.map Binding.tokens)
  match m.kind with
  | .field => chained "field" [[stringToken m.name], someOwnItem m.name, annotations]
  | .method => chained "method" [[stringToken m.name], annotations]

def handlerTokens (m : DeclaredMember) : List Token :=
  chained "with" [[stringToken m.name], ownItem m.name]

theorem spaced_annotations (m : DeclaredMember) : spaced (bracketed .square (m.bindings.map Binding.tokens)) =
    "[" ++ " , ".intercalate (m.bindings.map Binding.text) ++ "]" := by
  have hsquare : Bracket.square ≠ .curly := nofun
  have htexts : (m.bindings.map Binding.tokens).map spaced = m.bindings.map Binding.text := by
    simp [Function.comp_def, Binding.spaced_tokens]
  rw [spaced_bracketed hsquare, spaced_commaSeparated, htexts]
  · rfl
  · simp only [List.mem_map]
    rintro _ ⟨b, _, rfl⟩
    exact b.separable_tokens

theorem spaced_tokens (m : DeclaredMember) : " " ++ spaced m.tokens = m.text := by
  have hname : spaced [stringToken m.name] = quoted m.name := rfl
  have hquote : Separable [stringToken m.name] := separable_quote _
  have hlist : Separable (bracketed .square (m.bindings.map Binding.tokens)) := separable_bracketed _ _
  unfold tokens text
  cases m.kind with
  | field =>
      have hvalue : Separable (someOwnItem m.name) := .append ⟨rfl, rfl⟩ (separable_bracketed .round _)
      have hopen : " . field (" = " " ++ (". " ++ ("field" ++ " (")) := rfl
      have hcomma : " , :: core :: option :: Option :: Some (Self :: " =
        " , " ++ ":: core :: option :: Option :: Some (Self :: " := rfl
      have hclose : ") , " = ")" ++ " , " := rfl
      dsimp only
      rw [spaced_chained "field" (by simp [hquote, hlist, hvalue]), hopen, hcomma, hclose]
      simp only [List.map_cons, List.map_nil, String.intercalate_cons_cons, String.intercalate_singleton, hname,
        spaced_someOwnItem, spaced_annotations, String.append_assoc]
  | method =>
      have hopen : " . method (" = " " ++ (". " ++ ("method" ++ " (")) := rfl
      dsimp only
      rw [spaced_chained "method" (by simp [hquote, hlist]), hopen]
      simp only [List.map_cons, List.map_nil, String.intercalate_cons_cons, String.intercalate_singleton, hname,
        spaced_annotations, String.append_assoc]

theorem spaced_handlerTokens (m : DeclaredMember) : " " ++ spaced m.handlerTokens = m.handlerText := by
  have hname : spaced [stringToken m.name] = quoted m.name := rfl
  have hquote : Separable [stringToken m.name] := separable_quote _
  have hopen : " . with (" = " " ++ (". " ++ ("with" ++ " (")) := rfl
  have hcomma : " , Self :: " = " , " ++ "Self :: " := rfl
  rw [handlerTokens, handlerText, spaced_chained "with" (by simp [hquote, separable_ownItem]), hopen, hcomma]
  simp only [List.map_cons, List.map_nil, String.intercalate_cons_cons, String.intercalate_singleton, hname,
    spaced_ownItem, String.append_assoc]

theorem tokens_chained (m : DeclaredMember) : ∃ name parts, m.tokens = chained name parts := by
  unfold tokens
  cases m.kind <;> exact ⟨_, _, rfl⟩

theorem makes_annotations {m : DeclaredMember} (hm : ∀ b ∈ m.bindings, b.Proper) :
    List.Forall₂ MakesAnnotation (m.bindings.map Binding.tokens) (m.bindings.map Binding.annotation) := by
  rw [List.forall₂_map_left_iff, List.forall₂_map_right_iff, List.forall₂_same]
  exact fun b hb => Binding.makes_annotation (hm b hb)

end DeclaredMember

theorem MakesDefinition.member {typeOf : String → FieldType} {ts : List Token} {d : Definition}
    (h : MakesDefinition typeOf ts d) {m : DeclaredMember} (hm : ∀ b ∈ m.bindings, b.Proper) :
    MakesDefinition typeOf (ts ++ m.tokens) { d with members := d.members ++ [m.member typeOf] } := by
  have hannotations := DeclaredMember.makes_annotations hm
  rcases m with ⟨kind, name, bindings⟩
  cases kind with
  | field => exact h.field (.ofString name) name hannotations
  | method => exact h.method (.ofString name) hannotations

namespace Constructors

def definitionTokens (c : Constructors) : List Token :=
  absolute ["bindview", "metadata", "ComponentDef", "new"] ++ bracketed .round [[stringToken c.component]] ++
    c.members.flatMap DeclaredMember.tokens

def tableTokens (c : Constructors) : List Token :=
  absolute ["bindview", "event", "HandlerTable", "new"] ++ bracketed .round [] ++
    c.methods.flatMap DeclaredMember.handlerTokens

theorem spaced_definitionTokens (c : Constructors) : spaced c.definitionTokens = c.definitionText := by
  have hname : spaced [stringToken c.component] = quoted c.component := rfl
  have hquote : Separable [stringToken c.component] := separable_quote _
  rw [definitionTokens, spaced_append_calls DeclaredMember.tokens_chained (getLast?_called _ _),
    spaced_called _ rfl (List.forall_mem_singleton.mpr hquote), spaced_absolute]
  simp only [DeclaredMember.spaced_tokens, List.map_cons, List.map_nil, hname, String.intercalate_cons_cons,
    String.intercalate_singleton, String.reduceAppend]
  rfl

theorem spaced_tableTokens (c : Constructors) : spaced c.tableTokens = c.tableText := by
  have hchained (m : DeclaredMember) : ∃ name parts, m.handlerTokens = chained name parts := ⟨_, _, rfl⟩
  have hnew : spaced (absolute ["bindview", "event", "HandlerTable", "new"] ++ bracketed .round []) =
      ":: bindview :: event :: HandlerTable :: new ()" := rfl
  rw [tableTokens, spaced_append_calls hchained (getLast?_called _ _), hnew]
  simp only [DeclaredMember.spaced_handlerTokens]
  rfl

theorem makes_definition {c : Constructors} (typeOf : String → FieldType)
    (hc : ∀ m ∈ c.members, ∀ b ∈ m.bindings, b.Proper) :
    MakesDefinition typeOf c.definitionTokens (c.definition typeOf) := by
  have hmembers (ms : List DeclaredMember) (hms : ∀ m ∈ ms, ∀ b ∈ m.bindings, b.Proper) {ts : List Token}
      {d : Definition} (h : MakesDefinition typeOf ts d) : MakesDefinition typeOf
        (ts ++ ms.flatMap DeclaredMember.tokens)
        { d with members := d.members ++ ms.map (DeclaredMember.member typeOf) } := by
    induction ms generalizing ts d with
    | nil => simpa using h
    | cons m ms ih =>
        have hfirst := h.member (hms m List.mem_cons_self)
        rw [List.flatMap_cons, ← List.append_assoc, List.map_cons, List.append_cons]
        exact ih (fun n hn => hms n (List.mem_cons_of_mem _ hn)) hfirst
  exact hmembers c.members hc (.new (.ofString c.component))

theorem makes_table {ν : Type} (c : Constructors) (bodyOf : String → Handler ν) :
    MakesTable bodyOf c.tableTokens (c.table bodyOf) := by
  have hmembers (ms : List DeclaredMember) {ts : List Token} {t : HandlerTable ν} (h : MakesTable bodyOf ts t) :
      MakesTable bodyOf (ts ++ ms.flatMap DeclaredMember.handlerTokens)
        (ms.foldl (fun t m => t.insert m.name (bodyOf m.name)) t) := by
    induction ms generalizing ts t with
    | nil => simpa using h
    | cons m ms ih =>
        rw [List.flatMap_cons, ← List.append_assoc]
        exact ih (.handler h (.ofString m.name) m.name)
  exact hmembers c.methods .new

end Constructors

end ViewWiring.Declaration
