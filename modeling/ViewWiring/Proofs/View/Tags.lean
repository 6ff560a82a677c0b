import ViewWiring.Proofs.View.Emitting

namespace ViewWiring.View

open Address Binding Component

inductive Directive.Asks : Directive → Tag → Prop
  | bind (path : Path) : Asks (.bind path) .input
  | change (handler : String) : Asks (.on .inputChange handler) .input
  | tap (handler : String) : Asks (.on .buttonTap handler) .button
  | check (handler : String) : Asks (.on .checkboxChange handler) .checkbox

structure Node.Tagged (n : Node) : Prop where
  distinct : n.directives.Nodup
  view : n.tag = .view ↔ (∀ path, .bind path ∉ n.directives) ∧ ∀ e handler, .on e handler ∉ n.directives
  first : ∀ before v after, n.directives = before ++ v :: after → (∀ u ∈ before, u.isRepeat) →
    v.isRepeat = false → v.Asks n.tag

theorem asks_of_tag? {v : Directive} {t : Tag} (h : v.tag? = some t) : v.Asks t := by
  cases v with
  | each => cases h
  | bind path =>
      cases h
      exact .bind path
  | on e handler =>
      cases e <;> cases h
      · exact .change handler
      · exact .tap handler
      · exact .check handler

theorem not_asks_view (v : Directive) : ¬ v.Asks .view := nofun

structure Node.Settled (n : Node) : Prop where
  distinct : n.directives.Nodup
  tag : n.tag = ((asking n.directives).bind Directive.tag?).getD .view

theorem settled_plain (name : String) : (Node.plain name).Settled := ⟨List.nodup_nil, rfl⟩

theorem Node.Settled.attach {n : Node} (h : n.Settled) (v : Directive) : (n.attach v).Settled := by
  constructor
  case distinct =>
    rw [n.directives_attach]
    exact nodup_joined h.distinct v
  case tag =>
    rw [Node.attach]
    split
    case isTrue => exact h.tag
    case isFalse hv =>
      have hlast : asking (n.directives ++ [v]) = (asking n.directives).or (asking [v]) := List.find?_append
      rw [hlast, h.tag]
      cases hfirst : asking n.directives with
      | some u =>
          have hasked : ¬ n.directives.all Directive.isRepeat := by
            rw [← asking_eq_none, hfirst]
            exact Option.some_ne_none u
          rw [if_neg hasked]
          rfl
      | none =>
          rw [if_pos (asking_eq_none.mp hfirst)]
          cases v <;> rfl

theorem Node.Settled.tagged {n : Node} (h : n.Settled) : n.Tagged := by
  have hfirst {v : Directive} (hv : asking n.directives = some v) : v.Asks n.tag := by
    have hsome : v.tag?.isSome := by
      rw [isSome_tag?]
      exact List.find?_some (p := fun v : Directive => !v.isRepeat) hv
    obtain ⟨t, ht⟩ := Option.isSome_iff_exists.mp hsome
    rw [h.tag, hv, Option.bind_some, ht]
    exact asks_of_tag? ht
  constructor
  case distinct => exact h.distinct
  case view =>
    have hrepeats : n.tag = .view ↔ n.directives.all Directive.isRepeat := by
      rw [← asking_eq_none]
      constructor
      · intro hview
        cases hv : asking n.directives with
        | none => rfl
        | some v => exact absurd (hview ▸ hfirst hv) (not_asks_view v)
      · intro hnone
        rw [h.tag, hnone]
        rfl
    rw [hrepeats, List.all_eq_true]
    constructor
    · intro hall
      exact ⟨fun path hpath => (nomatch hall _ hpath), fun e handler hon => (nomatch hall _ hon)⟩
    · rintro ⟨hbind, hon⟩ v hv
      cases v with
      | each => rfl
      | bind path => exact absurd hv (hbind path)
      | on e handler => exact absurd hv (hon e handler)
  case first =>
    intro before v after hds hbefore hv
    apply hfirst
    rw [asking, hds, List.find?_append, List.find?_eq_none.mpr (by simpa using hbefore), Option.none_or]
    exact List.find?_cons_of_pos (by rw [hv]; rfl)

namespace Forest

variable {f : Forest} {parent : Option Nat} {name : String} {P : Node → Prop}

def Every (P : Node → Prop) (f : Forest) : Prop := ∀ p ∈ f.planted, P p.node

theorem Every.insert (h : f.Every P) (hplain : ∀ name, P (.plain name)) :
    (f.insert parent (.plain name)).Every P := by
  intro p hp
  rcases List.mem_append.mp hp with hp | hp
  · exact h p hp
  · obtain rfl := List.mem_singleton.mp hp
    exact hplain name

theorem Every.ensureBelow (h : f.Every P) (hplain : ∀ name, P (.plain name)) :
    (f.ensureBelow parent name).1.Every P := by
  rw [Forest.ensureBelow]
  cases f.findBelow parent name with
  | some id => exact h
  | none => exact h.insert hplain

theorem Every.ensureFrom (h : f.Every P) (hplain : ∀ name, P (.plain name)) (rest : List String) :
    (f.ensureFrom parent name rest).1.Every P := by
  induction rest generalizing f parent name with
  | nil => exact h.ensureBelow hplain
  | cons next rest ih => exact ih (h.ensureBelow hplain)

theorem Every.attach (h : f.Every P) (hplain : ∀ name, P (.plain name)) (hattach : ∀ n v, P n → P (n.attach v))
    (s : Selector) (v : Directive) : (f.attach s v).Every P := by
  have hensure : (f.ensure s).1.Every P := h.ensureFrom hplain s.inner
  intro p hp
  obtain ⟨id, hid⟩ := List.mem_iff_getElem?.mp hp
  simp only [Forest.attach, modify, List.getElem?_modify, Option.map_eq_map, Option.map_eq_some_iff] at hid
  obtain ⟨q, hq, rfl⟩ := hid
  have hnode := hensure q (List.mem_of_getElem? hq)
  split
  · exact hattach q.node v hnode
  · exact hnode

end Forest

theorem settled_shown (s : Spec) : s.shown.Every Node.Settled := by
  have hattach (ps : List (Selector × Directive)) {f : Forest} (hf : f.Every Node.Settled) :
      (ps.foldl (fun f p => f.attach p.1 p.2) f).Every Node.Settled := by
    induction ps generalizing f with
    | nil => exact hf
    | cons p ps ih => exact ih (hf.attach settled_plain (fun n v hn => hn.attach v) p.1 p.2)
  exact hattach _ nofun

/-- The tag of a node tells what the first directive on it that is not a repetition needs. -/
theorem emitted_tags_follow_directives (s : Spec) {id : Nat} {n : Node} (h : s.emitted.node? id = some n) :
    n.Tagged := by
  rw [(emitted_answers s).node?] at h
  obtain ⟨p, hp, rfl⟩ := Option.map_eq_some_iff.mp h
  exact (settled_shown s p (List.mem_of_getElem? hp)).tagged

def notice : Definition :=
  ⟨"Notice", [
    ⟨.field, "lines", none, [⟨.viewFor, some "line", none⟩]⟩,
    ⟨.method, "choose", none, [⟨.event .buttonTap, some "line", none⟩]⟩,
    ⟨.field, "draft", some .text, [⟨.mutation .bind, some "line", some "draft"⟩]⟩]⟩

def noticeSpec : Spec :=
  let line : Selector := ⟨"line", []⟩
  ⟨"Notice", [
    ⟨.field, "lines", some .collection, [.viewFor line], []⟩,
    ⟨.method, "choose", none, [.event .buttonTap line], [⟨line, .buttonTap, false, []⟩]⟩,
    ⟨.field, "draft", some .text, [.mutation .bind (.key "draft") line],
      [⟨line, .inputChange, true, [⟨.bind, .key "draft"⟩]⟩]⟩],
    ⟨[((line, .inputChange), ⟨"draft", none, [⟨.bind, .key "draft"⟩]⟩),
      ((line, .buttonTap), ⟨"choose", some "choose", []⟩)], [(line, ⟨"lines", .key "lines"⟩)]⟩⟩

theorem notice_lines_are_buttons : notice.validate = .ok noticeSpec ∧
    ∃ n, noticeSpec.emitted.node? 0 = some n ∧ n.Tagged ∧ n.tag = .button ∧
      n.directives = [.eachItem (.key "lines"), .on .buttonTap "choose", .bind (.key "draft"),
        .on .inputChange "draft"] := by
  have hs : notice.validate = .ok noticeSpec := by cbv
  have hn : noticeSpec.emitted.node? 0 = some ⟨"line", .button, [.eachItem (.key "lines"),
      .on .buttonTap "choose", .bind (.key "draft"), .on .inputChange "draft"]⟩ := by cbv
  exact ⟨hs, _, hn, emitted_tags_follow_directives noticeSpec hn, rfl, rfl⟩

end ViewWiring.View
