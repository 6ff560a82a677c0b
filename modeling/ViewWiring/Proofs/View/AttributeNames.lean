import Mathlib.Data.List.Nodup
import ViewWiring.Proofs.View.Repetition
import ViewWiring.Proofs.View.Tags

namespace ViewWiring.View

open Address Binding Component

namespace Directive

def listed : Directive → List (String × String)
  | each collection item index =>
      [("for", "\x7b\x7b" ++ collection.text ++ "\x7d\x7d"), ("for-item", item), ("for-index", index)]
  | bind path => [("value", "\x7b\x7b" ++ path.text ++ "\x7d\x7d")]
  | on e handler => [("bind:" ++ e.attributeName, handler)]

def written (x : String × String) : String := " " ++ x.1 ++ "=\"" ++ x.2 ++ "\""

theorem attributes_eq (v : Directive) : v.attributes = String.join (v.listed.map written) := by
  cases v <;> simp [attributes, listed, written, String.join_cons, ← String.toList_inj]

theorem event_ne_fixed {name event : String} (h : name ∈ ["for", "for-item", "for-index", "value"]) :
    "bind:" ++ event ≠ name := by
  simp only [List.mem_cons, List.not_mem_nil, or_false] at h
  rcases h with rfl | rfl | rfl | rfl <;> rw [ne_eq, ← String.toList_inj] <;> simp

def valuesOf (name : String) (ds : List Directive) : List String :=
  ((ds.flatMap listed).filter fun x => x.1 = name).map Prod.snd

def isSender : Directive → Bool
  | on .. => true
  | _ => false

def bound? : Directive → Option Path
  | bind path => some path
  | _ => none

variable {ds : List Directive}

theorem valuesOf_append (name : String) (ds more : List Directive) :
    valuesOf name (ds ++ more) = valuesOf name ds ++ valuesOf name more := by
  simp [valuesOf]

theorem valuesOf_cons (name : String) (v : Directive) (ds : List Directive) :
    valuesOf name (v :: ds) = ((v.listed.filter fun x => x.1 = name).map Prod.snd) ++ valuesOf name ds := by
  simp [valuesOf]

theorem valuesOf_value (ds : List Directive) :
    valuesOf "value" ds = (ds.filterMap bound?).map fun path => "\x7b\x7b" ++ path.text ++ "\x7d\x7d" := by
  induction ds with
  | nil => rfl
  | cons v ds ih =>
      rw [valuesOf_cons, ih, List.filterMap_cons]
      cases v with
      | each | bind => simp [listed, bound?]
      | on e handler => simp [listed, bound?, event_ne_fixed]

theorem length_valuesOf_each {name : String} (h : name ∈ ["for", "for-item", "for-index"]) (ds : List Directive) :
    (valuesOf name ds).length = ds.countP isRepeat := by
  have hfixed : name ∈ ["for", "for-item", "for-index", "value"] := by
    simp only [List.mem_cons, List.not_mem_nil, or_false] at h ⊢
    tauto
  induction ds with
  | nil => rfl
  | cons v ds ih =>
      rw [valuesOf_cons, List.length_append, ih, List.countP_cons, Nat.add_comm]
      congr 1
      cases v with
      | on e handler => simp [listed, isRepeat, event_ne_fixed hfixed]
      | each | bind =>
          simp only [List.mem_cons, List.not_mem_nil, or_false] at h
          rcases h with rfl | rfl | rfl <;> simp [listed, isRepeat]

theorem valuesOf_event (event : String) (ds : List Directive) :
    valuesOf ("bind:" ++ event) (ds.filter isSender) = valuesOf ("bind:" ++ event) ds := by
  induction ds with
  | nil => rfl
  | cons v ds ih =>
      rw [valuesOf_cons, List.filter_cons]
      cases v with
      | on e handler => rw [isSender, if_pos rfl, valuesOf_cons, ih]
      | each | bind =>
          have hnone {name : String} (h : name ∈ ["for", "for-item", "for-index", "value"]) :
              name ≠ "bind:" ++ event := (event_ne_fixed h).symm
          simp [listed, isSender, ih, hnone]

theorem perm_valuesOf {more : List Directive} (h : ds.Perm more) (name : String) :
    (valuesOf name ds).Perm (valuesOf name more) :=
  ((h.flatMap_right listed).filter _).map _

inductive Clash : Directive → Directive → Prop
  | each (c i j c' i' j') : Clash (each c i j) (each c' i' j')
  | bind (path path') : Clash (bind path) (bind path')
  | on {e e' : EventKind} (h : e.attributeName = e'.attributeName) (m m') : Clash (on e m) (on e' m')

theorem disjoint_names_iff {u v : Directive} :
    List.Disjoint (u.listed.map Prod.fst) (v.listed.map Prod.fst) ↔ ¬ u.Clash v := by
  have hevent {name event : String} (h : name ∈ ["for", "for-item", "for-index", "value"]) :
      "bind:" ++ event ≠ name ∧ name ≠ "bind:" ++ event := ⟨event_ne_fixed h, (event_ne_fixed h).symm⟩
  cases u with
  | each c i j =>
      cases v with
      | each c' i' j' => exact iff_of_false (by simp [listed]) (not_not_intro (.each ..))
      | bind | on => exact iff_of_true (by simp [listed, hevent]) nofun
  | bind path =>
      cases v with
      | bind path' => exact iff_of_false (by simp [listed]) (not_not_intro (.bind ..))
      | each | on => exact iff_of_true (by simp [listed, hevent]) nofun
  | on e m =>
      cases v with
      | on e' m' =>
          have hclash : (Directive.on e m).Clash (.on e' m') ↔ e.attributeName = e'.attributeName :=
            ⟨fun | .on h .. => h, fun h => .on h m m'⟩
          simp [hclash, listed, eq_comm]
      | each | bind => exact iff_of_true (by simp [listed, hevent]) nofun

theorem nodup_names_iff (hds : ds.Nodup) :
    ((ds.flatMap listed).map Prod.fst).Nodup ↔ ∀ u ∈ ds, ∀ v ∈ ds, u ≠ v → ¬ u.Clash v := by
  have hown : ∀ v ∈ ds, (v.listed.map Prod.fst).Nodup := by
    intro v _
    cases v <;> simp [listed]
  rw [List.map_flatMap, List.nodup_flatMap, and_iff_right hown]
  constructor
  · intro h u hu v hv hne
    have : Std.Symm (Function.onFun List.Disjoint fun v : Directive => v.listed.map Prod.fst) :=
      ⟨fun _ _ h => h.symm⟩
    exact disjoint_names_iff.mp (h.forall hu hv hne)
  · intro h
    exact hds.pairwise_of_forall_ne fun u hu v hv hne => disjoint_names_iff.mpr (h u hu v hv hne)

end Directive

namespace Node

def listed (n : Node) : List (String × String) := n.directives.flatMap Directive.listed

def valuesOf (n : Node) (name : String) : List String := Directive.valuesOf name n.directives

theorem attributes_eq (n : Node) :
    n.attributes = "id=\"" ++ n.name ++ "\"" ++ String.join (n.listed.map Directive.written) := by
  have hjoin (ds : List Directive) : String.join (ds.map Directive.attributes) =
      String.join ((ds.flatMap Directive.listed).map Directive.written) := by
    induction ds with
    | nil => rfl
    | cons v ds ih =>
        rw [List.map_cons, String.join_cons, ih, List.flatMap_cons, List.map_append, String.join_append,
          v.attributes_eq]
  rw [attributes, hjoin, listed]

end Node

end ViewWiring.View

namespace ViewWiring.Component.Spec

open Address Binding View

def Binds (s : Spec) (r : Selector) (path : Path) : Prop :=
  ∃ e p, s.wiring.pipelineAt r e = some p ∧ ⟨.bind, path⟩ ∈ p.mutations

def ChangesTwice (s : Spec) (r : Selector) : Prop :=
  ∃ p q, s.wiring.pipelineAt r .inputChange = some p ∧ s.wiring.pipelineAt r .checkboxChange = some q

structure Attributed (s : Spec) (r : Selector) (n : Node) : Prop where
  written : n.attributes = "id=\"" ++ n.name ++ "\"" ++ String.join (n.listed.map Directive.written)
  handlers : ∀ event, (n.valuesOf ("bind:" ++ event)).Perm
    ((EventKind.all.filter fun e => e.attributeName = event).flatMap fun e =>
      (s.wiring.pipelineAt r e).toList.map Pipeline.member)
  handler : ∀ event m m', m ∈ n.valuesOf ("bind:" ++ event) → m' ∈ n.valuesOf ("bind:" ++ event) →
    m = m' ∨ event = "change" ∧ s.ChangesTwice r
  values : ∃ paths : List Path, paths.Nodup ∧ (∀ path, path ∈ paths ↔ s.Binds r path) ∧
    n.valuesOf "value" = paths.map fun path => "\x7b\x7b" ++ path.text ++ "\x7d\x7d"
  repeats : s.ViewsOnce → ∀ name ∈ ["for", "for-item", "for-index"], (n.valuesOf name).length ≤ 1
  distinct : s.ViewsOnce → ((n.listed.map Prod.fst).Nodup ↔
    (∀ path path', s.Binds r path → s.Binds r path' → path = path') ∧ ¬ s.ChangesTwice r)

theorem eq_or_changes {e e' : EventKind} (h : e.attributeName = e'.attributeName) :
    e = e' ∨ e = .inputChange ∧ e' = .checkboxChange ∨ e = .checkboxChange ∧ e' = .inputChange := by
  cases e <;> cases e' <;> simp_all [EventKind.attributeName]

theorem valuesOf_senders (s : Spec) (r : Selector) (event : String) (es : List EventKind) :
    Directive.valuesOf ("bind:" ++ event) (es.flatMap fun e =>
        (s.wiring.pipelineAt r e).toList.map fun p => .on e p.member) =
      (es.filter fun e => e.attributeName = event).flatMap fun e =>
        (s.wiring.pipelineAt r e).toList.map Pipeline.member := by
  induction es with
  | nil => rfl
  | cons e es ih =>
      rw [List.flatMap_cons, Directive.valuesOf_append, ih, List.filter_cons]
      by_cases he : e.attributeName = event <;> cases hp : s.wiring.pipelineAt r e <;>
        simp [he, hp, Directive.valuesOf, Directive.listed]

namespace Compiles

variable {s : Spec} {ms : List Member} (h : s.Compiles ms)

include h

theorem senders_perm (r : Selector) : ((s.shown.directivesAt r).filter Directive.isSender).Perm
    (EventKind.all.flatMap fun e => (s.wiring.pipelineAt r e).toList.map fun p => .on e p.member) := by
  have hsenders : (EventKind.all.flatMap fun e =>
      (s.wiring.pipelineAt r e).toList.map fun p => Directive.on e p.member).Nodup := by
    simp only [EventKind.all, List.flatMap_cons, List.flatMap_nil]
    cases s.wiring.pipelineAt r .inputChange <;> cases s.wiring.pipelineAt r .buttonTap <;>
      cases s.wiring.pipelineAt r .checkboxChange <;> simp
  rw [List.perm_ext_iff_of_nodup (((shows_shown s).nodup r).filter _) hsenders]
  intro v
  have hall (e : EventKind) : e ∈ EventKind.all := by cases e <;> simp [EventKind.all]
  cases v with
  | each | bind => simp [Directive.isSender]
  | on e m => simp [Directive.isSender, h.on_mem_shown, hall]

variable {r : Selector} {n : Node}

theorem handlers_perm (hn : s.shown.directivesAt r = n.directives) (event : String) :
    (n.valuesOf ("bind:" ++ event)).Perm ((EventKind.all.filter fun e => e.attributeName = event).flatMap fun e =>
      (s.wiring.pipelineAt r e).toList.map Pipeline.member) := by
  rw [Node.valuesOf, ← Directive.valuesOf_event, ← hn, ← valuesOf_senders]
  exact Directive.perm_valuesOf (h.senders_perm r) _

theorem handler_of_event (hn : s.shown.directivesAt r = n.directives) {event m m' : String}
    (hm : m ∈ n.valuesOf ("bind:" ++ event)) (hm' : m' ∈ n.valuesOf ("bind:" ++ event)) :
    m = m' ∨ event = "change" ∧ s.ChangesTwice r := by
  simp only [(h.handlers_perm hn event).mem_iff, List.mem_flatMap, List.mem_filter, decide_eq_true_eq, List.mem_map,
    Option.mem_toList] at hm hm'
  obtain ⟨e, ⟨_, rfl⟩, p, hp, rfl⟩ := hm
  obtain ⟨e', ⟨_, he⟩, p', hp', rfl⟩ := hm'
  obtain rfl | ⟨rfl, rfl⟩ | ⟨rfl, rfl⟩ := eq_or_changes he
  · exact .inl (congrArg Pipeline.member (Option.some.inj (hp.symm.trans hp')))
  · exact .inr ⟨rfl, p', p, hp', hp⟩
  · exact .inr ⟨rfl, p, p', hp, hp'⟩

theorem bind_mem_iff (hn : s.shown.directivesAt r = n.directives) (path : Path) :
    .bind path ∈ n.directives ↔ s.Binds r path := by
  rw [← hn, h.bind_mem_shown, Binds]

/-- Directives that clash are two repetitions, two paths, or two events of one name. -/
theorem eq_of_clash (hs : s.ViewsOnce) (hn : s.shown.directivesAt r = n.directives)
    (hpaths : ∀ path path', s.Binds r path → s.Binds r path' → path = path') (hchanges : ¬ s.ChangesTwice r)
    {u v : Directive} (hu : u ∈ n.directives) (hv : v ∈ n.directives) (hclash : u.Clash v) : u = v := by
  cases hclash with
  | each c i j c' i' j' =>
      obtain ⟨p, hp, hc⟩ := (h.repeat_mem_iff hs rfl).mp (hn.symm ▸ hu)
      obtain ⟨p', hp', hc'⟩ := (h.repeat_mem_iff hs rfl).mp (hn.symm ▸ hv)
      rw [hc, hc', Option.some.inj (hp.symm.trans hp')]
  | bind path path' => rw [hpaths _ _ ((h.bind_mem_iff hn path).mp hu) ((h.bind_mem_iff hn path').mp hv)]
  | @on e e' hname m m' =>
      rw [← hn, h.on_mem_shown] at hu hv
      obtain ⟨p, hp, rfl⟩ := hu
      obtain ⟨p', hp', rfl⟩ := hv
      obtain rfl | ⟨rfl, rfl⟩ | ⟨rfl, rfl⟩ := eq_or_changes hname
      · rw [Option.some.inj (hp.symm.trans hp')]
      · exact absurd ⟨p, p', hp, hp'⟩ hchanges
      · exact absurd ⟨p', p, hp', hp⟩ hchanges

theorem names_nodup_iff (hs : s.ViewsOnce) (hn : s.shown.directivesAt r = n.directives) :
    (n.listed.map Prod.fst).Nodup ↔
      (∀ path path', s.Binds r path → s.Binds r path' → path = path') ∧ ¬ s.ChangesTwice r := by
  rw [Node.listed, Directive.nodup_names_iff (hn ▸ (shows_shown s).nodup r)]
  constructor
  · intro hclash
    constructor
    · intro path path' hp hp'
      by_contra hne
      have hdistinct : Directive.bind path ≠ .bind path' := by simpa using hne
      exact hclash _ ((h.bind_mem_iff hn path).mpr hp) _ ((h.bind_mem_iff hn path').mpr hp') hdistinct (.bind ..)
    · rintro ⟨p, q, hp, hq⟩
      have hinput := h.on_mem_shown.mpr ⟨p, hp, rfl⟩
      have hcheckbox := h.on_mem_shown.mpr ⟨q, hq, rfl⟩
      have hname : EventKind.inputChange.attributeName = EventKind.checkboxChange.attributeName := rfl
      rw [hn] at hinput hcheckbox
      exact hclash _ hinput _ hcheckbox nofun (.on hname ..)
  · rintro ⟨hpaths, hchanges⟩ u hu v hv hne hclash
    exact hne (h.eq_of_clash hs hn hpaths hchanges hu hv hclash)

theorem attributed {id : Nat} (hid : s.shown.node? id = some n) (hn : s.shown.directivesAt r = n.directives) :
    s.Attributed r n := by
  constructor
  case written => exact n.attributes_eq
  case handlers => exact h.handlers_perm hn
  case handler => exact fun _ _ _ hm hm' => h.handler_of_event hn hm hm'
  case values =>
    have hbound (v : Directive) (path : Path) : v.bound? = some path ↔ v = .bind path := by
      cases v <;> simp [Directive.bound?]
    have hnodup : n.directives.Nodup := hn ▸ (shows_shown s).nodup r
    refine ⟨n.directives.filterMap Directive.bound?, hnodup.filterMap ?_, ?_, Directive.valuesOf_value _⟩
    · intro u v path hu hv
      rw [(hbound u path).mp hu, (hbound v path).mp hv]
    · intro path
      rw [← h.bind_mem_iff hn, List.mem_filterMap]
      simp only [hbound, exists_eq_right]
  case repeats =>
    intro hs name hname
    rw [Node.valuesOf, Directive.length_valuesOf_each hname]
    exact (h.repeatsAgree hs).single id n hid
  case distinct => exact fun hs => h.names_nodup_iff hs hn

end Compiles

end ViewWiring.Component.Spec

namespace ViewWiring.View

open Address Binding Component

/-- A node says a thing once for each connection at its selector: a name comes twice where
two paths are bound, or where both events that are called a change are connected. -/
theorem emitted_attributes_follow_wiring {d : Definition} {s : Spec} (h : d.validate = .ok s) {id : Nat} {n : Node}
    (hn : s.emitted.node? id = some n) : ∃ r, s.emitted.selectorOf? id = some (some r) ∧ s.Attributed r n := by
  have hanswers := emitted_answers s
  rw [hanswers.node?] at hn
  obtain ⟨r, hr, hd⟩ := Forest.directivesAt_address? (shows_shown s).ordered hn
  refine ⟨r, ?_, (Spec.compiles_of_validate h).attributed hn hd⟩
  rw [hanswers.selectorOf?, hr]

theorem notice_attributes_follow_wiring : notice.validate = .ok noticeSpec ∧ noticeSpec.ViewsOnce ∧
    ∃ n, noticeSpec.emitted.node? 0 = some n ∧ n.listed.length = 6 ∧
      ∃ r, noticeSpec.emitted.selectorOf? 0 = some (some r) ∧ noticeSpec.Attributed r n := by
  have hs : notice.validate = .ok noticeSpec := by cbv
  have honce : noticeSpec.ViewsOnce := by simp [Spec.ViewsOnce, noticeSpec]
  have hn : noticeSpec.emitted.node? 0 = some ⟨"line", .button, [.eachItem (.key "lines"),
      .on .buttonTap "choose", .bind (.key "draft"), .on .inputChange "draft"]⟩ := by cbv
  exact ⟨hs, honce, _, hn, rfl, emitted_attributes_follow_wiring hs hn⟩

def dial : Definition :=
  ⟨"Dial", [
    ⟨.field, "level", some .text, [⟨.mutation .bind, some "dial", some "level"⟩,
      ⟨.mutation .bind, some "dial", some "legend"⟩]⟩,
    ⟨.method, "press", none, [⟨.event .checkboxChange, some "dial", none⟩]⟩]⟩

def dialSpec : Spec :=
  let site : Selector := ⟨"dial", []⟩
  ⟨"Dial", [
    ⟨.field, "level", some .text, [.mutation .bind (.key "level") site, .mutation .bind (.key "legend") site],
      [⟨site, .inputChange, true, [⟨.bind, .key "level"⟩, ⟨.bind, .key "legend"⟩]⟩]⟩,
    ⟨.method, "press", none, [.event .checkboxChange site], [⟨site, .checkboxChange, false, []⟩]⟩],
    ⟨[((site, .inputChange), ⟨"level", none, [⟨.bind, .key "level"⟩, ⟨.bind, .key "legend"⟩]⟩),
      ((site, .checkboxChange), ⟨"press", some "press", []⟩)], []⟩⟩

theorem dial_says_things_twice : dial.validate = .ok dialSpec ∧ dialSpec.ViewsOnce ∧
    ∃ n, dialSpec.emitted.node? 0 = some n ∧
      n.valuesOf "value" = ["\x7b\x7blevel\x7d\x7d", "\x7b\x7blegend\x7d\x7d"] ∧
      n.valuesOf "bind:change" = ["level", "press"] ∧ ¬ (n.listed.map Prod.fst).Nodup := by
  have hn : dialSpec.emitted.node? 0 = some ⟨"dial", .input, [.bind (.key "level"), .bind (.key "legend"),
      .on .inputChange "level", .on .checkboxChange "press"]⟩ := by cbv
  exact ⟨by cbv, by simp [Spec.ViewsOnce, dialSpec], _, hn, by cbv, by cbv, by decide⟩

end ViewWiring.View
