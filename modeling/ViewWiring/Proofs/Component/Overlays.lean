import Mathlib
import ViewWiring.Proofs.Component.Lifetime

namespace ViewWiring.Entries

variable {κ α : Type} [DecidableEq κ]

def last? (es : Entries κ α) (key : κ) : Option α := get? es.reverse key

theorem get?_append (es fs : Entries κ α) (key : κ) :
    get? (es ++ fs) key = (es.get? key).or (fs.get? key) := by
  induction es with
  | nil => rfl
  | cons e es ih =>
      rw [List.cons_append, get?, get?, ih]
      split <;> rfl

theorem get?_flatten (ess : List (Entries κ α)) (key : κ) :
    get? ess.flatten key = ess.findSome? fun es => es.get? key := by
  induction ess with
  | nil => rfl
  | cons es ess ih =>
      rw [List.flatten_cons, get?_append, ih, List.findSome?_cons]
      cases es.get? key <;> rfl

theorem last?_flatten (ess : List (Entries κ α)) (key : κ) :
    last? ess.flatten key = ess.reverse.findSome? fun es => es.last? key := by
  rw [last?, List.reverse_flatten, get?_flatten, ← List.map_reverse, List.findSome?_map]
  rfl

theorem last?_eq_none_iff (es : Entries κ α) (key : κ) : es.last? key = none ↔ key ∉ es.keys := by
  rw [last?, get?_eq_none_iff, keys, keys, List.map_reverse, List.mem_reverse]

theorem get?_putAll (es new : Entries κ α) (key : κ) :
    (es.putAll new).get? key = (new.last? key).or (es.get? key) := by
  induction new generalizing es with
  | nil => rfl
  | cons e new ih =>
      obtain ⟨k, a⟩ := e
      rw [putAll, List.foldl_cons, ← putAll, ih, last?, last?, List.reverse_cons, get?_append, Option.or_assoc]
      congr 1
      by_cases h : k = key
      · simp [h, get?, get?_put_self]
      · simp [h, get?, get?_put_of_ne es a (Ne.symm h)]

/-- The keys that were there keep their places, and the new ones follow as they are
met first. -/
theorem keys_putAll (es new : Entries κ α) :
    (es.putAll new).keys = es.keys ++ (new.keys.filter fun k => k ∉ es.keys).eraseDups := by
  induction new generalizing es with
  | nil => simp [putAll, keys]
  | cons e new ih =>
      obtain ⟨k, a⟩ := e
      have hkeys : keys ((k, a) :: new) = k :: keys new := rfl
      rw [putAll, List.foldl_cons, ← putAll, ih, keys_put, hkeys]
      by_cases h : k ∈ es.keys
      · simp [h]
      · have hfilter : ((keys new).filter fun x => x ∉ es.keys ++ [k]) =
            ((keys new).filter fun x => x ∉ es.keys).filter fun x => !x == k := by
          rw [List.filter_filter]
          apply List.filter_congr
          intro x _
          by_cases hx : x = k <;> simp [hx]
        rw [if_neg h, hfilter, List.filter_cons_of_pos (by simpa using h), List.eraseDups_cons, List.append_assoc]
        rfl

theorem nodup_keys_putAll {es : Entries κ α} (hes : es.keys.Nodup) (new : Entries κ α) :
    (es.putAll new).keys.Nodup := by
  induction new generalizing es with
  | nil => exact hes
  | cons e new ih =>
      apply ih
      rw [keys_put]
      split
      · exact hes
      · rename_i h
        rw [← List.concat_eq_append]
        exact .concat h hes

end ViewWiring.Entries

namespace ViewWiring.State

theorem Value.lookup_key {es : Entries String Value} {name : String} {v : Value} (h : es.get? name = some v)
    (it : Option Iteration) : (Value.map es).lookup (.key name) it = .ok v := by
  have hvalue : (Slot.entry es name).value = .ok v := by rw [Slot.value, Slot.current?, h]
  change along (.key name) ((Slot.entry es name).value >>= fun w => w.follow []) = .ok v
  rw [hvalue]
  rfl

end ViewWiring.State

namespace ViewWiring.Component

open Address Binding Dispatch State

variable {ν : Type}

/-- What a field holds before anything is laid over it. A field that is shown through
a view is a collection, whether it says so or not. -/
def Member.initial (m : Member) : Value :=
  if m.annotations.any fun a => a.kind = .viewFor then .sequence []
  else match m.type with
    | none => .null
    | some type => type.initial

namespace Definition

def fields (d : Definition) : List Member := d.members.filter fun m => m.kind = .field

def declared (d : Definition) : Entries String Value := d.fields.map fun m => (m.name, m.initial)

theorem keys_declared (d : Definition) : d.declared.keys = d.fields.map Member.name := by
  simp [declared, Entries.keys, Function.comp_def]

theorem nodup_keys_declared {d : Definition} (h : (d.members.map Member.name).Nodup) :
    d.declared.keys.Nodup := by
  rw [keys_declared]
  exact h.sublist (List.filter_sublist.map _)

end Definition

namespace Instance

def overlayAll (i : Instance ν) (overlays : List (Entries String Value)) : Instance ν :=
  overlays.foldl (fun i new => i.overlay (.map new)) i

/-- The value under a name in the last of the overlays that mention it. -/
def latest? (overlays : List (Entries String Value)) (name : String) : Option Value :=
  overlays.reverse.findSome? fun new => new.last? name

theorem overlayAll_eq {i : Instance ν} {root : Entries String Value} (h : i.state = .map root)
    (overlays : List (Entries String Value)) :
    i.overlayAll overlays = { i with state := .map (root.putAll overlays.flatten) } := by
  induction overlays generalizing i root with
  | nil =>
      change i = { i with state := .map root }
      rw [← h]
  | cons new overlays ih =>
      have hfirst : i.overlay (.map new) = { i with state := .map (root.putAll new) } := by
        simp only [overlay, h]
      rw [overlayAll, List.foldl_cons, ← overlayAll, hfirst, ih rfl, List.flatten_cons, Entries.putAll,
        Entries.putAll, Entries.putAll, List.foldl_append]

theorem latest?_eq (overlays : List (Entries String Value)) (name : String) :
    latest? overlays name = Entries.last? overlays.flatten name :=
  (Entries.last?_flatten overlays name).symm

theorem latest?_eq_none_iff {overlays : List (Entries String Value)} {name : String} :
    latest? overlays name = none ↔ ∀ new ∈ overlays, name ∉ new.keys := by
  simp [latest?, Entries.last?_eq_none_iff]

end Instance

theorem Member.initial_described (m : Member) :
    (m.described.type.map FieldType.initial).getD .null = m.initial := by
  rw [described, initial]
  split
  · rfl
  · cases m.type <;> rfl

namespace Spec

variable {s : Spec} {d : Definition}

theorem Compiles.initialState_eq (h : s.Compiles d.members) : s.initialState = .map d.declared := by
  rw [initialState, h.members, List.filter_map, List.map_map, Definition.declared, Definition.fields]
  congr 1
  apply List.map_congr_left
  intro m _
  exact congrArg (Prod.mk m.name) m.initial_described

/-- Only a field is repeated, and at first it holds no item. -/
theorem Compiles.repeated_field (h : s.Compiles d.members) {r : Selector} {p : Repetition}
    (hp : s.wiring.repeatAt r = some p) :
    ∃ m ∈ d.fields, p = ⟨m.name, .key m.name⟩ ∧ m.initial = .sequence [] := by
  obtain ⟨x, hx, hr, rfl⟩ := h.repeatAt_eq_some.mp hp
  rw [h.members] at hx
  obtain ⟨m, hm, rfl⟩ := List.mem_map.mp hx
  have hreadable := h.readable m hm
  have hfirst : m.firstView? = some r := (Member.firstView?_eq hreadable).trans hr
  obtain ⟨a, hfound, -⟩ := Option.bind_eq_some_iff.mp hfirst
  have ha : a ∈ m.annotations := List.mem_of_find?_eq_some hfound
  have hk : a.kind = .viewFor := by simpa using List.find?_some hfound
  have hfield : m.kind = .field := (hreadable.views a ha hk).1
  refine ⟨m, List.mem_filter.mpr ⟨hm, decide_eq_true hfield⟩, rfl, ?_⟩
  rw [Member.initial, if_pos (List.any_eq_true.mpr ⟨a, ha, decide_eq_true hk⟩)]

end Spec

variable {d : Definition} {t : HandlerTable ν} {c : Config} {i : Instance ν}

/-- Overlays of maps leave the declared fields in their order and put the other names
that they mention after them, as each is mentioned first. A name stands for what the
last overlay that mentions it says, or else for what its field holds at first; so a
scope whose collection no overlay mentions is repeated for no item. -/
theorem overlays_fill_declared_fields (h : Instance.build d t c = .ok i)
    (overlays : List (Entries String Value)) :
    ∃ root : Entries String Value, (i.overlayAll overlays).state = .map root ∧
      root.keys.Nodup ∧
      root.keys = d.fields.map Member.name ++
        ((overlays.flatMap Entries.keys).filter fun name => name ∉ d.fields.map Member.name).eraseDups ∧
      (∀ name v, Instance.latest? overlays name = some v → root.get? name = some v) ∧
      (∀ m ∈ d.fields, (∀ new ∈ overlays, m.name ∉ new.keys) → root.get? m.name = some m.initial) ∧
      ∀ r p, i.spec.wiring.repeatAt r = some p → (∀ new ∈ overlays, p.member ∉ new.keys) →
        ∀ it, (i.overlayAll overlays).state.lookup p.collection it = .ok (.sequence []) := by
  obtain ⟨s, hs, -, rfl⟩ := Instance.build_eq_ok.mp h
  have hc := Spec.compiles_of_validate hs
  have hnodup := Definition.nodup_keys_declared hc.names
  have hstate := Instance.overlayAll_eq (i := ⟨s, s.shown, t, s.initialState, .ofConfig c⟩)
    hc.initialState_eq overlays
  have hget (name : String) : (d.declared.putAll overlays.flatten).get? name =
      (Instance.latest? overlays name).or (d.declared.get? name) := by
    rw [Entries.get?_putAll, Instance.latest?_eq]
  have hfield (m : Member) (hm : m ∈ d.fields) (hnew : ∀ new ∈ overlays, m.name ∉ new.keys) :
      (d.declared.putAll overlays.flatten).get? m.name = some m.initial := by
    rw [hget, Instance.latest?_eq_none_iff.mpr hnew, Option.none_or]
    exact (Entries.get?_eq_some_iff hnodup).mpr (List.mem_map_of_mem hm)
  refine ⟨d.declared.putAll overlays.flatten, congrArg Instance.state hstate, ?_, ?_, ?_, hfield, ?_⟩
  · exact Entries.nodup_keys_putAll hnodup _
  · rw [Entries.keys_putAll, d.keys_declared, Entries.keys, List.map_flatten]
    rfl
  · intro name v hv
    rw [hget, hv, Option.some_or]
  · intro r p hp hnew it
    obtain ⟨m, hm, rfl, hempty⟩ := hc.repeated_field hp
    rw [hstate, ← hempty]
    exact Value.lookup_key (hfield m hm hnew) it

def menu : Definition :=
  ⟨"Menu", [
    ⟨.field, "today's dishes", none, [⟨.viewFor, some "menu > dish", none⟩]⟩,
    ⟨.method, "order", none, []⟩,
    ⟨.field, "note", some .text, []⟩,
    ⟨.field, "guest", none, []⟩]⟩

def menuSpec : Spec :=
  let dish : Selector := ⟨"menu", ["dish"]⟩
  ⟨"Menu", [
    ⟨.field, "today's dishes", some .collection, [.viewFor dish], []⟩,
    ⟨.method, "order", none, [], []⟩,
    ⟨.field, "note", some .text, [], []⟩,
    ⟨.field, "guest", none, [], []⟩],
    ⟨[], [(dish, ⟨"today's dishes", .key "today's dishes"⟩)]⟩⟩

def menuBuilt : Instance Empty :=
  ⟨menuSpec, menuSpec.shown, .empty, menuSpec.initialState, .ofConfig .default⟩

def menuOverlays : List (Entries String Value) :=
  [[("table", .string "by the door"), ("note", .string "closed")],
    [("day", .string "Friday"), ("note", .string "open"), ("table", .null)]]

theorem menu_overlays_fill_declared_fields :
    Instance.build menu .empty .default = .ok menuBuilt ∧
    menuBuilt.spec.wiring.repeatAt ⟨"menu", ["dish"]⟩ = some ⟨"today's dishes", .key "today's dishes"⟩ ∧
    (∀ new ∈ menuOverlays, "today's dishes" ∉ new.keys) ∧
    ∃ root : Entries String Value, (menuBuilt.overlayAll menuOverlays).state = .map root ∧
      root.keys = ["today's dishes", "note", "guest", "table", "day"] ∧
      root.get? "note" = some (.string "open") ∧ root.get? "guest" = some .null ∧
      ∀ it, (menuBuilt.overlayAll menuOverlays).state.lookup (.key "today's dishes") it = .ok (.sequence []) := by
  have hs : menu.validate = .ok menuSpec := by cbv
  have hbuilt : Instance.build menu .empty .default = .ok menuBuilt :=
    Instance.build_eq_ok.mpr ⟨menuSpec, hs, by cbv, rfl⟩
  have hnew : ∀ new ∈ menuOverlays, "today's dishes" ∉ new.keys := by decide
  obtain ⟨root, hstate, -, hkeys, hlatest, hfields, hrepeats⟩ :=
    overlays_fill_declared_fields hbuilt menuOverlays
  have hempty := hrepeats ⟨"menu", ["dish"]⟩ ⟨"today's dishes", .key "today's dishes"⟩ rfl hnew
  refine ⟨hbuilt, rfl, hnew, root, hstate, ?_, hlatest "note" _ rfl, ?_, hempty⟩
  · exact hkeys.trans (by cbv)
  · exact hfields ⟨.field, "guest", none, []⟩ (by decide) (by decide)

end ViewWiring.Component
