import ViewWiring.Proofs.Outcome
import ViewWiring.State.Place

namespace ViewWiring.State

open Address

namespace Slot

variable {s : Slot} {v : Value} {f : Fault}

theorem value_eq_ok : s.value = .ok v ↔ s.current? = some v := by
  unfold value
  split <;> simp [*]

theorem value_eq_error : s.value = .error f ↔ s.current? = none ∧ f = s.absence := by
  unfold value
  split <;> simp [*, eq_comm]

theorem put_current (h : s.current? = some v) : s.put v = s.container := by
  cases s with
  | entry es name => exact congrArg Value.map (Entries.put_of_get? h)
  | element xs i =>
      obtain ⟨hi, rfl⟩ := List.getElem?_eq_some_iff.mp h
      exact congrArg Value.sequence (List.set_getElem_self hi)

end Slot

theorem slot_cases {v : Value} {k : Key} {s : Slot} (h : v.slot k = .ok s) :
    (∃ es name, v = .map es ∧ k = .field name ∧ s = .entry es name) ∨
      ∃ xs i, v = .sequence xs ∧ k = .index i ∧ i < xs.length ∧ s = .element xs i := by
  unfold Value.slot at h
  split at h
  · exact .inl ⟨_, _, rfl, rfl, (Except.ok.inj h).symm⟩
  · split at h
    · exact .inr ⟨_, _, rfl, rfl, ‹_›, (Except.ok.inj h).symm⟩
    · cases h
  · cases h
  · cases h

/-- To follow keys is to walk to the last slot and to read it. -/
theorem follow_eq_locate (v : Value) (k : Key) (ks : List Key) :
    v.follow (k :: ks) = v.locate k ks >>= fun p => p.slot.value := by
  induction ks generalizing v k with
  | nil =>
      rw [Value.follow, Value.child, Value.locate]
      cases v.slot k with
      | error f => rfl
      | ok s => cases h : s.value <;> simp [bind, Except.bind, pure, Except.pure, Value.follow, h]
  | cons k' ks ih =>
      rw [Value.follow, Value.child, Value.locate]
      cases v.slot k with
      | error f => rfl
      | ok s =>
          cases h : s.value with
          | error f => simp [bind, Except.bind, h]
          | ok w =>
              simp only [bind, Except.bind, h, ih]
              cases w.locate k' ks <;> rfl

/-- The way to a place, put together again around its container, is the tree
that was walked; and the last key made the slot. -/
theorem locate_spec {v : Value} {k : Key} {ks : List Key} {p : Place} (h : v.locate k ks = .ok p) :
    p.rebuild p.slot.container = v ∧
      ∃ (w : Value) (last : Key), (k :: ks).getLast? = some last ∧ w.slot last = .ok p.slot := by
  induction ks generalizing v k p with
  | nil =>
      obtain ⟨s, hs, hp⟩ := bind_eq_ok.mp h
      cases hp
      exact ⟨Value.container_of_slot hs, v, k, rfl, hs⟩
  | cons k' ks ih =>
      obtain ⟨s, hs, h⟩ := bind_eq_ok.mp h
      obtain ⟨w, hw, h⟩ := bind_eq_ok.mp h
      obtain ⟨q, hq, hp⟩ := bind_eq_ok.mp h
      cases hp
      obtain ⟨hrebuild, hlast⟩ := ih hq
      have houter : s.put w = v :=
        (Slot.put_current (Slot.value_eq_ok.mp hw)).trans (Value.container_of_slot hs)
      constructor
      · rw [Place.rebuild, List.foldr_cons]
        exact (congrArg s.put hrebuild).trans houter
      · rwa [List.getLast?_cons_cons]

def Key.name? : Key → Option String
  | .field name => some name
  | .index _ => none

def fieldName? : Segment → Option String
  | .key name => some name
  | .index _ | .placeholder _ => none

/-- Indices fill placeholders in, and leave the named steps where they are. -/
theorem names_of_keysOf {ss : List Segment} {is : List Nat} {ks : List Key}
    (h : keysOf ss is = .ok ks) : ks.map Key.name? = ss.map fieldName? := by
  fun_induction keysOf ss is generalizing ks with
  | case1 => cases h; rfl
  | case2 is name ss ih | case3 is i ss ih | case5 name ss i is ih =>
      obtain ⟨ks, hks, rfl⟩ := map_eq_ok.mp h
      exact congrArg (_ :: ·) (ih hks)
  | case4 => cases h

theorem last_field {p : Path} {is : List Nat} {ks : List Key} (h : keysOf p.steps is = .ok ks)
    {name : String} (hlast : (Key.field p.field :: ks).getLast? = some (.field name)) :
    p.segments.getLast? = some (.key name) := by
  have hnames : (Key.field p.field :: ks).map Key.name? = p.segments.map fieldName? :=
    congrArg (some p.field :: ·) (names_of_keysOf h)
  have hname := congrArg List.getLast? hnames
  rw [List.getLast?_map, List.getLast?_map, hlast] at hname
  obtain ⟨s, hs, hsname⟩ := Option.map_eq_some_iff.mp hname.symm
  cases s <;> cases hsname
  exact hs

variable {root : Value} {p : Path} {it : Option Iteration} {place : Place}

theorem along_bind {α β : Type} (p : Path) (x : Except Fault α) (f : α → Except Fault β) :
    along p (x >>= f) = along p x >>= fun a => along p (f a) := by
  cases x <;> rfl

def concreteKeys (p : Path) (it : Option Iteration) : Except Fault (List Key) :=
  keysOf p.segments (suppliedIndices it)

theorem lookup_of_keys {ks : List Key} (h : concreteKeys p it = .ok ks) (root : Value) :
    root.lookup p it = along p (root.follow ks) := by
  obtain ⟨inner, hinner, rfl⟩ := map_eq_ok.mp h
  rw [Value.lookup, innerKeys, hinner]
  rfl

theorem lookup_eq_resolve (root : Value) (p : Path) (it : Option Iteration) :
    root.lookup p it = root.resolve p it >>= fun place => along p place.slot.value := by
  rw [Value.lookup, Value.resolve]
  cases innerKeys p it with
  | error e => rfl
  | ok ks =>
      change along p (root.follow (.field p.field :: ks)) = _
      rw [follow_eq_locate, along_bind]
      rfl

theorem lookup_of_resolve (h : root.resolve p it = .ok place) :
    root.lookup p it = along p place.slot.value := by
  rw [lookup_eq_resolve, h]
  rfl

/-- A resolved slot is an element in range, or an entry under the name that the
path ends in. -/
theorem resolve_spec (h : root.resolve p it = .ok place) :
    place.rebuild place.slot.container = root ∧
      ((∃ es name, place.slot = .entry es name ∧ p.segments.getLast? = some (.key name)) ∨
        ∃ xs i, place.slot = .element xs i ∧ i < xs.length) := by
  obtain ⟨ks, hks, h⟩ := bind_eq_ok.mp h
  obtain ⟨hrebuild, w, last, hlast, hslot⟩ := locate_spec (mapError_eq_ok.mp h)
  refine ⟨hrebuild, ?_⟩
  rcases slot_cases hslot with ⟨es, name, -, rfl, hs⟩ | ⟨xs, i, -, -, hi, hs⟩
  · exact .inl ⟨es, name, hs, last_field (mapError_eq_ok.mp hks) hlast⟩
  · exact .inr ⟨xs, i, hs, hi⟩

structure Place.Agrees (root : Value) (p : Path) (it : Option Iteration) (place : Place) : Prop where
  present : ∀ v, place.current? = some v ↔ root.lookup p it = .ok v
  absent : place.current? = none ↔
    ∃ name, p.segments.getLast? = some (.key name) ∧ root.lookup p it = .error ⟨p, .missingField name⟩
  inRange : ∀ xs i, place.slot = .element xs i → i < xs.length
  untouched : place.rebuild place.slot.container = root

theorem current_iff_lookup (h : root.resolve p it = .ok place) (v : Value) :
    place.current? = some v ↔ root.lookup p it = .ok v := by
  rw [lookup_of_resolve h, along, mapError_eq_ok, Slot.value_eq_ok]
  rfl

theorem absent_iff_lookup (h : root.resolve p it = .ok place) :
    place.current? = none ↔
      ∃ name, p.segments.getLast? = some (.key name) ∧
        root.lookup p it = .error ⟨p, .missingField name⟩ := by
  constructor
  · intro hnone
    have hvalue : place.slot.value = .error place.slot.absence := Slot.value_eq_error.mpr ⟨hnone, rfl⟩
    rcases (resolve_spec h).2 with ⟨es, name, hs, hlast⟩ | ⟨xs, i, hs, hi⟩
    · refine ⟨name, hlast, ?_⟩
      rw [lookup_of_resolve h, hvalue, hs]
      rfl
    · -- an element in range is always there
      rw [Place.current?, hs] at hnone
      exact absurd (List.getElem?_eq_none_iff.mp hnone) (Nat.not_le.mpr hi)
  · rintro ⟨name, -, herr⟩
    cases hv : place.current? with
    | none => rfl
    | some v =>
        rw [(current_iff_lookup h v).mp hv] at herr
        cases herr

theorem reading_agrees_with_resolving (root : Value) (p : Path) (it : Option Iteration) :
    match root.resolve p it with
    | .ok place => place.Agrees root p it
    | .error e => root.lookup p it = .error e := by
  split
  · rename_i place h
    obtain ⟨huntouched, hslot⟩ := resolve_spec h
    refine ⟨current_iff_lookup h, absent_iff_lookup h, ?_, huntouched⟩
    intro xs i hs
    rcases hslot with ⟨es, name, hs', -⟩ | ⟨ys, j, hs', hj⟩
    · cases hs.symm.trans hs'
    · cases hs.symm.trans hs'
      exact hj
  · rename_i e h
    rw [lookup_eq_resolve, h]
    rfl

end ViewWiring.State
