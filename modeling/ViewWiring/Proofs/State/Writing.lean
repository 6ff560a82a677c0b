import ViewWiring.Dispatch.Handler
import ViewWiring.Proofs.Binding.Tables
import ViewWiring.Proofs.State.Access

namespace ViewWiring.State

open Address Dispatch

namespace Slot

def filled : Slot → Value → Slot
  | entry es name, v => entry (es.put name v) name
  | element xs i, v => element (xs.set i v) i

theorem put_filled (s : Slot) (v w : Value) : (s.filled v).put w = s.put w := by
  cases s with
  | entry es name => exact congrArg Value.map (Entries.put_put es name v w)
  | element xs i => exact congrArg Value.sequence (List.set_set v)

variable {c : Value} {k : Key} {s : Slot}

theorem slot_put (h : c.slot k = .ok s) (v : Value) : (s.put v).slot k = .ok (s.filled v) := by
  rcases slot_cases h with ⟨es, name, rfl, rfl, rfl⟩ | ⟨xs, i, rfl, rfl, hi, rfl⟩
  · rfl
  · simp [put, filled, Value.slot, hi]

theorem current_filled (h : c.slot k = .ok s) (v : Value) : (s.filled v).current? = some v := by
  rcases slot_cases h with ⟨es, name, rfl, rfl, rfl⟩ | ⟨xs, i, rfl, rfl, hi, rfl⟩
  · exact Entries.get?_put_self es name v
  · simp [filled, current?, hi]

end Slot

/-- A tree that was put together again around another container is walked to
the slot of that container. -/
theorem locate_rebuild {v : Value} {k : Key} {ks : List Key} {p : Place} (h : v.locate k ks = .ok p)
    {c : Value} {s : Slot} (hs : ∀ last, (k :: ks).getLast? = some last → c.slot last = .ok s) :
    ∃ q, (p.rebuild c).locate k ks = .ok q ∧ q.slot = s ∧ ∀ w, q.rebuild w = p.rebuild w := by
  induction ks generalizing v k p with
  | nil =>
      obtain ⟨t, ht, hp⟩ := bind_eq_ok.mp h
      cases hp
      exact ⟨⟨[], s⟩, bind_eq_ok.mpr ⟨s, hs k rfl, rfl⟩, rfl, fun _ => rfl⟩
  | cons k' ks ih =>
      obtain ⟨t, ht, h⟩ := bind_eq_ok.mp h
      obtain ⟨u, hu, h⟩ := bind_eq_ok.mp h
      obtain ⟨p', hp', hp⟩ := bind_eq_ok.mp h
      cases hp
      obtain ⟨q, hq, hslot, hrebuild⟩ := ih hp' (by simpa using hs)
      refine ⟨⟨t.filled (p'.rebuild c) :: q.outer, q.slot⟩, ?_, hslot, ?_⟩
      · have hvalue : (t.filled (p'.rebuild c)).value = .ok (p'.rebuild c) :=
          Slot.value_eq_ok.mpr (Slot.current_filled ht _)
        exact bind_eq_ok.mpr ⟨_, Slot.slot_put ht _, bind_eq_ok.mpr ⟨_, hvalue, bind_eq_ok.mpr ⟨q, hq, rfl⟩⟩⟩
      · intro w
        exact (Slot.put_filled t _ _).trans (congrArg t.put (hrebuild w))

variable {root : Value} {p : Path} {it : Option Iteration} {place : Place}

/-- After `v` is put where a path led to, the path leads to the same slot, which
now holds `v`, and what is put there next replaces `v` alone. -/
theorem resolve_set (h : root.resolve p it = .ok place) (v : Value) :
    ∃ q, (place.set v).resolve p it = .ok q ∧ q.slot = place.slot.filled v ∧ q.current? = some v ∧
      ∀ w, q.set w = place.set w := by
  obtain ⟨ks, hks, h⟩ := bind_eq_ok.mp h
  have hlocate := mapError_eq_ok.mp h
  obtain ⟨-, c, last, hlast, hc⟩ := locate_spec hlocate
  have hslot : ∀ k, (Key.field p.field :: ks).getLast? = some k →
      (place.slot.put v).slot k = .ok (place.slot.filled v) := by
    intro k hk
    obtain rfl := Option.some.inj (hlast.symm.trans hk)
    exact Slot.slot_put hc v
  obtain ⟨q, hq, hfilled, hrebuild⟩ := locate_rebuild hlocate hslot
  refine ⟨q, bind_eq_ok.mpr ⟨ks, hks, mapError_eq_ok.mpr hq⟩, hfilled, ?_, ?_⟩
  · rw [Place.current?, hfilled]
    exact Slot.current_filled hc v
  · intro w
    rw [Place.set, hrebuild, hfilled, Slot.put_filled]
    rfl

theorem set_eq_ok (h : root.resolve p it = .ok place) (v : Value) :
    root.set p it v = .ok (place.current?, place.set v) := by
  rw [Value.set, h]
  rfl

theorem set_eq_error {e : PathError} (h : root.resolve p it = .error e) (v : Value) :
    root.set p it v = .error e := by
  rw [Value.set, h]
  rfl

theorem set_current (h : root.resolve p it = .ok place) {x : Value} (hx : place.current? = some x) :
    place.set x = root := by
  rw [Place.set, Slot.put_current hx]
  exact (resolve_spec h).1

theorem absent_iff_fresh (h : root.resolve p it = .ok place) : place.current? = none ↔
    ∃ es name, place.slot = .entry es name ∧ p.segments.getLast? = some (.key name) ∧
      name ∉ es.keys := by
  rw [Place.current?]
  rcases (resolve_spec h).2 with ⟨es, name, hs, hlast⟩ | ⟨xs, i, hs, hi⟩
  · rw [hs, Slot.current?, Entries.get?_eq_none_iff]
    constructor
    · exact fun hn => ⟨es, name, rfl, hlast, hn⟩
    · rintro ⟨_, _, ⟨⟩, -, hn⟩
      exact hn
  · rw [hs]
    simp [Slot.current?, hi]

structure Place.Lens (root : Value) (p : Path) (it : Option Iteration) (place : Place) (v : Value) : Prop where
  done : root.set p it v = .ok (place.current?, place.set v)
  read : (place.set v).lookup p it = .ok v
  previous : ∀ x, place.current? = some x ↔ root.lookup p it = .ok x
  created : place.current? = none ↔ ∃ es name, place.slot = .entry es name ∧
    p.segments.getLast? = some (.key name) ∧ name ∉ es.keys
  restored : ∀ x, root.lookup p it = .ok x → root.set p it x = .ok (some x, root)
  overwritten : ∀ w, (place.set v).set p it w = .ok (some v, place.set w) ∧
    root.set p it w = .ok (place.current?, place.set w)
  keys : ∀ es name, place.slot = .entry es name → ∃ q, (place.set v).resolve p it = .ok q ∧
    q.slot = .entry (es.put name v) name ∧
    (es.put name v).keys = if name ∈ es.keys then es.keys else es.keys ++ [name]

theorem setting_is_lens {ν : Type} (root : Value) (p : Path) (it : Option Iteration) (v : Value) :
    match root.resolve p it with
    | .ok place => place.Lens root p it v
    | .error e => root.set p it v = .error e ∧
        ∀ d : Desk ν, d.state = root → (Request.set p v).perform it d = (d, .error e) := by
  split
  · rename_i place h
    obtain ⟨q, hq, hslot, hcurrent, hset⟩ := resolve_set h v
    constructor
    case done => exact set_eq_ok h v
    case read => exact (current_iff_lookup hq v).mp hcurrent
    case previous => exact current_iff_lookup h
    case created => exact absent_iff_fresh h
    case restored =>
      intro x hx
      have hcurrent : place.current? = some x := (current_iff_lookup h x).mpr hx
      rw [set_eq_ok h x, hcurrent, set_current h hcurrent]
    case overwritten =>
      intro w
      refine ⟨?_, set_eq_ok h w⟩
      rw [set_eq_ok hq w, hcurrent, hset w]
    case keys =>
      intro es name hs
      refine ⟨q, hq, ?_, Entries.keys_put es name v⟩
      rw [hslot, hs]
      rfl
  · rename_i e h
    refine ⟨set_eq_error h v, ?_⟩
    rintro d rfl
    rw [Request.perform, set_eq_error h v]
    rfl

theorem exists_place_of_lookup {v : Value} (h : root.lookup p it = .ok v) :
    ∃ place, root.resolve p it = .ok place ∧ place.current? = some v := by
  rw [lookup_eq_resolve] at h
  obtain ⟨place, hplace, hv⟩ := bind_eq_ok.mp h
  exact ⟨place, hplace, Slot.value_eq_ok.mp (mapError_eq_ok.mp hv)⟩

/-- A change that begins by reading its slot fails where a lookup fails, and with
the same error. -/
theorem read_error {α : Type} {e : PathError} (h : root.lookup p it = .error e)
    (f : Place → Value → Except Fault α) :
    (root.resolve p it >>= fun place => along p (place.slot.value >>= f place)) = .error e := by
  rw [lookup_eq_resolve] at h
  cases hplace : root.resolve p it with
  | error e' =>
      rw [hplace] at h
      cases h
      rfl
  | ok place =>
      rw [hplace] at h
      change along p place.slot.value = .error e at h
      change along p (place.slot.value >>= f place) = .error e
      rw [along_bind, h]
      rfl

theorem read_current {α : Type} (h : root.resolve p it = .ok place) {v : Value}
    (hv : place.current? = some v) (f : Place → Value → Except Fault α) :
    (root.resolve p it >>= fun place => along p (place.slot.value >>= f place)) = along p (f place v) := by
  have hvalue : place.slot.value = .ok v := Slot.value_eq_ok.mpr hv
  rw [h]
  change along p (place.slot.value >>= f place) = _
  rw [hvalue]
  rfl

theorem toggle_eq_ok (h : root.resolve p it = .ok place) {b : Bool}
    (hb : place.current? = some (.boolean b)) : root.toggle p it = .ok (!b, place.set (.boolean !b)) :=
  read_current h hb _

theorem toggle_eq_mismatch (h : root.resolve p it = .ok place) {v : Value}
    (hcurrent : place.current? = some v) (hv : ∀ b, v ≠ .boolean b) :
    root.toggle p it = .error ⟨p, .typeMismatch .boolean v.kind⟩ := by
  apply (read_current h hcurrent _).trans
  cases v with
  | boolean b => exact absurd rfl (hv b)
  | null | number n | string s | sequence xs | map es => rfl

theorem change_error {ν α : Type} {d : Desk ν} {r : Except PathError (α × Value)} {e : PathError}
    (h : r = .error e) : d.change r = (d, .error e) := by
  rw [h]
  rfl

/-- To toggle is to set what was read to its negation, and a second toggle takes
the first one back. What is no boolean, or not there, stays. -/
theorem toggling_negates {ν : Type} (root : Value) (p : Path) (it : Option Iteration) :
    match root.lookup p it with
    | .ok (.boolean b) => ∃ new, root.toggle p it = .ok (!b, new) ∧
        root.set p it (.boolean !b) = .ok (some (.boolean b), new) ∧ new.toggle p it = .ok (b, root)
    | .ok v => root.toggle p it = .error ⟨p, .typeMismatch .boolean v.kind⟩ ∧
        ∀ d : Desk ν, d.state = root →
          (Request.toggle p).perform it d = (d, .error ⟨p, .typeMismatch .boolean v.kind⟩)
    | .error e => root.toggle p it = .error e ∧
        ∀ d : Desk ν, d.state = root → (Request.toggle p).perform it d = (d, .error e) := by
  split
  · rename_i b hb
    obtain ⟨place, hplace, hcurrent⟩ := exists_place_of_lookup hb
    obtain ⟨q, hq, -, hqcurrent, hqset⟩ := resolve_set hplace (.boolean !b)
    refine ⟨place.set (.boolean !b), toggle_eq_ok hplace hcurrent, ?_, ?_⟩
    · rw [set_eq_ok hplace, hcurrent]
    · -- what the second toggle writes replaces what the first one wrote
      rw [toggle_eq_ok hq hqcurrent, Bool.not_not, hqset, set_current hplace hcurrent]
  · rename_i v hv hlookup
    obtain ⟨place, hplace, hcurrent⟩ := exists_place_of_lookup hlookup
    have hmismatch := toggle_eq_mismatch hplace hcurrent hv
    refine ⟨hmismatch, ?_⟩
    rintro d rfl
    exact change_error hmismatch
  · rename_i e he
    have herror : root.toggle p it = .error e := read_error he _
    refine ⟨herror, ?_⟩
    rintro d rfl
    exact change_error herror

end ViewWiring.State
