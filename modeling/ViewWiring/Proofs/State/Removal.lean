import ViewWiring.Proofs.State.Framing

namespace ViewWiring.State

open Address Dispatch

theorem child_sequence_eq_ok {xs : List Value} {i : Nat} {v : Value} :
    (Value.sequence xs).child (.index i) = .ok v ↔ xs[i]? = some v := by
  rw [child_sequence]
  cases xs[i]? <;> simp

theorem follow_eraseIdx (xs : List Value) (i j : Nat) (rest : List Key) (v : Value) :
    (Value.sequence (xs.eraseIdx i)).follow (.index j :: rest) = .ok v ↔
      (Value.sequence xs).follow (.index (if j < i then j else j + 1) :: rest) = .ok v := by
  rw [Value.follow, Value.follow, bind_eq_ok, bind_eq_ok]
  apply exists_congr
  intro w
  rw [child_sequence_eq_ok, child_sequence_eq_ok, List.getElem?_eraseIdx]
  split <;> rfl

variable {root : Value} {p : Path} {it : Option Iteration} {place : Place}

theorem remove_eq_ok (h : root.resolve p it = .ok place) {v : Value} (hv : place.current? = some v) :
    root.remove p it = .ok (v, place.rebuild place.slot.without) :=
  read_current h hv _

def LostEntry (root left : Value) (before : List Key) (name : String) : Prop :=
  ∃ es fs : Entries String Value, root.follow before = .ok (.map es) ∧ left.follow before = .ok (.map fs) ∧
    name ∈ es.keys ∧ name ∉ fs.keys ∧ fs = es.filter (fun e => e.1 ≠ name) ∧
    ∀ other, other ≠ name → fs.get? other = es.get? other

/-- The sequence at the end of `before` lost its element `i`, and those behind it
moved up by one, with all that they hold. -/
def LostElement (root left : Value) (before : List Key) (i : Nat) : Prop :=
  ∃ xs ys : List Value, root.follow before = .ok (.sequence xs) ∧ left.follow before = .ok (.sequence ys) ∧
    i < xs.length ∧ ys.length = xs.length - 1 ∧
    ∀ q jt j rest, concreteKeys q jt = .ok (before ++ .index j :: rest) →
      ∀ r kt, concreteKeys r kt = .ok (before ++ .index (if j < i then j else j + 1) :: rest) →
        ∀ v, left.lookup q jt = .ok v ↔ root.lookup r kt = .ok v

namespace Grafted

variable {before : List Key} {left : Value}

theorem lost_entry {es : Entries String Value} {name : String}
    (h : Grafted (.map es) (.map (es.erase name)) before root left) (hname : name ∈ es.keys) :
    LostEntry root left before name := by
  obtain ⟨hbefore, hafter⟩ := h.follow_ends
  refine ⟨es, es.erase name, hbefore, hafter, hname, ?_, rfl, ?_⟩
  · rw [← Entries.get?_eq_none_iff]
    exact Entries.get?_erase_self es name
  · intro other hother
    exact Entries.get?_erase_of_ne es hother

theorem lost_element {xs : List Value} {i : Nat}
    (h : Grafted (.sequence xs) (.sequence (xs.eraseIdx i)) before root left) (hi : i < xs.length) :
    LostElement root left before i := by
  obtain ⟨hbefore, hafter⟩ := h.follow_ends
  refine ⟨xs, xs.eraseIdx i, hbefore, hafter, hi, List.length_eraseIdx_of_lt hi, ?_⟩
  intro q jt j rest hq r kt hr v
  rw [lookup_of_keys hq, lookup_of_keys hr, along, along, mapError_eq_ok, mapError_eq_ok,
    h.follow_after, h.follow_before]
  exact follow_eraseIdx xs i j rest v

end Grafted

structure Remainder (root left : Value) (ks : List Key) : Prop where
  entry : ∀ before name, ks = before ++ [.field name] → LostEntry root left before name
  element : ∀ before i, ks = before ++ [.index i] → LostElement root left before i
  aside : ∀ q jt ls, concreteKeys q jt = .ok ls → Parts ks.dropLast ls →
    left.lookup q jt = root.lookup q jt

theorem remainder_of_resolve (h : root.resolve p it = .ok place) {v : Value}
    (hv : place.current? = some v) :
    ∃ ks, concreteKeys p it = .ok ks ∧ Remainder root (place.rebuild place.slot.without) ks := by
  obtain ⟨init, last, c, hkeys, hc, hgraft⟩ := grafted_of_resolve h
  have hleft := hgraft place.slot.without
  refine ⟨init ++ [last], hkeys, ?_⟩
  constructor
  case entry =>
    intro before name hks
    obtain ⟨rfl, hlast⟩ := List.append_inj' hks rfl
    rcases slot_cases hc with ⟨es, name', rfl, rfl, hs⟩ | ⟨xs, i, -, rfl, -, -⟩
    · cases hlast
      rw [Place.current?, hs] at hv
      rw [hs] at hleft ⊢
      apply hleft.lost_entry
      by_contra hname
      have hnone : Entries.get? es name = none := (Entries.get?_eq_none_iff es name).mpr hname
      cases hnone.symm.trans hv
    · cases hlast
  case element =>
    intro before i hks
    obtain ⟨rfl, hlast⟩ := List.append_inj' hks rfl
    rcases slot_cases hc with ⟨es, name, -, rfl, -⟩ | ⟨xs, i', rfl, rfl, hi, hs⟩
    · cases hlast
    · cases hlast
      rw [hs] at hleft ⊢
      exact hleft.lost_element hi
  case aside =>
    intro q jt ls hls hparts
    rw [List.dropLast_concat] at hparts
    obtain ⟨before, k, after, l, rest, rfl, rfl, hne⟩ := hparts.split
    obtain ⟨d, s, w, hd, hcut⟩ := hleft.cut
    rw [lookup_of_keys hls, lookup_of_keys hls, hcut.aside hd hne]

/-- To remove is to read, and to take out what was read and nothing else. -/
theorem removing_takes_one_slot {ν : Type} (root : Value) (p : Path) (it : Option Iteration) :
    match root.lookup p it with
    | .ok v => ∃ ks left, concreteKeys p it = .ok ks ∧ root.remove p it = .ok (v, left) ∧
        Remainder root left ks
    | .error e => root.remove p it = .error e ∧
        ∀ d : Desk ν, d.state = root → (Request.remove p).perform it d = (d, .error e) := by
  split
  · rename_i v hv
    obtain ⟨place, hplace, hcurrent⟩ := exists_place_of_lookup hv
    obtain ⟨ks, hks, hleft⟩ := remainder_of_resolve hplace hcurrent
    exact ⟨ks, _, hks, remove_eq_ok hplace hcurrent, hleft⟩
  · rename_i e he
    have herror : root.remove p it = .error e := read_error he _
    refine ⟨herror, ?_⟩
    rintro d rfl
    exact change_error herror

/-- The second of two switches is read at the first one's place once that one is
gone. -/
example : ∃ left, (Value.map [("on", .sequence [.boolean false, .boolean true])]).remove
      ⟨"on", [.placeholder "i"]⟩ (some ⟨[0]⟩) = .ok (.boolean false, left) ∧
    left.lookup ⟨"on", [.index 0]⟩ none = .ok (.boolean true) ∧
    left.lookup ⟨"on", [.index 1]⟩ none = .error ⟨⟨"on", [.index 1]⟩, .indexOutOfRange 1 1⟩ :=
  ⟨_, rfl, rfl, rfl⟩

end ViewWiring.State
