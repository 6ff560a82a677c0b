import Mathlib.Data.List.Perm.Basic
import ViewWiring.Proofs.Address.Order
import ViewWiring.Proofs.Binding.Tables

namespace ViewWiring

namespace Entries

variable {κ α : Type} {cmp : κ → κ → Ordering} {es fs : Entries κ α} {key : κ} {a : α}

def Ordered (cmp : κ → κ → Ordering) (es : Entries κ α) : Prop :=
  es.keys.Pairwise fun k l => cmp k l = .lt

theorem insertBy_cons (e : κ × α) (es : Entries κ α) (key : κ) (a : α) :
    Entries.insertBy cmp (e :: es) key a =
      if (cmp e.1 key).isLT then e :: es.insertBy cmp key a else (key, a) :: e :: es := by
  unfold insertBy
  split <;> simp [*]

theorem mem_keys_insertBy (cmp : κ → κ → Ordering) {k : κ} :
    k ∈ (es.insertBy cmp key a).keys ↔ k ∈ es.keys ∨ k = key := by
  rw [keys, ((insertBy_perm cmp es key a).map Prod.fst).mem_iff, List.map_append, List.mem_append]
  simp [keys]

theorem Ordered.insertBy [Std.TransCmp cmp] [Std.LawfulEqCmp cmp] (h : es.Ordered cmp)
    (hkey : key ∉ es.keys) : (es.insertBy cmp key a).Ordered cmp := by
  induction es with
  | nil => exact List.pairwise_singleton _ _
  | cons e es ih =>
      obtain ⟨hfirst, hrest⟩ := List.pairwise_cons.mp h
      rw [keys, List.map_cons, List.mem_cons, not_or] at hkey
      obtain ⟨hne, hkey⟩ := hkey
      rw [insertBy_cons]
      cases he : cmp e.1 key with
      | lt =>
          refine List.pairwise_cons.mpr ⟨?_, ih hrest hkey⟩
          intro k hk
          rcases (mem_keys_insertBy cmp).mp hk with hk | rfl
          · exact hfirst k hk
          · exact he
      | eq => exact absurd (Std.LawfulEqCmp.eq_of_compare he).symm hne
      | gt =>
          have hlt : cmp key e.1 = .lt := Std.OrientedCmp.lt_of_gt he
          refine List.pairwise_cons.mpr ⟨?_, h⟩
          intro k hk
          rcases List.mem_cons.mp hk with rfl | hk
          · exact hlt
          · exact Std.TransCmp.lt_trans hlt (hfirst k hk)

theorem Ordered.nodup [Std.ReflCmp cmp] (h : es.Ordered cmp) : es.keys.Nodup := by
  apply List.Pairwise.imp _ h
  rintro k l hkl rfl
  have hself : cmp k k = .eq := Std.ReflCmp.compare_self
  rw [hself] at hkl
  cases hkl

/-- The order leaves no choice: tables with the same entries are one table. -/
theorem Ordered.eq_of_perm [Std.TransCmp cmp] (h : es.Ordered cmp) (h' : fs.Ordered cmp)
    (hperm : es.Perm fs) : es = fs := by
  refine hperm.eq_of_pairwise ?_ (List.pairwise_map.mp h) (List.pairwise_map.mp h')
  intro e f _ _ hef hfe
  exact absurd (Std.OrientedCmp.gt_of_lt hef) (by simp [hfe])

theorem Ordered.eq_of_get? [DecidableEq κ] [Std.TransCmp cmp] (h : es.Ordered cmp) (h' : fs.Ordered cmp)
    (hget : ∀ key, es.get? key = fs.get? key) : es = fs := by
  refine h.eq_of_perm h' ((List.perm_ext_iff_of_nodup h.nodup.of_map h'.nodup.of_map).mpr ?_)
  rintro ⟨key, a⟩
  rw [← get?_eq_some_iff h.nodup, ← get?_eq_some_iff h'.nodup, hget]

theorem get?_insertBy [DecidableEq κ] (cmp : κ → κ → Ordering) (hes : es.keys.Nodup)
    (hkey : key ∉ es.keys) (k : κ) :
    (es.insertBy cmp key a).get? k = if key = k then some a else es.get? k := by
  ext b
  rw [get?_eq_some_iff (nodup_keys_insertBy hes hkey), (insertBy_perm cmp es key a).mem_iff]
  by_cases hk : key = k
  · subst k
    have hnone : (key, b) ∉ es := fun hm => hkey (List.mem_map_of_mem hm)
    simp [hnone, eq_comm]
  · simp [hk, Ne.symm hk, get?_eq_some_iff hes]

/-- Where a key is only entered if it is not there, the first value stays. -/
theorem get?_enter [DecidableEq κ] (cmp : κ → κ → Ordering) (hes : es.keys.Nodup) (k : κ) :
    (if (es.get? key).isSome then es else es.insertBy cmp key a).get? k =
      (es.get? k).or (if key = k then some a else none) := by
  cases hget : es.get? key with
  | some b =>
      by_cases hk : key = k
      · subst k
        simp [hget]
      · simp [hk]
  | none =>
      have hkey := (get?_eq_none_iff es key).mp hget
      by_cases hk : key = k
      · subst k
        simp [get?_insertBy cmp hes hkey, hget]
      · simp [get?_insertBy cmp hes hkey, hk]

end Entries

namespace Binding

open Address

theorem EventKind.rank_inj {e f : EventKind} : e.rank = f.rank ↔ e = f := by
  cases e <;> cases f <;> simp [rank]

namespace Site

instance : Std.TransCmp cmp :=
  inferInstanceAs (Std.TransCmp (compareLex (compareOn Prod.fst) (compareOn fun a : Site => a.2.rank)))

instance : Std.LawfulEqCmp cmp where
  eq_of_compare {a b} h := by
    obtain ⟨hs, he⟩ := Ordering.then_eq_eq.mp h
    exact Prod.ext (Std.LawfulEqCmp.eq_of_compare hs) (EventKind.rank_inj.mp (Nat.compare_eq_eq.mp he))

/-- Selectors come first, as lists of scopes and these as bytes; events at one
selector follow each other by their rank. -/
theorem before_of_cmp {a b : Site} (h : cmp a b = .lt) :
    a.1.bytes < b.1.bytes ∨ a.1 = b.1 ∧ a.2.rank < b.2.rank := by
  rcases Ordering.then_eq_lt.mp h with h | ⟨hs, he⟩
  · exact .inl (Selector.bytes_lt_of_cmp h)
  · exact .inr ⟨Std.LawfulEqCmp.eq_of_compare hs, Nat.compare_eq_lt.mp he⟩

end Site

namespace Wiring

structure Ordered (w : Wiring) : Prop where
  pipelines : w.pipelines.Ordered Site.cmp
  repeats : w.repeats.Ordered Selector.cmp

variable {w w' : Wiring}

theorem ordered_empty : empty.Ordered := ⟨.nil, .nil⟩

theorem Ordered.connect (hw : w.Ordered) {s : Selector} {e : EventKind} {p : Pipeline}
    (h : w.connect s e p = .ok w') : w'.Ordered := by
  obtain ⟨hfresh, rfl⟩ := connect_eq_ok.mp h
  exact ⟨hw.pipelines.insertBy hfresh, hw.repeats⟩

theorem Ordered.repeatScope (hw : w.Ordered) {s : Selector} {p : Repetition}
    (h : w.repeatScope s p = .ok w') : w'.Ordered := by
  obtain ⟨hfresh, rfl⟩ := repeatScope_eq_ok.mp h
  exact ⟨hw.pipelines, hw.repeats.insertBy hfresh⟩

end Wiring

end Binding

end ViewWiring
