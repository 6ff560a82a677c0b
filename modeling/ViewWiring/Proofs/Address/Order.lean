import Mathlib.Data.String.Basic
import Mathlib.Tactic.SplitIfs
import ViewWiring.Address.Selector

namespace ViewWiring.Address

def bytes (name : String) : List UInt8 := name.toByteArray.data.toList

theorem bytes_eq (name : String) : bytes name = name.toList.flatMap String.utf8EncodeChar := by
  rw [bytes, ← String.utf8Encode_toList, List.utf8Encode]
  simp

/-- The lesser of two characters is lesser byte by byte, whatever follows it. -/
theorem encoded_lt {c d : Char} (h : c < d) (xs ys : List UInt8) :
    String.utf8EncodeChar c ++ xs < String.utf8EncodeChar d ++ ys := by
  have hval : c.val.toNat < d.val.toNat := h
  have hd : d.val.toNat < 0x110000 := by
    rcases d.valid with h | h
    · exact Nat.lt_trans h (by decide)
    · exact h.2
  simp only [String.utf8EncodeChar]
  generalize c.val.toNat = m at *
  generalize d.val.toNat = n at *
  -- a longer form begins with a greater byte, and forms of one length are digits of one base
  split_ifs <;> simp (disch := omega) only [List.cons_append, List.nil_append, List.cons_lt_cons_iff,
    UInt8.lt_iff_toNat_lt, ← UInt8.toNat_inj, UInt8.toNat_ofNat', Nat.mod_eq_of_lt,
    Nat.add_lt_add_iff_right, Nat.add_right_cancel_iff] <;> omega

theorem encodedAll_lt {cs ds : List Char} (h : cs < ds) :
    cs.flatMap String.utf8EncodeChar < ds.flatMap String.utf8EncodeChar := by
  induction h with
  | @nil d ds =>
      rw [List.flatMap_cons]
      cases hd : String.utf8EncodeChar d with
      | nil => exact absurd hd String.utf8EncodeChar_ne_nil
      | cons b bs => exact .nil
  | rel h => exact encoded_lt h _ _
  | cons _ ih =>
      rw [List.flatMap_cons, List.flatMap_cons]
      exact List.append_left_lt ih

theorem bytes_lt_bytes {a b : String} (h : a < b) : bytes a < bytes b := by
  rw [bytes_eq, bytes_eq]
  exact encodedAll_lt h

namespace Selector

def bytes (s : Selector) : List (List UInt8) := s.scopes.map Address.bytes

theorem scopes_inj {s t : Selector} : s.scopes = t.scopes ↔ s = t := by
  cases s
  cases t
  simp [scopes]

instance : Std.TransCmp cmp where
  eq_swap {_ _} := @Std.OrientedCmp.eq_swap _ (List.compareLex compare) _ _ _
  isLE_trans {_ _ _} := @Std.TransCmp.isLE_trans _ (List.compareLex compare) _ _ _ _

instance : Std.LawfulEqCmp cmp where
  compare_self {_} := @Std.ReflCmp.compare_self _ (List.compareLex compare) _ _
  eq_of_compare {_ _} h :=
    scopes_inj.mp (@Std.LawfulEqCmp.eq_of_compare _ (List.compareLex compare) _ _ _ h)

instance : Ord Selector := ⟨cmp⟩

instance : Std.TransOrd Selector := inferInstanceAs (Std.TransCmp cmp)

theorem scopes_lt_of_cmp {s t : Selector} (h : s.cmp t = .lt) : s.scopes < t.scopes := by
  rw [cmp] at h
  generalize s.scopes = xs at h ⊢
  generalize t.scopes = ys at h ⊢
  induction xs generalizing ys with
  | nil =>
      cases ys with
      | nil => cases h
      | cons y ys => exact .nil
  | cons x xs ih =>
      cases ys with
      | nil => cases h
      | cons y ys =>
          rw [List.compareLex_cons_cons, Ordering.then_eq_lt] at h
          rcases h with h | ⟨h, htail⟩
          · exact .rel (compare_lt_iff_lt.mp h)
          · obtain rfl := Std.LawfulEqOrd.eq_of_compare h
            exact .cons (ih ys htail)

/-- Selectors are ordered by the bytes of their scopes. -/
theorem bytes_lt_of_cmp {s t : Selector} (h : s.cmp t = .lt) : s.bytes < t.bytes :=
  List.map_lt (fun _ _ => bytes_lt_bytes) (scopes_lt_of_cmp h)

end Selector

end ViewWiring.Address
