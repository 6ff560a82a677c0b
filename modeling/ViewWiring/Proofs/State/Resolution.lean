import ViewWiring.Dispatch.Step
import ViewWiring.Proofs.Outcome

namespace ViewWiring.State

open Address

/-- Faults of a tree, not of the indices that a path was given. -/
def Fault.OfTree (f : Fault) : Prop := ∀ name, f ≠ .unresolvedIndex name

theorem keysOf_exists {ss : List Segment} (is : List Nat)
    (h : ss.countP Segment.isPlaceholder ≤ is.length) : ∃ ks, keysOf ss is = .ok ks := by
  induction ss generalizing is with
  | nil => exact ⟨[], rfl⟩
  | cons s ss ih =>
      rw [List.countP_cons] at h
      -- only a placeholder uses an index up, and then both sides of the bound go down
      cases s with
      | key name =>
          obtain ⟨ks, hks⟩ := ih is (by simpa [Segment.isPlaceholder] using h)
          exact ⟨.field name :: ks, by rw [keysOf, hks]; rfl⟩
      | index i =>
          obtain ⟨ks, hks⟩ := ih is (by simpa [Segment.isPlaceholder] using h)
          exact ⟨.index i :: ks, by rw [keysOf, hks]; rfl⟩
      | placeholder name =>
          cases is with
          | nil => simp [Segment.isPlaceholder] at h
          | cons i is =>
              obtain ⟨ks, hks⟩ := ih is (by simpa [Segment.isPlaceholder] using h)
              exact ⟨.index i :: ks, by rw [keysOf, hks]; rfl⟩

theorem slot_fails (v : Value) (k : Key) : FailsOnly Fault.OfTree (v.slot k) := by
  unfold Value.slot
  split
  · exact .ok _
  · split
    · exact .ok _
    · exact .error (by simp [Fault.OfTree])
  · exact .error (by simp [Fault.OfTree])
  · exact .error (by simp [Fault.OfTree])

theorem value_fails (s : Slot) : FailsOnly Fault.OfTree s.value := by
  unfold Slot.value
  split
  · exact .ok _
  · cases s <;> exact .error (by simp [Slot.absence, Fault.OfTree])

theorem locate_fails (v : Value) (k : Key) (ks : List Key) : FailsOnly Fault.OfTree (v.locate k ks) := by
  induction ks generalizing v k with
  | nil => exact (slot_fails v k).bind fun s _ => .ok _
  | cons k' ks ih =>
      apply (slot_fails v k).bind
      intro s _
      apply (value_fails s).bind
      intro w _
      exact (ih w k').bind fun p _ => .ok _

theorem toggle_fails (p : Place) : FailsOnly Fault.OfTree p.toggle := by
  apply (value_fails p.slot).bind
  intro v _
  cases v with
  | boolean b => exact .ok _
  | null | number n | string s | sequence xs | map es => exact .error (by simp [Fault.OfTree])

theorem remove_fails (p : Place) : FailsOnly Fault.OfTree p.remove :=
  (value_fails p.slot).bind fun _ _ => .ok _

section

variable {p : Path} {it : Option Iteration} (hp : p.placeholders ≤ (suppliedIndices it).length)

include hp

/-- With enough indices a path may still lead nowhere, but not for want of one. -/
theorem resolve_fails (root : Value) : FailsOnly (fun e => e.fault.OfTree) (root.resolve p it) := by
  obtain ⟨ks, hks⟩ := keysOf_exists _ hp
  have hinner : innerKeys p it = .ok ks := by rw [innerKeys, along, hks]; rfl
  rw [Value.resolve, hinner]
  exact (locate_fails root _ ks).mapError fun f hf => hf

theorem set_fails (root v : Value) : FailsOnly (fun e => e.fault.OfTree) (root.set p it v) :=
  (resolve_fails hp root).bind fun _ _ => .ok _

theorem toggleAt_fails (root : Value) : FailsOnly (fun e => e.fault.OfTree) (root.toggle p it) :=
  (resolve_fails hp root).bind fun place _ => (toggle_fails place).mapError fun _ hf => hf

theorem removeAt_fails (root : Value) : FailsOnly (fun e => e.fault.OfTree) (root.remove p it) :=
  (resolve_fails hp root).bind fun place _ => (remove_fails place).mapError fun _ hf => hf

end

end ViewWiring.State

namespace ViewWiring.Binding

open Dispatch State

theorem Mutation.apply_fails {m : Mutation} {e : Event} (root : Value)
    (hp : m.path.placeholders ≤ (suppliedIndices e.iteration).length) :
    FailsOnly (fun err => err.fault.OfTree) (m.apply e root) := by
  rw [Mutation.apply]
  split
  · exact (set_fails hp root e.payload).map _
  · exact (toggleAt_fails hp root).map _
  · exact (removeAt_fails hp root).map _

end ViewWiring.Binding
