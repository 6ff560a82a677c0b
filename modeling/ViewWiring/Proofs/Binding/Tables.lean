import Mathlib.Data.List.Nodup
import ViewWiring.Binding.Wiring
import ViewWiring.Proofs.Outcome

namespace ViewWiring

namespace Entries

variable {κ α : Type} [DecidableEq κ]

theorem get?_eq_none_iff (es : Entries κ α) (key : κ) : es.get? key = none ↔ key ∉ es.keys := by
  induction es with
  | nil => simp [get?, keys]
  | cons e es ih =>
      obtain ⟨k, b⟩ := e
      by_cases h : k = key
      · simp [get?, keys, h]
      · simpa [get?, keys, h, Ne.symm h] using ih

theorem get?_eq_some_iff {es : Entries κ α} (hes : es.keys.Nodup) {key : κ} {a : α} :
    es.get? key = some a ↔ (key, a) ∈ es := by
  induction es with
  | nil => simp [get?]
  | cons e es ih =>
      obtain ⟨k, b⟩ := e
      obtain ⟨hk, hes⟩ := List.nodup_cons.mp hes
      by_cases h : k = key
      · subst k
        have hn : (key, a) ∉ es := fun hm => hk (List.mem_map.mpr ⟨_, hm, rfl⟩)
        simp [get?, hn, eq_comm]
      · simp [get?, h, Ne.symm h, ih hes]

omit [DecidableEq κ] in
theorem insertBy_perm (cmp : κ → κ → Ordering) (es : Entries κ α) (key : κ) (a : α) :
    (es.insertBy cmp key a).Perm (es ++ [(key, a)]) := by
  have h : (es.insertBy cmp key a).Perm ((key, a) :: (es.takeWhile (fun e => (cmp e.1 key).isLT) ++
      es.dropWhile (fun e => (cmp e.1 key).isLT))) := List.perm_middle
  rw [List.takeWhile_append_dropWhile] at h
  exact h.trans (List.perm_append_singleton _ _).symm

omit [DecidableEq κ] in
theorem nodup_keys_insertBy {cmp : κ → κ → Ordering} {es : Entries κ α} {key : κ} {a : α}
    (hes : es.keys.Nodup) (h : key ∉ es.keys) : (es.insertBy cmp key a).keys.Nodup := by
  have hperm := (insertBy_perm cmp es key a).map Prod.fst
  rw [keys, hperm.nodup_iff, List.map_append, List.map_singleton, ← List.concat_eq_append]
  exact .concat h hes

omit [DecidableEq κ] in
theorem keys_append (es fs : Entries κ α) : (es ++ fs : Entries κ α).keys = es.keys ++ fs.keys :=
  List.map_append

end Entries

namespace Binding.Wiring

open Address

structure Distinct (w : Wiring) : Prop where
  sites : w.pipelines.keys.Nodup
  scopes : w.repeats.keys.Nodup

structure Gains (w : Wiring) (ps : Entries Site Pipeline) (rs : Entries Selector Repetition)
    (w' : Wiring) : Prop where
  pipelines : w'.pipelines.Perm (w.pipelines ++ ps)
  repeats : w'.repeats.Perm (w.repeats ++ rs)
  distinct : w.Distinct → w'.Distinct

variable {w w' w'' : Wiring} {ps qs : Entries Site Pipeline} {rs ss : Entries Selector Repetition}

theorem distinct_empty : Wiring.empty.Distinct := ⟨List.nodup_nil, List.nodup_nil⟩

theorem Gains.refl (w : Wiring) : w.Gains [] [] w := by
  constructor <;> simp

theorem Gains.trans (h : w.Gains ps rs w') (h' : w'.Gains qs ss w'') :
    w.Gains (ps ++ qs) (rs ++ ss) w'' := by
  constructor
  · rw [← List.append_assoc]
    exact h'.pipelines.trans (h.pipelines.append_right qs)
  · rw [← List.append_assoc]
    exact h'.repeats.trans (h.repeats.append_right ss)
  · exact h'.distinct ∘ h.distinct

theorem Gains.sites_perm (h : w.Gains ps rs w') :
    w'.pipelines.keys.Perm (w.pipelines.keys ++ ps.keys) := by
  rw [← Entries.keys_append]
  exact h.pipelines.map Prod.fst

theorem Gains.scopes_perm (h : w.Gains ps rs w') : w'.repeats.keys.Perm (w.repeats.keys ++ rs.keys) := by
  rw [← Entries.keys_append]
  exact h.repeats.map Prod.fst

theorem connect_eq_ok {s : Selector} {e : EventKind} {p : Pipeline} :
    w.connect s e p = .ok w' ↔ (s, e) ∉ w.pipelines.keys ∧
      { w with pipelines := w.pipelines.insertBy Site.cmp (s, e) p } = w' := by
  rw [← Entries.get?_eq_none_iff, connect, pipelineAt]
  split <;> simp_all

theorem repeatScope_eq_ok {s : Selector} {p : Repetition} :
    w.repeatScope s p = .ok w' ↔ s ∉ w.repeats.keys ∧
      { w with repeats := w.repeats.insertBy Selector.cmp s p } = w' := by
  rw [← Entries.get?_eq_none_iff, repeatScope, repeatAt]
  split <;> simp_all

theorem connect_gains {s : Selector} {e : EventKind} {p : Pipeline} (h : w.connect s e p = .ok w') :
    w.Gains [((s, e), p)] [] w' := by
  obtain ⟨hfresh, rfl⟩ := connect_eq_ok.mp h
  constructor
  case pipelines => exact Entries.insertBy_perm Site.cmp w.pipelines (s, e) p
  case repeats => simp
  case distinct =>
    exact fun hw => ⟨Entries.nodup_keys_insertBy hw.sites hfresh, hw.scopes⟩

theorem repeatScope_gains {s : Selector} {p : Repetition} (h : w.repeatScope s p = .ok w') :
    w.Gains [] [(s, p)] w' := by
  obtain ⟨hfresh, rfl⟩ := repeatScope_eq_ok.mp h
  constructor
  case pipelines => simp
  case repeats => exact Entries.insertBy_perm Selector.cmp w.repeats s p
  case distinct =>
    exact fun hw => ⟨hw.sites, Entries.nodup_keys_insertBy hw.scopes hfresh⟩

end Binding.Wiring

end ViewWiring
