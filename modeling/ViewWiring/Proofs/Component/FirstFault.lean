import Mathlib
import ViewWiring.Proofs.Component.Faults

namespace ViewWiring.Component

open Address Binding

structure Demand where
  member : String
  path : Path
  selector : Selector

def Demand.error (x : Demand) : ConfigError := .placeholderOutsideRepeat x.member x.path x.selector

def Descriptor.demands (x : Descriptor) : List Demand :=
  x.triggers.flatMap fun t => t.mutations.map fun m => ⟨x.name, m.path, t.selector⟩

namespace Definition

def demands (d : Definition) : List Demand := d.members.flatMap fun m => m.described.demands

/-- Whether too few scopes are repeated around the selector, by members early or late. -/
def lacks (d : Definition) (x : Demand) : Bool :=
  x.path.placeholders > x.selector.enclosing.countP fun t => t ∈ d.members.filterMap Member.firstView?

def upTo (d : Definition) (n : Nat) : Definition := { d with members := d.members.take n }

def followedBy (d : Definition) (ms : List Member) : Definition := { d with members := d.members ++ ms }

/-- No member is at fault. There may be a demand that a later member is to supply. -/
def MembersPass (d : Definition) : Prop :=
  (∃ s, d.validate = .ok s) ∨ ∃ x : Demand, d.validate = .error x.error

variable {d : Definition} {e : ConfigError}

theorem membersPass_of_foldl {s : Spec} (h : d.members.foldlM Spec.add ⟨d.name, [], .empty⟩ = .ok s) :
    d.MembersPass := by
  cases hu : s.unsupplied? with
  | none => exact .inl ⟨s, validate_eq_ok.mpr ⟨h, s.unsupplied?_eq_none.mp hu⟩⟩
  | some e =>
      obtain ⟨name, p, r, rfl⟩ := Spec.unsupplied?_kind hu
      exact .inr ⟨⟨name, p, r⟩, validate_eq_error.mpr (.inr ⟨s, h, hu⟩)⟩

theorem membersPass_take {ms : List Member} {s : Spec}
    (h : ms.foldlM Spec.add ⟨d.name, [], .empty⟩ = .ok s) (n : Nat) :
    MembersPass { d with members := ms.take n } := by
  rw [← List.take_append_drop n ms, List.foldlM_append, bind_eq_ok] at h
  obtain ⟨t, ht, _⟩ := h
  exact membersPass_of_foldl ht

theorem unsupplied?_eq {s : Spec} (h : s.Compiles d.members) :
    s.unsupplied? = (d.demands.find? d.lacks).map Demand.error := by
  have hmutation (x : Descriptor) (t : Trigger) :
      ((t.mutations.map fun m => (⟨x.name, m.path, t.selector⟩ : Demand)).find? d.lacks).map Demand.error =
        (t.mutations.find? fun m => m.path.placeholders > s.wiring.repeatsAround t.selector).map fun m =>
          .placeholderOutsideRepeat x.name m.path t.selector := by
    rw [List.find?_map, Option.map_map, h.repeatsAround]
    rfl
  have hmember (x : Descriptor) : (x.demands.find? d.lacks).map Demand.error =
      x.triggers.findSome? fun t =>
        (t.mutations.find? fun m => m.path.placeholders > s.wiring.repeatsAround t.selector).map fun m =>
          .placeholderOutsideRepeat x.name m.path t.selector := by
    rw [Descriptor.demands, List.find?_flatMap, List.map_findSome?]
    simp only [Function.comp_def, hmutation]
  rw [demands, List.find?_flatMap, List.map_findSome?, Spec.unsupplied?, h.members, List.findSome?_map]
  simp only [Function.comp_def, hmember]

/-- The member with number `k` is the first at fault, and the fault stays whatever
members come after it. -/
structure FaultAt (d : Definition) (e : ConfigError) (k : Nat) : Prop where
  blames : ∃ m, d.members[k]? = some m ∧ e.Blames m.name
  before : ∀ n ≤ k, (d.upTo n).MembersPass
  after : ∀ n, k < n → (d.upTo n).validate = .error e
  ever : ∀ ms, (d.followedBy ms).validate = .error e

theorem faultAt_of_foldl {before after : List Member} {m : Member} {s : Spec}
    (hms : d.members = before ++ m :: after)
    (hs : before.foldlM Spec.add ⟨d.name, [], .empty⟩ = .ok s) (hm : s.add m = .error e) :
    d.FaultAt e before.length := by
  have hfails (rest : List Member) : Definition.validate { d with members := before ++ m :: rest } = .error e :=
    validate_eq_error.mpr (.inl (foldlM_of_error hs hm rest))
  constructor
  case blames => exact ⟨m, by simp [hms], s.add_failsOnly m e hm⟩
  case before =>
    intro n hn
    rw [upTo, hms, List.take_append_of_le_length hn]
    exact membersPass_take hs n
  case after =>
    intro n hn
    obtain ⟨j, rfl⟩ := Nat.exists_eq_add_of_lt hn
    rw [upTo, hms, Nat.add_assoc, List.take_length_add_append, List.take_succ_cons]
    exact hfails (after.take j)
  case ever =>
    intro ms
    rw [followedBy, hms, List.append_assoc, List.cons_append]
    exact hfails (after ++ ms)

end Definition

/-- A fault of a member is reported at the first member that has one, and no further
members mask it. Want of a repetition is reported only where no member is at fault,
and of the first demand that is not met. -/
theorem faults_are_not_masked {d : Definition} {e : ConfigError} (h : d.validate = .error e) :
    ((¬ ∃ x : Demand, e = x.error) → ∃ k, d.FaultAt e k) ∧
    ∀ x : Demand, e = x.error → (∀ n, (d.upTo n).MembersPass) ∧ d.demands.find? d.lacks = some x := by
  rcases validate_eq_error.mp h with hm | ⟨s, hs, hu⟩
  · obtain ⟨before, m, after, s, hms, hs, hadd⟩ := exists_of_foldlM_error hm
    refine ⟨fun _ => ⟨_, Definition.faultAt_of_foldl hms hs hadd⟩, ?_⟩
    rintro x rfl
    exact (s.add_failsOnly m _ hadd).elim
  · have hfirst : (d.demands.find? d.lacks).map Demand.error = some e :=
      (Definition.unsupplied?_eq (Spec.compiles_foldl hs)).symm.trans hu
    obtain ⟨y, hy, rfl⟩ := Option.map_eq_some_iff.mp hfirst
    refine ⟨fun hne => absurd ⟨y, rfl⟩ hne, ?_⟩
    intro x hx
    obtain rfl : y = x := by
      cases x
      cases y
      simpa [Demand.error] using hx
    exact ⟨Definition.membersPass_take hs, hy⟩

def basket : Definition :=
  ⟨"Basket", [
    ⟨.method, "drop", none, [⟨.mutation .remove, some "basket > line", some "lines[i]"⟩]⟩,
    ⟨.method, "open", none, [⟨.event .buttonTap, some "basket > line", none⟩]⟩,
    ⟨.field, "lines", none, [⟨.viewFor, some "basket > line", none⟩]⟩]⟩

theorem basket_faults_are_not_masked :
    (∃ k, basket.FaultAt (.conflict ⟨⟨"basket", ["line"]⟩, some .buttonTap, "drop", "open"⟩) k) ∧
    (basket.upTo 1).demands.find? (basket.upTo 1).lacks =
      some ⟨"drop", ⟨"lines", [.placeholder "i"]⟩, ⟨"basket", ["line"]⟩⟩ := by
  have hconflict : basket.validate =
      .error (.conflict ⟨⟨"basket", ["line"]⟩, some .buttonTap, "drop", "open"⟩) := by cbv
  have hwant : (basket.upTo 1).validate =
      .error (.placeholderOutsideRepeat "drop" ⟨"lines", [.placeholder "i"]⟩ ⟨"basket", ["line"]⟩) := by cbv
  constructor
  · exact (faults_are_not_masked hconflict).1 (by simp [Demand.error])
  · exact ((faults_are_not_masked hwant).2 ⟨_, _, _⟩ rfl).2

end ViewWiring.Component
