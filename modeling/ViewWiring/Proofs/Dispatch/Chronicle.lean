import Mathlib.Data.List.Flatten
import Mathlib.Data.List.Induction
import ViewWiring.Proofs.Dispatch.Signals

namespace ViewWiring.Dispatch

open Binding State

variable {ν : Type}

inductive Call (ν : Type)
  | subscribe
  | unsubscribe (id : Nat)
  | push (e : Event)
  | process (w : Wiring) (t : HandlerTable ν) (root : Value)
  | dispatch (w : Wiring) (t : HandlerTable ν) (root : Value) (e : Event)

inductive Answer (ν : Type)
  | subscribed (id : Nat)
  | unsubscribed (id : Nat) (found : Bool)
  | pushed (e : Event)
  | ran (w : Wiring) (records : List (Record ν))

namespace Answer

def records : Answer ν → List (Record ν)
  | ran _ rs => rs
  | _ => []

def applied : Answer ν → List (Wiring × Record ν)
  | ran w rs => (rs.filter Record.isApplied).map (w, ·)
  | _ => []

def subscription? : Answer ν → Option Nat
  | subscribed id => some id
  | _ => none

def ends (id : Nat) : Answer ν → Bool
  | unsubscribed id' _ => id' = id
  | _ => false

end Answer

abbrev History (ν : Type) := List (Answer ν)

namespace History

def records (h : History ν) : List (Record ν) := h.flatMap Answer.records

def applied (h : History ν) : List (Wiring × Record ν) := h.flatMap Answer.applied

def subscriptions (h : History ν) : List Nat := h.filterMap Answer.subscription?

def standing : History ν → List Nat
  | [] => []
  | .subscribed id :: h => if h.any (Answer.ends id) then standing h else id :: standing h
  | _ :: h => standing h

def received (id : Nat) (h : History ν) : List StateChanged := h.records.flatMap (heard id)

/-- What happened before the subscription is ended. -/
def tenure (id : Nat) (h : History ν) : History ν := h.takeWhile fun a => !a.ends id

end History

namespace Dispatcher

def answer (d : Dispatcher) : Call ν → Answer ν × Dispatcher
  | .subscribe => (.subscribed d.subscribe.1, d.subscribe.2)
  | .unsubscribe id => (.unsubscribed id (d.unsubscribe id).1, (d.unsubscribe id).2)
  | .push e => (.pushed e, d.push e)
  | .process w t root => (.ran w (d.process w t root).1, (d.process w t root).2.1)
  | .dispatch w t root e => (.ran w (d.dispatch w t root e).1, (d.dispatch w t root e).2.1)

def live (d : Dispatcher) : List (Call ν) → History ν × Dispatcher
  | [] => ([], d)
  | call :: calls =>
      let (a, d') := d.answer call
      let (h, final) := d'.live calls
      (a :: h, final)

end Dispatcher

/-- What an answer owes to the history before it. -/
def Answer.Follows (h : History ν) : Answer ν → Prop
  | subscribed id => id = h.subscriptions.length
  | unsubscribed id found => found = true ↔ id ∈ h.standing
  | pushed _ => True
  | ran w rs => (∀ r ∈ rs, Announced w h.standing r) ∧
      Counts (generations h.records).length rs (generations (h.records ++ rs)).length

def History.Faithful (h : History ν) : Prop :=
  ∀ before a after, h = before ++ a :: after → a.Follows before

namespace History

variable {h before after : History ν} {a : Answer ν} {id : Nat}

theorem records_snoc (h : History ν) (a : Answer ν) : records (h ++ [a]) = h.records ++ a.records := by
  simp [records]

theorem subscriptions_snoc (h : History ν) (a : Answer ν) :
    subscriptions (h ++ [a]) = h.subscriptions ++ a.subscription?.toList := by
  cases ha : a.subscription? <;> simp [subscriptions, ha]

theorem subscriptions_cons (a : Answer ν) (h : History ν) :
    subscriptions (a :: h) = a.subscription?.toList ++ h.subscriptions := by
  cases ha : a.subscription? <;> simp [subscriptions, ha]

theorem standing_cons (a : Answer ν) (h : History ν) :
    standing (a :: h) =
      (a.subscription?.toList.filter fun id => !h.any (Answer.ends id)) ++ h.standing := by
  cases a with
  | subscribed id => by_cases hend : h.any (Answer.ends id) <;> simp [standing, Answer.subscription?, hend]
  | unsubscribed id found | pushed e | ran w rs => rfl

theorem standing_snoc (h : History ν) (a : Answer ν) :
    standing (h ++ [a]) = (h.standing.filter fun id => !a.ends id) ++ a.subscription?.toList := by
  induction h with
  | nil => simp [standing_cons, standing]
  | cons b h ih =>
      rw [List.cons_append, standing_cons, ih, standing_cons, List.filter_append, List.filter_filter,
        List.append_assoc]
      simp only [List.any_append, List.any_cons, List.any_nil, Bool.or_false, Bool.not_or, Bool.and_comm]

theorem mem_standing_snoc (hsub : id ∉ a.subscription?.toList) :
    id ∈ standing (h ++ [a]) ↔ id ∈ h.standing ∧ a.ends id = false := by
  rw [standing_snoc, List.mem_append, List.mem_filter, Bool.not_eq_true', or_iff_left hsub]

theorem received_cons (id : Nat) (a : Answer ν) (h : History ν) :
    received id (a :: h) = a.records.flatMap (heard id) ++ received id h := by
  simp [received, records]

theorem standing_sublist (h : History ν) : h.standing.Sublist h.subscriptions := by
  induction h with
  | nil => exact .refl []
  | cons a h ih =>
      rw [standing_cons, subscriptions_cons]
      exact List.filter_sublist.append ih

theorem subscription_iff : a.subscription? = some id ↔ a = .subscribed id := by
  cases a <;> simp [Answer.subscription?]

theorem mem_subscriptions : id ∈ h.subscriptions ↔ .subscribed id ∈ h := by
  simp [subscriptions, List.mem_filterMap, subscription_iff]

theorem mem_standing : id ∈ h.standing ↔
    ∃ before after, h = before ++ .subscribed id :: after ∧ ∀ a ∈ after, a.ends id = false := by
  induction h with
  | nil => simp [standing]
  | cons b h ih =>
      simp only [standing_cons, List.mem_append, ih, List.mem_filter, Option.mem_toList,
        subscription_iff, Bool.not_eq_true', List.any_eq_false, Bool.not_eq_true]
      constructor
      · rintro (⟨rfl, hend⟩ | ⟨before, after, rfl, hend⟩)
        · exact ⟨[], h, rfl, hend⟩
        · exact ⟨b :: before, after, rfl, hend⟩
      · rintro ⟨before, after, heq, hend⟩
        cases before with
        | nil =>
            cases heq
            exact .inl ⟨rfl, hend⟩
        | cons c before =>
            cases heq
            exact .inr ⟨before, after, rfl, hend⟩

theorem Faithful.of_append (hf : Faithful (before ++ after)) : before.Faithful := by
  rintro first a rest rfl
  exact hf first a (rest ++ after) (by simp)

theorem faithful_snoc (hf : h.Faithful) (ha : a.Follows h) : Faithful (h ++ [a]) := by
  intro before b after heq
  rcases List.eq_nil_or_concat after with rfl | ⟨rest, c, rfl⟩
  · obtain ⟨rfl, hb⟩ := List.append_inj' heq rfl
    cases hb
    exact ha
  · obtain ⟨rfl, hc⟩ := List.append_inj' (heq.trans (by simp : _ = (before ++ b :: rest) ++ [c])) rfl
    exact hf before b rest rfl

end History

structure Dispatcher.Remembers (d : Dispatcher) (h : History ν) : Prop where
  generation : d.generation = (generations h.records).length
  next : d.observers.next = h.subscriptions.length
  ids : d.observers.ids = h.standing

section

open History

variable {d : Dispatcher} {h : History ν}

theorem Dispatcher.Remembers.snoc {a : Answer ν}
    (hgeneration : d.generation = (generations (h.records ++ a.records)).length)
    (hnext : d.observers.next = (h.subscriptions ++ a.subscription?.toList).length)
    (hids : d.observers.ids = (h.standing.filter fun id => !a.ends id) ++ a.subscription?.toList) :
    d.Remembers (h ++ [a]) :=
  ⟨records_snoc h a ▸ hgeneration, subscriptions_snoc h a ▸ hnext, standing_snoc h a ▸ hids⟩

theorem process_follows (hd : d.Remembers h) (w : Wiring) (t : HandlerTable ν) (root : Value) :
    (Answer.ran w (d.process w t root).1).Follows h ∧
      (d.process w t root).2.1.Remembers (h ++ [.ran w (d.process w t root).1]) := by
  have hcounts := process_counts d w t root
  have hgeneration : (d.process w t root).2.1.generation =
      (generations (h.records ++ (d.process w t root).1)).length := by
    rw [generations_append, List.length_append, ← hd.generation]
    exact hcounts.count
  constructor
  · constructor
    · intro r hr
      exact hd.ids ▸ process_announced d w t root hr
    · rw [← hgeneration, ← hd.generation]
      exact hcounts
  · apply Dispatcher.Remembers.snoc hgeneration
    · exact hd.next.trans (by simp [Answer.subscription?])
    · exact hd.ids.trans (by simp [Answer.subscription?, Answer.ends])

theorem answer_follows (hd : d.Remembers h) (call : Call ν) :
    (d.answer call).1.Follows h ∧ (d.answer call).2.Remembers (h ++ [(d.answer call).1]) := by
  cases call with
  | subscribe =>
      refine ⟨hd.next, .snoc ?_ ?_ ?_⟩
      · exact hd.generation.trans (by simp [Dispatcher.answer, Answer.records])
      · exact (congrArg (· + 1) hd.next).trans (by simp [Dispatcher.answer, Answer.subscription?])
      · exact (congrArg (· ++ [d.observers.next]) hd.ids).trans
          (by simp [Dispatcher.answer, Dispatcher.subscribe, Observers.subscribe, Answer.subscription?,
            Answer.ends])
  | unsubscribe id =>
      refine ⟨?_, .snoc ?_ ?_ ?_⟩
      · change d.observers.ids.contains id = true ↔ _
        rw [hd.ids, List.contains_iff_mem]
      · exact hd.generation.trans (by simp [Dispatcher.answer, Answer.records])
      · exact hd.next.trans (by simp [Dispatcher.answer, Answer.subscription?])
      · exact (congrArg (List.filter (· ≠ id)) hd.ids).trans
          (by simp [Dispatcher.answer, Answer.subscription?, Answer.ends, eq_comm])
  | push e =>
      refine ⟨trivial, .snoc ?_ ?_ ?_⟩
      · exact hd.generation.trans (by simp [Dispatcher.answer, Answer.records])
      · exact hd.next.trans (by simp [Dispatcher.answer, Answer.subscription?])
      · exact hd.ids.trans (by simp [Dispatcher.answer, Answer.subscription?, Answer.ends])
  | process w t root => exact process_follows hd w t root
  | dispatch w t root e =>
      have hpush : (d.push e).Remembers h := ⟨hd.generation, hd.next, hd.ids⟩
      exact process_follows hpush w t root

theorem live_faithful (hf : h.Faithful) (hd : d.Remembers h) (calls : List (Call ν)) :
    (h ++ (d.live calls).1).Faithful ∧ (d.live calls).2.Remembers (h ++ (d.live calls).1) := by
  -- the history so far varies, since each call is answered from where the one before it left
  induction calls generalizing d h with
  | nil => simpa [Dispatcher.live] using ⟨hf, hd⟩
  | cons call calls ih =>
      obtain ⟨hfollows, hnext⟩ := answer_follows hd call
      simpa [Dispatcher.live] using ih (faithful_snoc hf hfollows) hnext

end

namespace History.Faithful

variable {h before after : History ν} {id : Nat}

theorem subscriptions_eq (hf : h.Faithful) : h.subscriptions = List.range h.subscriptions.length := by
  induction h using List.reverseRecOn with
  | nil => rfl
  | append_singleton h a ih =>
      have ha : a.Follows h := hf h a [] rfl
      rw [subscriptions_snoc]
      cases a with
      | subscribed id =>
          obtain rfl : id = (subscriptions h).length := ha
          simpa [Answer.subscription?, List.range_succ] using ih hf.of_append
      | unsubscribed id found | pushed e | ran w rs =>
          simpa [Answer.subscription?] using ih hf.of_append

theorem subscriptions_nodup (hf : h.Faithful) : h.subscriptions.Nodup :=
  hf.subscriptions_eq ▸ List.nodup_range

theorem standing_nodup (hf : h.Faithful) : h.standing.Nodup :=
  hf.subscriptions_nodup.sublist h.standing_sublist

theorem counts (hf : h.Faithful) : Counts 0 h.records (generations h.records).length := by
  induction h using List.reverseRecOn with
  | nil => exact ⟨rfl, rfl⟩
  | append_singleton h a ih =>
      have ha : a.Follows h := hf h a [] rfl
      rw [records_snoc]
      cases a with
      | ran w rs => exact (ih hf.of_append).append ha.2
      | subscribed id | unsubscribed id found | pushed e =>
          simpa [Answer.records] using ih hf.of_append

theorem received_eq_nil (hf : Faithful (before ++ after)) (hid : id ∉ before.standing)
    (hsub : id ∉ after.subscriptions) : received id after = [] := by
  induction after generalizing before with
  | nil => rfl
  | cons a after ih =>
      have ha : a.Follows before := hf before a after rfl
      rw [subscriptions_cons, List.mem_append, not_or] at hsub
      have hnext : id ∉ standing (before ++ [a]) := fun h => hid ((mem_standing_snoc hsub.1).mp h).1
      have hfirst : a.records.flatMap (heard id) = [] := by
        cases a with
        | ran w rs => exact List.flatMap_eq_nil_iff.mpr fun r hr => (ha.1 r hr).heard_of_not_mem hid
        | subscribed id' | unsubscribed id' found | pushed e => rfl
      rw [received_cons, hfirst]
      exact ih (by simpa using hf) hnext hsub.2

/-- One who has a subscription is told of each event that is applied until it
ends, and then of none. -/
theorem received_of_standing (hf : Faithful (before ++ after)) (hid : id ∈ before.standing)
    (hsub : id ∉ after.subscriptions) :
    List.Forall₂ Tells (after.tenure id).applied (received id after) := by
  induction after generalizing before with
  | nil => exact .nil
  | cons a after ih =>
      have ha : a.Follows before := hf before a after rfl
      have hf' : Faithful ((before ++ [a]) ++ after) := by simpa using hf
      rw [subscriptions_cons, List.mem_append, not_or] at hsub
      rw [received_cons, tenure, List.takeWhile_cons]
      cases hend : a.ends id with
      | true =>
          have hnext : id ∉ standing (before ++ [a]) := by simp [mem_standing_snoc hsub.1, hend]
          have hfirst : a.records = [] := by
            cases a with
            | unsubscribed id' found => rfl
            | subscribed id' | pushed e | ran w rs => cases hend
          rw [hfirst, received_eq_nil hf' hnext hsub.2]
          exact .nil
      | false =>
          have hnext : id ∈ standing (before ++ [a]) := (mem_standing_snoc hsub.1).mpr ⟨hid, hend⟩
          refine List.rel_append ?_ (ih hf' hnext hsub.2)
          cases a with
          | ran w rs =>
              exact List.forall₂_map_left_iff.mpr (forall₂_heard ha.1 hid hf.of_append.standing_nodup)
          | subscribed id' | unsubscribed id' found | pushed e => exact .nil

theorem received_of_split (hf : Faithful (before ++ .subscribed id :: after)) :
    List.Forall₂ Tells (after.tenure id).applied
      (received id (before ++ .subscribed id :: after)) := by
  -- the number is new, so no subscription had it before and none will have it again
  have hnodup : (before.subscriptions ++ id :: after.subscriptions).Nodup := by
    simpa [subscriptions, Answer.subscription?] using hf.subscriptions_nodup
  rw [List.nodup_middle, List.nodup_cons, List.mem_append, not_or] at hnodup
  obtain ⟨⟨hbefore, hafter⟩, -⟩ := hnodup
  have hempty : Faithful ([] ++ before) := hf.of_append
  have hnone : received id before = [] := received_eq_nil hempty List.not_mem_nil hbefore
  have hstanding : id ∈ standing (before ++ [.subscribed id]) := by simp [standing_snoc, Answer.subscription?]
  have hreceived :
      received id (before ++ .subscribed id :: after) = received id before ++ received id after := by
    simp [received, records, Answer.records]
  rw [hreceived, hnone]
  exact received_of_standing (by simpa using hf) hstanding hafter

end History.Faithful

namespace History

theorem generations_applied (h : History ν) :
    generations (h.applied.map Prod.snd) = generations h.records := by
  induction h with
  | nil => rfl
  | cons a h ih =>
      have ha : generations (a.applied.map Prod.snd) = generations a.records := by
        cases a with
        | ran w rs =>
            rw [Answer.applied, List.map_map]
            exact (congrArg generations (List.map_id _)).trans (generations_filter rs)
        | subscribed id | unsubscribed id found | pushed e => rfl
      rw [applied, records, List.flatMap_cons, List.flatMap_cons, List.map_append, generations_append,
        generations_append, ha]
      exact congrArg (_ ++ ·) ih

theorem Faithful.received_of_stranger {h : History ν} (hf : h.Faithful) (id : Nat)
    (hid : .subscribed id ∉ h) : received id h = [] := by
  have hempty : Faithful ([] ++ h) := hf
  exact received_eq_nil hempty List.not_mem_nil (mt mem_subscriptions.mp hid)

theorem Faithful.received_ascending {h : History ν} (hf : h.Faithful) (id : Nat) :
    ((received id h).map StateChanged.generation).Pairwise (· < ·) := by
  by_cases hid : .subscribed id ∈ h
  · obtain ⟨before, after, rfl⟩ := List.append_of_mem hid
    have hsub : (tenure id after).Sublist (before ++ .subscribed id :: after) :=
      ((List.takeWhile_sublist _).trans (List.sublist_cons_self _ _)).trans (List.sublist_append_right _ _)
    rw [generations_of_tells hf.received_of_split]
    -- what it is told of are some of the events that were applied, and those are numbered in order
    apply List.Pairwise.sublist (((hsub.flatMap Answer.applied).map Prod.snd).filterMap _)
    change (generations ((applied _).map Prod.snd)).Pairwise (· < ·)
    rw [generations_applied, hf.counts.consecutive]
    exact List.pairwise_lt_range'
  · rw [hf.received_of_stranger id hid]
    exact .nil

end History

open History in
/-- What those who call a dispatcher can rely on over its whole life, as long as
its counters do not run over: here they have no bound. -/
structure Chronicle (h : History ν) (d : Dispatcher) : Prop where
  counted : d.generation = h.records.countP Record.isApplied
  numbered : generations h.records = List.range' 1 d.generation
  told : ∀ before id after, h = before ++ .subscribed id :: after →
    List.Forall₂ Tells (applied (tenure id after)) (received id h)
  ascending : ∀ id, ((received id h).map StateChanged.generation).Pairwise (· < ·)
  strangers : ∀ id, .subscribed id ∉ h → received id h = []
  announced : ∀ before w rs after, h = before ++ .ran w rs :: after →
    ∀ r ∈ rs, Announced w (standing before) r
  fresh : (subscriptions h).Nodup
  ended : ∀ before id found after, h = before ++ .unsubscribed id found :: after →
    (found = true ↔
      ∃ first rest, before = first ++ .subscribed id :: rest ∧ ∀ a ∈ rest, a.ends id = false)

theorem History.Faithful.chronicle {h : History ν} (hf : h.Faithful) {d : Dispatcher} (hd : d.Remembers h) :
    Chronicle h d where
  counted := hd.generation.trans (length_generations h.records)
  numbered := by
    rw [hd.generation]
    exact hf.counts.consecutive
  told := by
    rintro before id after rfl
    exact hf.received_of_split
  ascending := hf.received_ascending
  strangers := hf.received_of_stranger
  announced := fun before w rs after heq => (hf before (.ran w rs) after heq).1
  fresh := hf.subscriptions_nodup
  ended := fun before id found after heq =>
    (hf before (.unsubscribed id found) after heq).trans History.mem_standing

theorem signals_match_applied_events (c : Config) (calls : List (Call ν)) :
    Chronicle ((Dispatcher.ofConfig c).live calls).1 ((Dispatcher.ofConfig c).live calls).2 := by
  have hempty : History.Faithful ([] : History ν) := by
    intro before a after heq
    cases before <;> cases heq
  have hborn : (Dispatcher.ofConfig c).Remembers ([] : History ν) := ⟨rfl, rfl, rfl⟩
  obtain ⟨hf, hd⟩ := live_faithful hempty hborn calls
  exact hf.chronicle hd

end ViewWiring.Dispatch
