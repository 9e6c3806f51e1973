import HeadUnit.Outbox.Script
import HeadUnit.Proofs.History
import Mathlib.Data.List.Flatten

/-! Delivery under re-entrancy. A drain delivers what it found in the outbox and then what came in behind it,
    from whatever depth: a drain from inside leaves everything to the outermost one. So each item is delivered
    once, in the order in which it was queued, and the outermost drain ends with nothing left. -/

namespace HeadUnit

namespace Outbox
variable {ι : Type} {acts : List (Insertion ι)} {queue : List ι} {o : Outbox ι} {s : Script ι}

namespace Delivery

def item? : Delivery ι → Option ι
  | .item i => some i
  | .inner .. => none

/-- What an act's own drain delivered. -/
def inner? : Delivery ι → Option (List ι)
  | .item _ => none
  | .inner items _ => some items

end Delivery

/-- The items delivered, in this order. -/
def deliveredOf (record : List (Delivery ι)) : List ι := record.filterMap Delivery.item?

/-- The acts that come due in the first deliveries, in the order in which they are carried out. -/
def dueWithin (acts : List (Insertion ι)) (deliveries : Nat) : List (Insertion ι) :=
  (List.range deliveries).flatMap fun j => acts.filter (·.index = j)

theorem dueWithin_succ (acts : List (Insertion ι)) (n : Nat) :
    dueWithin acts (n + 1) = dueWithin acts n ++ acts.filter (·.index = n) := by
  rw [dueWithin, List.range_succ, List.flatMap_append]
  simp [dueWithin]

/-- Every act whose delivery is made is carried out once, and no other is. -/
theorem dueWithin_perm (acts : List (Insertion ι)) (n : Nat) :
    (dueWithin acts n).Perm (acts.filter (·.index < n)) := by
  induction n with
  | zero => simp [dueWithin]
  | succ n ih =>
    have split := List.filter_append_perm (fun a => decide (a.index < n)) (acts.filter (·.index < n + 1))
    have before : (fun a : Insertion ι => decide (a.index < n) && decide (a.index < n + 1)) =
        fun a => decide (a.index < n) := funext fun a => Bool.eq_iff_iff.mpr (by simp; omega)
    have now : (fun a : Insertion ι => !decide (a.index < n) && decide (a.index < n + 1)) =
        fun a => decide (a.index = n) := funext fun a => Bool.eq_iff_iff.mpr (by simp; omega)
    rw [List.filter_filter, List.filter_filter, before, now] at split
    rw [dueWithin_succ]
    exact (ih.append_right _).trans split

/-! ### From inside a drain -/

/-- An act from inside queues its items, and its own drain delivers nothing. -/
theorem Insertion.perform_of_draining (h : o.draining = true) (a : Insertion ι) :
    a.perform o = (o.extend a.items, .inner [] (o.extend a.items).isEmpty) := by
  unfold Insertion.perform
  have kept : (o.extend a.items).drain collector [] = (o.extend a.items, []) :=
    drain_of_draining (o := o.extend a.items) h []
  cases a.drains <;> simp [kept]

theorem performAll_of_draining (h : o.draining = true) (acts : List (Insertion ι)) :
    (performAll acts o).1 = o.extend (acts.flatMap (·.items)) ∧
      (performAll acts o).2.filterMap Delivery.item? = [] ∧
      (performAll acts o).2.filterMap Delivery.inner? = List.replicate acts.length [] := by
  induction acts using List.reverseRecOn with
  | nil => simp [performAll, extend]
  | append_singleton acts a ih =>
    obtain ⟨outbox, items, inners⟩ := ih
    have last : performAll (acts ++ [a]) o =
        ((a.perform (performAll acts o).1).1, (performAll acts o).2 ++ [(a.perform (performAll acts o).1).2]) := by
      simp [performAll]
    have inside : (performAll acts o).1.draining = true := by rw [outbox]; exact h
    rw [last, a.perform_of_draining inside, outbox]
    simp [extend, Delivery.item?, Delivery.inner?, items, inners, List.replicate_succ']

/-! ### The outermost drain -/

/-- A drain under a script is under way: what was delivered and what still waits is what was there first and what
    the acts so far have queued, and the acts not due yet are still to come. -/
structure Follows (acts : List (Insertion ι)) (queue : List ι) (o : Outbox ι) (s : Script ι) : Prop where
  draining : o.draining = true
  toCome : s.acts = acts.filter (s.made ≤ ·.index)
  made : s.made = (deliveredOf s.record).length
  inOrder : deliveredOf s.record ++ o.queue = queue ++ (dueWithin acts s.made).flatMap (·.items)
  silent : s.record.filterMap Delivery.inner? = List.replicate (dueWithin acts s.made).length []

theorem Follows.deliver (h : Follows acts queue o s) {i : ι} {rest : List ι} (waiting : o.queue = i :: rest) :
    Follows acts queue (s.deliver i { o with queue := rest }).1 (s.deliver i { o with queue := rest }).2 := by
  obtain ⟨outbox, items, inners⟩ := performAll_of_draining (o := { o with queue := rest }) h.draining s.due
  -- The acts of earlier deliveries are done with, so none of them comes due again.
  have due : s.due = acts.filter (·.index = s.made) := by
    rw [Script.due, h.toCome, List.filter_filter]
    exact List.filter_congr fun a _ => Bool.eq_iff_iff.mpr (by simp; omega)
  have delivered : deliveredOf (s.deliver i { o with queue := rest }).2.record = deliveredOf s.record ++ [i] := by
    simp [deliveredOf, Script.deliver, Delivery.item?, items]
  have within : dueWithin acts (s.deliver i { o with queue := rest }).2.made = dueWithin acts s.made ++ s.due := by
    rw [due]
    exact dueWithin_succ acts s.made
  refine ⟨?_, ?_, ?_, ?_, ?_⟩
  · change (performAll s.due _).1.draining = true
    rw [outbox]
    exact h.draining
  · change s.acts.filter _ = acts.filter fun a => s.made + 1 ≤ a.index
    rw [h.toCome, List.filter_filter]
    exact List.filter_congr fun a _ => Bool.eq_iff_iff.mpr (by simp; omega)
  · rw [delivered, List.length_append, ← h.made]
    rfl
  · have queued : (s.deliver i { o with queue := rest }).1.queue = rest ++ s.due.flatMap (·.items) := by
      change (performAll s.due _).1.queue = _
      rw [outbox]
      rfl
    calc deliveredOf (s.deliver i { o with queue := rest }).2.record ++ (s.deliver i { o with queue := rest }).1.queue
      _ = (deliveredOf s.record ++ o.queue) ++ s.due.flatMap (·.items) := by
        rw [delivered, queued, waiting]
        simp
      _ = queue ++ (dueWithin acts s.made ++ s.due).flatMap (·.items) := by
        rw [h.inOrder, List.append_assoc, List.flatMap_append]
      _ = _ := by rw [within]
  · change (s.record ++ .item i :: (performAll s.due _).2).filterMap Delivery.inner? = _
    rw [within, List.length_append, List.replicate_add, ← h.silent, ← inners, List.filterMap_append]
    rfl

theorem drainScripted_follows (acts : List (Insertion ι)) (queue : List ι) :
    ∃ s, Follows acts queue { draining := true } s ∧ drainScripted acts { queue } = ({}, s.record) := by
  have start : Follows acts queue { queue, draining := true } { acts } := by
    refine ⟨rfl, ?_, rfl, ?_, rfl⟩
    · exact (List.filter_eq_self.mpr fun a _ => by simp).symm
    · simp [deliveredOf, dueWithin]
  have ended := deliverAll_induct (c := Script.courier) (P := fun o s => Follows acts queue o s)
    (fun _ _ _ _ waiting h => h.deliver waiting) start
  have empty : (deliverAll Script.courier { queue, draining := true } ({ acts } : Script ι)).1 =
      { draining := true } := (Outbox.mk.injEq ..).mpr ⟨deliverAll_queue _ _ _, ended.draining⟩
  rw [empty] at ended
  refine ⟨_, ended, ?_⟩
  rw [drainScripted, drain_of_free rfl, release_deliverAll]

end Outbox

/-- Whatever a finite script queues from inside the deliveries, and however it drains from there: the drain ends
    with an empty outbox, it has delivered what was there first and then what the acts queued, in the order in
    which they came due and each once, and the drains from inside have delivered nothing. So over a whole run, in
    the hands of a host that may give commands from inside the deliveries, what is delivered is what the turns
    queued, turn by turn in the order in which they were taken. -/
theorem delivered_once_in_order :
    (∀ {ι : Type} (acts : List (Outbox.Insertion ι)) (queue : List ι),
      let done := Outbox.drainScripted acts { queue }
      let delivered := Outbox.deliveredOf done.2
      let carried := Outbox.dueWithin acts delivered.length
      done.1 = {} ∧ delivered = queue ++ carried.flatMap (·.items) ∧
        carried.Perm (acts.filter (·.index < delivered.length)) ∧
        done.2.filterMap Outbox.Delivery.inner? = List.replicate carried.length [] ∧
        delivered.length ≤ queue.length + (acts.flatMap (·.items)).length) ∧
      ∀ (settings : Settings) (host : Host) (cs : List Command),
        let done := Session.runAll cs { settings, host }
        done.1.outbox = {} ∧ History.Played done.2.turns ∧
          done.2.delivered = done.2.turns.flatMap fun x => x.2.notices := by
  refine ⟨fun {ι} acts queue => ?_, fun settings host cs => ?_⟩
  · intro done delivered carried
    obtain ⟨s, follows, e⟩ := Outbox.drainScripted_follows acts queue
    have record : done.2 = s.record := congrArg Prod.snd e
    have made : s.made = delivered.length := by
      rw [follows.made, ← record]
    have inOrder : delivered = queue ++ carried.flatMap (·.items) := by
      have inOrder := follows.inOrder
      rwa [List.append_nil, made, ← record] at inOrder
    have once : carried.Perm (acts.filter (·.index < delivered.length)) := Outbox.dueWithin_perm _ _
    have silent : done.2.filterMap Outbox.Delivery.inner? = List.replicate carried.length [] := by
      rw [record, follows.silent, made]
    refine ⟨congrArg Prod.fst e, inOrder, once, silent, ?_⟩
    -- What was carried out is part of the script.
    have within : (carried.flatMap (·.items)).length ≤ (acts.flatMap (·.items)).length := by
      rw [(once.flatMap_right _).length_eq]
      exact (List.filter_sublist.flatMap _).length_le
    rw [inOrder, List.length_append]
    exact Nat.add_le_add_left within _
  · intro done
    have delivered : done.2.delivered = done.2.queued := Session.delivered_runAll settings host cs
    exact ⟨Session.runAll_outbox rfl cs, Session.played_runAll settings host cs,
      delivered.trans (Log.queued_eq_turns _)⟩

-- Two acts come due at the first delivery, one at the third, and the last never.
example : Outbox.drainScripted [⟨0, [2, 3], true⟩, ⟨2, [5], false⟩, ⟨0, [4], true⟩, ⟨9, [6], true⟩] { queue := [1] } =
    ({}, [.item 1, .inner [] false, .inner [] false, .item 2, .item 3, .inner [] false, .item 4, .item 5]) := by cbv

end HeadUnit
