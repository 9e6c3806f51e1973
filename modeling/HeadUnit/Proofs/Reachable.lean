import HeadUnit.Proofs.Arbitration
import HeadUnit.Proofs.Effect

/-! The boards that a head unit can come to: any turns in any order, each under conditions of its own
    (policy, clock, numbers drawn), with activations dropped in between. What holds of the empty board
    and is kept by every effect holds of them all. -/

namespace HeadUnit.Board

/-- A board that can come about. -/
inductive Reachable : Board → Prop
  | empty : Reachable {}
  | turn {b : Board} (h : Reachable b) (c : Conditions) (id : Option CorrelationId) (call : Call) :
      Reachable (b.perform c id call).board
  /-- The activations that have outlived the timeout are dropped. -/
  | expire {b : Board} (h : Reachable b) (now : Moment) (timeout : Option UInt64) :
      Reachable (b.expire now timeout).2
  /-- An activation request could not be sent. -/
  | unsent {b : Board} (h : Reachable b) (id : CorrelationId) : Reachable (b.forget id)

theorem Reachable.induct {P : Board → Prop} (empty : P {})
    (effect : ∀ {b c p t}, Reachable b → P b → Effect c b p t → P t.board)
    (pending : ∀ {b} keep, P b → P (b.keepPending keep)) {b : Board} (h : Reachable b) : P b := by
  induction h with
  | empty => exact empty
  | turn h c id call ih => exact effect h ih (perform_effect c id call _)
  | expire _ _ _ ih => exact pending _ ih
  | unsent _ _ ih => exact pending _ ih

/-! ### Promotion -/

/-- What holds once the deferred requests are taken out, and is kept by carrying one of them out, holds
    after a promotion. -/
theorem promote_induct {P : Board → Prop} {b : Board} (blocked : b.isBlocked = true → P b)
    (cleared : P { b with apps := b.apps.map (·.clearPostponed) })
    (carry : ∀ {b' r s}, P b' → r ∈ b.apps → r.postponed? = some s → P (b'.arbitrate r.app s)) :
    P b.promote := by
  unfold promote
  split
  · next h => exact blocked h
  · suffices fold : ∀ (ready : List Assignment) (b' : Board), P b' →
        (∀ x ∈ ready, ∃ r ∈ b.apps, r.postponed? = some x.2 ∧ x.1 = r.app) →
        P (ready.foldl (fun b x => b.arbitrate x.1 x.2) b') by
      refine fold _ _ cleared fun x hx => ?_
      obtain ⟨r, hr, hrx⟩ := List.mem_filterMap.mp hx
      obtain ⟨s, hs, rfl⟩ := Option.map_eq_some_iff.mp hrx
      exact ⟨r, hr, hs, rfl⟩
    intro ready
    induction ready with
    | nil => exact fun b' hb' _ => hb'
    | cons x ready ih =>
      intro b' hb' hready
      obtain ⟨r, hr, hs, he⟩ := hready x List.mem_cons_self
      rw [List.foldl_cons]
      exact ih _ (he ▸ carry hb' hr hs) fun y hy => hready y (List.mem_cons_of_mem _ hy)

/-! ### The order of the roster -/

section Order
variable {b : Board}

theorem ordered_settle (h : b.apps.Ordered) (a : Bool) : (b.settle a).board.apps.Ordered :=
  h.map (AppRecord.informed_app a)

theorem ordered_modify {app : AppId} {f : AppRecord → AppRecord} (h : b.apps.Ordered)
    (keeps : ∀ r, (f r).app = r.app) : (b.modify app f).apps.Ordered :=
  h.map (Roster.modify_keeps app keeps)

theorem ordered_cover (h : b.apps.Ordered) (k : Overlay) : (b.cover k).apps.Ordered :=
  h.map (AppRecord.lay_app k)

theorem ordered_uncover (h : b.apps.Ordered) (k : Overlay) : (b.uncover k).apps.Ordered :=
  h.map (AppRecord.lift_app k)

theorem ordered_promote (h : b.apps.Ordered) : b.promote.apps.Ordered :=
  promote_induct (P := fun b => b.apps.Ordered) (fun _ => h) (h.map fun _ => rfl) fun h _ _ => h.arbitrate _ _

/-- The same with the order of the roster at hand. -/
theorem promote_induct_ordered {P : Board → Prop} (ordered : b.apps.Ordered)
    (blocked : b.isBlocked = true → P b) (cleared : P { b with apps := b.apps.map (·.clearPostponed) })
    (carry : ∀ {b' r s}, b'.apps.Ordered → P b' → r ∈ b.apps → r.postponed? = some s → P (b'.arbitrate r.app s)) :
    P b.promote :=
  (promote_induct (P := fun b => b.apps.Ordered ∧ P b) (fun h => ⟨ordered, blocked h⟩)
    ⟨ordered.map fun _ => rfl, cleared⟩ fun ⟨ordered', h'⟩ hr hs =>
      ⟨ordered'.arbitrate _ _, carry ordered' h' hr hs⟩).2

theorem ordered_enrol {p : Profile} (h : b.apps.Ordered) (fresh : b.apps.record? p.app = none) :
    (b.enrol p).apps.Ordered := by
  refine h.insert ?_
  rw [AppRecord.foldl_lay_eq]
  exact fresh

theorem Effect.ordered {c : Conditions} {p : Option Profile} {t : Turn} (h : b.apps.Ordered)
    (e : Effect c b p t) : t.board.apps.Ordered := by
  cases e with
  | refused f => exact h
  | silent => exact h
  | registered p l fresh valid => exact ordered_settle ((ordered_enrol h fresh).arbitrate _ _) _
  | unregistered known => exact h.remove _
  | resuming known on => exact ordered_modify h fun _ => rfl
  | postponed known valid blocked waits => exact ordered_modify h fun _ => rfl
  | requested known valid free =>
    rw [requestNow_board known]
    exact ordered_settle (h.arbitrate _ _) _
  | awaited known valid free id => exact h
  | unanswered id f => exact h
  | answered found owner => exact ordered_settle (Roster.Ordered.arbitrate h _ _) _
  | started isGlobal => exact ordered_settle (ordered_cover h _) _
  | stopped isGlobal => exact ordered_settle (ordered_promote (ordered_uncover h _)) _
  | streaming known => exact ordered_settle (ordered_modify h (AppRecord.lay_app _)) _
  | streamed known => exact ordered_settle (ordered_promote (ordered_modify h (AppRecord.lift_app _))) _

theorem Reachable.ordered (h : Reachable b) : b.apps.Ordered :=
  h.induct (P := fun b => b.apps.Ordered) List.Pairwise.nil (fun _ ih e => e.ordered ih) fun _ ih => ih

end Order

end HeadUnit.Board
