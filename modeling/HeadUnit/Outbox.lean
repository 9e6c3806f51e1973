/-! The outbox: a queue whose items are delivered one at a time, in the order in which they came. A
delivery may put further items into it, and may even try to empty it again from inside; there is
only ever one drain, the outermost, and it delivers everything. -/

namespace HeadUnit

/-- A queue of items, with the mark that it is being drained. -/
structure Outbox (ι : Type) where
  queue : List ι := []
  draining : Bool := false
  deriving DecidableEq

/-- How an item is delivered into surroundings `σ`: the delivery sees the outbox and may queue more.
    It cannot do so for ever: a delivery that adds to the queue lowers the rank of the surroundings,
    and none raises it. -/
structure Courier (ι σ : Type) where
  deliver : ι → Outbox ι → σ → Outbox ι × σ
  rank : σ → Nat
  settles : ∀ i o s, rank (deliver i o s).2 < rank s ∨
    rank (deliver i o s).2 = rank s ∧ (deliver i o s).1.queue.length ≤ o.queue.length

namespace Outbox
variable {ι σ : Type}

/-- Queues items behind those that wait already. -/
def extend (items : List ι) (o : Outbox ι) : Outbox ι := { o with queue := o.queue ++ items }

/-- Whether nothing waits. -/
def isEmpty (o : Outbox ι) : Bool := o.queue.isEmpty

/-- Delivers the first item until none is left. -/
def deliverAll (c : Courier ι σ) (o : Outbox ι) (s : σ) : Outbox ι × σ :=
  match _waiting : o.queue with
  | [] => (o, s)
  | i :: rest =>
    let next := c.deliver i { o with queue := rest } s
    deliverAll c next.1 next.2
termination_by (c.rank s, o.queue.length)
decreasing_by
  rcases c.settles i { o with queue := rest } s with lt | ⟨eq, le⟩
  · exact Prod.Lex.left _ _ lt
  · have shorter : next.1.queue.length < o.queue.length := by
      rw [show o.queue = i :: rest from ‹_›]
      exact Nat.lt_succ_of_le le
    rw [eq]
    exact Prod.Lex.right _ shorter

/-- When the delivery ends, nothing is left. -/
theorem deliverAll_queue (c : Courier ι σ) (o : Outbox ι) (s : σ) :
    (deliverAll c o s).1.queue = [] := by
  fun_induction deliverAll c o s with
  | case1 _ _ h => exact h
  | case2 _ _ _ _ _ _ ih => exact ih

/-- Lets the outbox go after a delivery. -/
def release (o : Outbox ι) : Outbox ι := { o with draining := false }

/-- Delivers everything, unless a drain is under way: that one will. Once it has let the outbox go it
    looks whether anything came in meanwhile, and begins again if so. -/
def drain (c : Courier ι σ) (o : Outbox ι) (s : σ) : Outbox ι × σ :=
  if o.draining then (o, s)
  else
    let done := deliverAll c { o with draining := true } s
    if done.1.release.isEmpty then (done.1.release, done.2) else drain c done.1.release done.2
termination_by o.queue.length
decreasing_by
  -- Nobody but the deliveries adds to the outbox here, so it never does begin again.
  next left => exact absurd (List.isEmpty_iff.mpr (deliverAll_queue ..)) left

@[simp] theorem extend_queue (items : List ι) (o : Outbox ι) :
    (o.extend items).queue = o.queue ++ items := rfl

@[simp] theorem extend_draining (items : List ι) (o : Outbox ι) :
    (o.extend items).draining = o.draining := rfl

theorem deliverAll_nil {c : Courier ι σ} {o : Outbox ι} {s : σ} (h : o.queue = []) :
    deliverAll c o s = (o, s) := by
  unfold deliverAll
  split
  · rfl
  · simp_all

theorem deliverAll_cons {c : Courier ι σ} {o : Outbox ι} {s : σ} {i : ι} {rest : List ι}
    (h : o.queue = i :: rest) :
    deliverAll c o s = deliverAll c (c.deliver i { o with queue := rest } s).1
      (c.deliver i { o with queue := rest } s).2 := by
  rw [deliverAll]
  split
  · simp_all
  · next j r e =>
    obtain ⟨rfl, rfl⟩ := List.cons.inj (e.symm.trans h)
    rfl

/-- A drain from inside a drain delivers nothing. -/
theorem drain_of_draining {c : Courier ι σ} {o : Outbox ι} (h : o.draining = true) (s : σ) :
    o.drain c s = (o, s) := by
  rw [drain, if_pos h]

/-- After a round of deliveries nothing is left in the outbox that was let go. -/
theorem release_deliverAll (c : Courier ι σ) (o : Outbox ι) (s : σ) : (deliverAll c o s).1.release = {} :=
  (Outbox.mk.injEq ..).mpr ⟨deliverAll_queue c o s, rfl⟩

/-- The outermost drain is done after one round of deliveries. -/
theorem drain_of_free {c : Courier ι σ} {o : Outbox ι} (h : o.draining = false) (s : σ) :
    o.drain c s = ((deliverAll c { o with draining := true } s).1.release,
      (deliverAll c { o with draining := true } s).2) := by
  rw [drain, if_neg (by simp [h])]
  dsimp only
  rw [if_pos (by rw [release_deliverAll]; rfl)]

/-- The outermost drain leaves nothing. -/
theorem drain_isEmpty {c : Courier ι σ} {o : Outbox ι} (h : o.draining = false) (s : σ) :
    (o.drain c s).1 = {} := by
  rw [drain_of_free h, release_deliverAll]

end Outbox

end HeadUnit
