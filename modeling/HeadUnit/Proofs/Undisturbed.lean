import HeadUnit.Proofs.Log

/-! What a call leaves behind once it is over. Its own work is the turn that it takes over the board. The
    deliveries that follow can change more only where the host gives commands of its own from inside them;
    a host that merely looks on, or looks after its own affairs, leaves the board as the turn left it, save
    that an activation request which could not be sent is pending no longer. -/

namespace HeadUnit

/-- A command that leaves the head unit alone: it looks at something or concerns the host. -/
def Command.IsAside : Command → Prop
  | .call _ | .expire => False
  | _ => True

namespace Host

theorem drawId_opened (h : Host) : (Host.drawId { h with log := [] }).1 = h.drawId.1 := by
  obtain ⟨_, _, _, _, queued, _, _, _⟩ := h
  cases queued <;> rfl

theorem drawId_accepts (h : Host) : h.drawId.2.accepts = h.accepts := by
  unfold drawId
  split <;> rfl

theorem drawId_received (h : Host) : h.drawId.2.received = h.received := by
  unfold drawId
  split <;> rfl

end Host

namespace Session
variable {s t : Session} {c : Call}

/-! ### What is shown of an application -/

theorem view_current? (app : AppId) (s : Session) :
    (s.view app).current? = (s.board.apps.record? app).map (·.effective s.policy.attenuates) := by
  unfold view
  cases s.board.apps.record? app <;> rfl

theorem view_regular? (app : AppId) (s : Session) :
    (s.view app).regular? = (s.board.apps.record? app).map (·.regular) := by
  unfold view
  cases s.board.apps.record? app <;> rfl

theorem view_postponed? (app : AppId) (s : Session) :
    (s.view app).postponed? = (s.board.apps.record? app).bind (·.postponed?) := by
  unfold view
  cases s.board.apps.record? app <;> rfl

/-! ### The turn of a call -/

/-- The number that is drawn for a call. -/
def drawn? (c : Call) (s : Session) : Option CorrelationId := if c.drawsId then some s.host.drawId.1 else none

/-- The turn that a call takes over the board. -/
def turn (c : Call) (s : Session) : Turn := s.board.perform s.conditions (s.drawn? c) c

theorem turn_opened (c : Call) (s : Session) : s.opened.turn c = s.turn c := by
  simp only [turn, drawn?, opened, Host.drawId_opened]
  rfl

theorem enter_call_board (c : Call) (s : Session) : (s.enter (.call c)).1.board = (s.turn c).board := by
  simp only [enter, enterCall, turn, drawn?]
  split <;> rfl

theorem enter_call_outbox (c : Call) (s : Session) :
    (s.enter (.call c)).1.outbox = s.outbox.extend (s.turn c).notices := by
  simp only [enter, enterCall, turn, drawn?]
  split <;> rfl

theorem enter_call_received (c : Call) (s : Session) : (s.enter (.call c)).1.host.received = s.host.received := by
  simp only [enter, enterCall, Host.noteTurn]
  split
  · exact Host.drawId_received s.host
  · rfl

theorem enter_call_log (c : Call) (s : Session) :
    (s.enter (.call c)).1.host.log = s.host.log ++ [.turn c (s.turn c)] := by
  simp only [enter, enterCall, Host.noteTurn, turn, drawn?]
  split
  · exact congrArg (· ++ _) s.host.drawId_log
  · rfl

theorem enter_call_policy (c : Call) (s : Session) : (s.enter (.call c)).1.policy = s.policy := by
  simp only [enter, enterCall, Host.noteTurn, policy]
  split
  · rw [Host.drawId_policy?]
  · rfl

theorem enter_call_reply (c : Call) (s : Session) : (s.enter (.call c)).2 = .reply (s.turn c).reply := by
  simp only [enter, enterCall, turn, drawn?]
  split <;> rfl

/-- What is replied is settled by the turn, before anything is delivered. -/
theorem run_call_reply (c : Call) (s : Session) : (s.run (.call c)).2 = .reply (s.turn c).reply := by
  rw [← turn_opened]
  exact enter_call_reply c s.opened

/-! ### Deliveries without commands -/

theorem enter_aside {c : Command} (aside : c.IsAside) (s : Session) :
    (s.enter c).1.board = s.board ∧ (s.enter c).1.outbox = s.outbox ∧ (s.enter c).1.host.log = s.host.log := by
  cases c with
  | call c => cases aside
  | expire => cases aside
  | setPolicy p =>
    simp only [enter]
    split <;> exact ⟨rfl, rfl, rfl⟩
  | _ => exact ⟨rfl, rfl, rfl⟩

theorem Step.aside (h : Step Command.IsAside s t) : ∃ keep, t.board = s.board.keepPending keep := by
  have same : ∀ b : Board, b = b.keepPending fun _ => true := fun b => by
    simp [Board.keepPending, Pending.filter]
  cases h with
  | enter c aside s => exact ⟨_, (enter_aside aside s).1.trans (same s.board)⟩
  | note c r s => exact ⟨_, same s.board⟩
  | receive waiting reactions => exact ⟨_, same s.board⟩
  | unsent id s => exact ⟨_, rfl⟩
  | guard on s => exact ⟨_, same s.board⟩

theorem Steps.aside (h : Steps Command.IsAside s t) : ∃ keep, t.board = s.board.keepPending keep := by
  induction h with
  | refl => exact ⟨fun _ => true, by simp [Board.keepPending, Pending.filter]⟩
  | tail _ hs ih =>
    obtain ⟨keep, e⟩ := ih
    obtain ⟨keep', e'⟩ := hs.aside
    refine ⟨fun row => keep row && keep' row, ?_⟩
    rw [e', e]
    simp [Board.keepPending, Pending.filter, List.filter_filter, Bool.and_comm]

/-- A host that gives no command leaves the board as the turn left it, but for what could not be sent. -/
theorem run_call_board (aside : Reacts Command.IsAside s.host.reactions) (c : Call) :
    ∃ keep, (s.run (.call c)).1.board = (s.turn c).board.keepPending keep := by
  obtain ⟨keep, e⟩ := (flush_steps (aside.enter (.call c))).1.aside
  rw [enter_call_board, turn_opened] at e
  exact ⟨keep, e⟩

theorem Reacts.run {allowed : Command → Prop} (reacts : Reacts allowed s.host.reactions) (c : Command) :
    Reacts allowed (s.run c).1.host.reactions :=
  (flush_steps (reacts.enter c)).2

theorem flush_of_rest (rest : s.outbox = {}) : s.flush = s := by
  have idle : Outbox.deliverAll (courier s.settings) { draining := true } ⟨s.board, s.host⟩ =
      ({ draining := true }, ⟨s.board, s.host⟩) := Outbox.deliverAll_nil rfl
  obtain ⟨settings, board, outbox, host⟩ := s
  obtain rfl : outbox = {} := rest
  rw [flush, Outbox.drain_of_free rfl]
  dsimp only
  rw [idle]
  rfl

theorem run_of_silent (rest : s.outbox = {}) (silent : (s.turn c).notices = []) :
    (s.run (.call c)).1 = (s.opened.enter (.call c)).1 := by
  have empty : (s.opened.enter (.call c)).1.outbox = {} := by
    rw [enter_call_outbox, turn_opened, silent]
    simp [opened, rest, Outbox.extend]
  exact flush_of_rest empty

/-! ### What is delivered -/

theorem foldl_enterInside_aside {cs : List Command} (aside : ∀ c ∈ cs, c.IsAside) (s : Session) :
    (cs.foldl enterInside s).board = s.board ∧ (cs.foldl enterInside s).outbox = s.outbox := by
  induction cs generalizing s with
  | nil => exact ⟨rfl, rfl⟩
  | cons c cs ih =>
    obtain ⟨board, outbox, -⟩ := enter_aside (aside c List.mem_cons_self) s
    obtain ⟨board', outbox'⟩ := ih (fun c' hc' => aside c' (List.mem_cons_of_mem _ hc')) (s.enterInside c)
    exact ⟨board'.trans board, outbox'.trans outbox⟩

/-- The board once a notice was sent on: an activation that could not be asked for is forgotten. -/
def boardAfter (n : Notice) (x : Scene) : Board :=
  match n with
  | .activate r => if x.host.accepts = true then x.board else x.board.forget r.id
  | _ => x.board

theorem deliver_aside (settings : Settings) (n : Notice) (o : Outbox Notice) {x : Scene}
    (aside : Reacts Command.IsAside x.host.reactions) :
    (deliver settings n o x).1 = o ∧ (deliver settings n o x).2.board = boardAfter n x ∧
      Reacts Command.IsAside (deliver settings n o x).2.host.reactions := by
  obtain ⟨given, left⟩ := useFirst_commands aside n
  have kept := foldl_enterInside_aside given
    { settings, board := x.board, outbox := o
      host := { x.host.receive n with reactions := (Reaction.useFirst n x.host.reactions).2 } }
  refine ⟨kept.2, ?_, ?_⟩
  · simp only [deliver, kept.1]
    cases n <;> rfl
  · simp only [deliver, foldl_enterInside_reactions]
    exact left

theorem deliverAll_aside {settings : Settings} {ns : List Notice} {draining : Bool} {x : Scene}
    (asksNothing : ∀ r, .activate r ∉ ns) (aside : Reacts Command.IsAside x.host.reactions) :
    (Outbox.deliverAll (courier settings) ⟨ns, draining⟩ x).2.board = x.board := by
  induction ns generalizing x with
  | nil => rw [Outbox.deliverAll_nil rfl]
  | cons n ns ih =>
    obtain ⟨outbox, board, aside'⟩ := deliver_aside settings n ⟨ns, draining⟩ aside
    have plain : boardAfter n x = x.board := by
      cases n with
      | activate r => exact absurd List.mem_cons_self (asksNothing r)
      | _ => rfl
    rw [Outbox.deliverAll_cons rfl]
    change (Outbox.deliverAll (courier settings) (deliver settings n ⟨ns, draining⟩ x).1
      (deliver settings n ⟨ns, draining⟩ x).2).2.board = _
    rw [outbox, ih (fun r hr => asksNothing r (List.mem_cons_of_mem _ hr)) aside', board, plain]

theorem flush_board (s : Session) (rest : s.outbox.draining = false) : s.flush.board =
    (Outbox.deliverAll (courier s.settings) { s.outbox with draining := true } ⟨s.board, s.host⟩).2.board := by
  rw [flush, Outbox.drain_of_free rest]

theorem enter_call_accepts (c : Call) (s : Session) : (s.enter (.call c)).1.host.accepts = s.host.accepts := by
  simp only [enter, enterCall, Host.noteTurn]
  split
  · exact Host.drawId_accepts s.host
  · rfl

/-- A turn that asks the HMI for nothing leaves the board to the applications: their deliveries do not change
    it, if the host gives no command from inside them. -/
theorem run_call_board_of_asksNothing (rest : s.outbox = {}) (aside : Reacts Command.IsAside s.host.reactions)
    (asksNothing : ∀ r, .activate r ∉ (s.turn c).notices) : (s.run (.call c)).1.board = (s.turn c).board := by
  have queued : (s.opened.enter (.call c)).1.outbox = ⟨(s.turn c).notices, false⟩ := by
    rw [enter_call_outbox, turn_opened]
    simp [opened, rest, Outbox.extend]
  change (s.opened.enter (.call c)).1.flush.board = _
  rw [flush_board _ (by rw [queued]), queued, deliverAll_aside asksNothing (aside.enter _), enter_call_board,
    turn_opened]

/-- An activation that the turn asked for stays pending only if it could be asked for. -/
theorem run_call_board_of_activate (rest : s.outbox = {}) (aside : Reacts Command.IsAside s.host.reactions)
    {r : ActivationRequest} (asks : (s.turn c).notices = [.activate r]) : (s.run (.call c)).1.board =
      if s.host.accepts = true then (s.turn c).board else (s.turn c).board.forget r.id := by
  have queued : (s.opened.enter (.call c)).1.outbox = ⟨[.activate r], false⟩ := by
    rw [enter_call_outbox, turn_opened, asks]
    simp [opened, rest, Outbox.extend]
  have accepts : (s.opened.enter (.call c)).1.host.accepts = s.host.accepts := enter_call_accepts c s.opened
  have board : (s.opened.enter (.call c)).1.board = (s.turn c).board := by rw [enter_call_board, turn_opened]
  have plain := aside.enter (.call c)
  change (s.opened.enter (.call c)).1.flush.board = _
  rw [flush_board _ (by rw [queued]), queued]
  generalize (s.opened.enter (.call c)).1 = t at accepts board plain
  -- The request is the only notice, and no command adds one while it is delivered.
  obtain ⟨outbox, delivered, -⟩ := deliver_aside t.settings (.activate r) ⟨[], true⟩ (x := ⟨t.board, t.host⟩) plain
  rw [Outbox.deliverAll_cons rfl]
  change (Outbox.deliverAll (courier t.settings) (deliver t.settings (.activate r) ⟨[], true⟩ ⟨t.board, t.host⟩).1
    (deliver t.settings (.activate r) ⟨[], true⟩ ⟨t.board, t.host⟩).2).2.board = _
  rw [outbox, Outbox.deliverAll_nil rfl, delivered, boardAfter, accepts, board]

theorem Step.aside_queued (h : Step Command.IsAside s t) : Log.queued t.host.log = Log.queued s.host.log := by
  cases h with
  | enter c aside s => rw [(enter_aside aside s).2.2]
  | note c r s => exact (Log.queued_concat).trans (List.append_nil _)
  | receive waiting reactions => exact (Log.queued_concat).trans (List.append_nil _)
  | unsent id s => rfl
  | guard on s => rfl

theorem Steps.aside_queued (h : Steps Command.IsAside s t) : Log.queued t.host.log = Log.queued s.host.log := by
  induction h with
  | refl => rfl
  | tail _ hs ih => exact hs.aside_queued.trans ih

theorem InOrder.steps {allowed : Command → Prop} {past : Log} (h : InOrder past s) (hs : Steps allowed s t) :
    InOrder past t := by
  induction hs with
  | refl => exact h
  | tail _ hs ih => exact ih.step hs

/-- What is delivered in the course of a call is what its turn has queued. -/
theorem delivered_run_call (rest : s.outbox = {}) (aside : Reacts Command.IsAside s.host.reactions) (c : Call) :
    Log.delivered (s.run (.call c)).1.host.log = (s.turn c).notices := by
  have start : InOrder [] s.opened := by
    rw [InOrder, opened, rest]
    rfl
  have given : Step (fun _ => True) s.opened (s.opened.enter (.call c)).1 := .enter _ trivial _
  have delivery := (flush_steps (aside.enter (.call c))).1
  have inOrder : InOrder [] (s.run (.call c)).1 := (start.step given).steps delivery
  have queued : Log.queued (s.run (.call c)).1.host.log = (s.turn c).notices := by
    refine delivery.aside_queued.trans ?_
    rw [enter_call_log, turn_opened, Log.queued_concat]
    rfl
  rw [InOrder, List.nil_append, queued, run_outbox (by rw [rest])] at inOrder
  exact (inOrder.trans (List.append_nil _)).symm

theorem delivered_of_uncalled (rest : s.outbox = {}) {c : Command} (given : ∀ call, c ≠ .call call) :
    Log.delivered (s.run c).1.host.log = [] := by
  have quiet : (s.opened.enter c).1.outbox = s.outbox ∧ (s.opened.enter c).1.host.log = [] := by
    by_cases idle : c.IsAside
    · exact (enter_aside idle s.opened).2
    · cases c with
      | call call => exact absurd rfl (given call)
      | expire => exact ⟨rfl, rfl⟩
      | _ => exact absurd trivial idle
  change Log.delivered (s.opened.enter c).1.flush.host.log = []
  rw [flush_of_rest (quiet.1.trans rest), quiet.2]
  rfl

/-! ### Before and after -/

/-- The session after a call: when its turn is over, and also when all that it queued has been delivered,
    if the host gave no command from inside the deliveries. -/
inductive After (c : Call) (s : Session) : Session → Prop
  | turn : After c s (s.enter (.call c)).1
  | delivered (aside : Reacts Command.IsAside s.host.reactions) : After c s (s.run (.call c)).1

theorem After.board (h : After c s t) : ∃ keep, t.board = (s.turn c).board.keepPending keep := by
  cases h with
  | turn => exact ⟨fun _ => true, by simp [enter_call_board, Board.keepPending, Pending.filter]⟩
  | delivered aside => exact run_call_board aside c

theorem After.apps (h : After c s t) : t.board.apps = (s.turn c).board.apps := by
  obtain ⟨keep, e⟩ := h.board
  rw [e]
  rfl

end Session

end HeadUnit
