import HeadUnit.Proofs.Replies
import HeadUnit.Proofs.Undisturbed

/-! Only a call that is applied shows. A call that is dropped, put off or left to the HMI changes nothing that
    an application could see, and no application is told anything, whichever step of the turn the refusal came
    from. -/

namespace HeadUnit.Session
variable {s : Session} {call : Call}

theorem turn_replied (call : Call) (s : Session) : Board.Replied s.conditions s.board call (s.turn call) :=
  Board.perform_replied _ _ _ _

theorem turn_reply {r : Reply} (h : (s.run (.call call)).2 = .reply r) : (s.turn call).reply = r := by
  rw [run_call_reply] at h
  exact Response.reply.inj h

theorem turn_of_undrawn (unasked : call.drawsId = false) (s : Session) :
    s.turn call = s.board.perform s.conditions none call := by
  simp only [turn, drawn?, unasked, Bool.false_eq_true, ↓reduceIte]

/-- A call for which no number is drawn asks the HMI for nothing. -/
theorem run_call_board_of_undrawn (rest : s.outbox = {}) (aside : Reacts Command.IsAside s.host.reactions)
    (unasked : call.drawsId = false) : (s.run (.call call)).1.board = (s.turn call).board := by
  refine run_call_board_of_asksNothing rest aside ((turn_replied call s).asksNothing fun number awaits => ?_)
  rw [turn_of_undrawn unasked] at awaits
  cases Board.perform_awaiting awaits

/-- A turn without notices is over at once. -/
theorem run_of_turn (rest : s.outbox = {}) (aside : Reacts Command.IsAside s.host.reactions)
    (silent : (s.turn call).notices = []) :
    Log.delivered (s.run (.call call)).1.host.log = [] ∧ (s.run (.call call)).1.board = (s.turn call).board := by
  refine ⟨(delivered_run_call rest aside call).trans silent, run_call_board_of_asksNothing rest aside fun r => ?_⟩
  rw [silent]
  exact List.not_mem_nil

/-- Between two commands, with a host that gives none from inside the deliveries: a call that is dropped leaves
    all records and overlays as they were, and of the pending activations it takes away the one that it answers
    and no other; one that is put off fills the slot of its application and does nothing else; one that awaits
    an answer of the HMI leaves all records and overlays as they were, asks the HMI once and touches no pending
    activation but its own. In none of these cases is any application told anything. -/
theorem only_applied_shows (rest : s.outbox = {}) (aside : Reacts Command.IsAside s.host.reactions) (call : Call) :
    let t := (s.run (.call call)).1
    let response := (s.run (.call call)).2
    let told := Log.delivered t.host.log
    (∀ f, response = .reply (.dropped f) →
        told = [] ∧ t.board.apps = s.board.apps ∧ t.board.overlays = s.board.overlays ∧
          t.board.pending = match call with
            | .event (.activationAnswered id _) => s.board.pending.remove id
            | _ => s.board.pending) ∧
      (response = .reply .postponed →
        told = [] ∧ ∃ app slot, call.asks? = some app ∧
          t.board = s.board.modify app fun r => { r with postponed? := slot }) ∧
      ∀ id, response = .reply (.awaiting id) →
        t.board.apps = s.board.apps ∧ t.board.overlays = s.board.overlays ∧
          (∃ r : ActivationRequest, told = [.activate r] ∧ r.id = id) ∧
          ∀ other, other ≠ id → t.board.pending.find? other = s.board.pending.find? other := by
  intro t response told
  refine ⟨fun f dropped => ?_, fun postponed => ?_, fun id awaiting => ?_⟩
  · have turn := (turn_replied call s).of_dropped (turn_reply dropped)
    obtain ⟨silent, board⟩ := run_of_turn rest aside (congrArg Turn.notices turn)
    have board : t.board = s.board.withoutAnswered call := board.trans (congrArg Turn.board turn)
    rw [board]
    refine ⟨silent, ?_⟩
    cases call with
    | event e => cases e <;> exact ⟨rfl, rfl, rfl⟩
    | _ => exact ⟨rfl, rfl, rfl⟩
  · obtain ⟨r, asked, wish, -, turn⟩ := (turn_replied call s).of_postponed (turn_reply postponed)
    obtain ⟨silent, board⟩ := run_of_turn rest aside (congrArg Turn.notices turn)
    exact ⟨silent, r.app, some (asked.onLayer .regular), Call.asks?_of_wish? wish,
      board.trans (congrArg Turn.board turn)⟩
  · obtain ⟨r, asked, -, -, turn⟩ := (turn_replied call s).of_awaiting (turn_reply awaiting)
    have board := run_call_board_of_activate rest aside (congrArg Turn.notices turn)
    have asked := (delivered_run_call rest aside call).trans (congrArg Turn.notices turn)
    rw [turn] at board
    change t.board = _ at board
    rw [board]
    split
    · exact ⟨rfl, rfl, ⟨_, asked, rfl⟩, fun other ne => Pending.find?_insert_of_ne ne _ _⟩
    · refine ⟨rfl, rfl, ⟨_, asked, rfl⟩, fun other ne => ?_⟩
      exact (Pending.find?_remove_of_ne ne _).trans (Pending.find?_insert_of_ne ne _ _)

/-- In a voice session, with one activation pending: its refusal uses it up, the request of an application that
    is not resuming is put off, and the second activation of the resuming one leaves the first alone. -/
theorem only_applied_shows_in_voice_session :
    let s := [Command.call (.register ⟨⟨1⟩, ⟨11⟩, { media := true }⟩ .background),
      .call (.register ⟨⟨2⟩, ⟨12⟩, {}⟩ .absent), .call (.requestLevel ⟨1⟩ .full), .call (.event .voiceStarted),
      .call (.setResuming ⟨1⟩ true)].foldl (fun s c => (s.run c).1) ({} : Session)
    let refused := s.run (.call (.event (.activationAnswered ⟨1⟩ .rejected)))
    let putOff := s.run (.call (.requestLevel ⟨2⟩ .limited))
    let asked := s.run (.call (.requestLevel ⟨1⟩ .full))
    (refused.2 = .reply (.dropped (.refused ⟨1⟩ .rejected)) ∧ refused.1.board.apps = s.board.apps ∧
        refused.1.board.pending = s.board.pending.remove ⟨1⟩ ∧ s.board.pending.size = 1) ∧
      (putOff.2 = .reply .postponed ∧ Log.delivered putOff.1.host.log = []) ∧
      asked.2 = .reply (.awaiting ⟨2⟩) ∧ asked.1.board.apps = s.board.apps ∧
        asked.1.board.pending.find? ⟨1⟩ = s.board.pending.find? ⟨1⟩ := by
  intro s refused putOff asked
  have rest : s.outbox = {} := by cbv
  have aside : Reacts Command.IsAside s.host.reactions := .of_eq_nil (by cbv)
  have refusal : refused.2 = .reply (.dropped (.refused ⟨1⟩ .rejected)) := by cbv
  have delay : putOff.2 = .reply .postponed := by cbv
  have request : asked.2 = .reply (.awaiting ⟨2⟩) := by cbv
  obtain ⟨-, apps, -, pending⟩ := (only_applied_shows rest aside _).1 _ refusal
  obtain ⟨silent, -⟩ := (only_applied_shows rest aside _).2.1 delay
  obtain ⟨apps', -, -, others⟩ := (only_applied_shows rest aside _).2.2 _ request
  exact ⟨⟨refusal, apps, pending, by cbv⟩, ⟨delay, silent⟩, request, apps', others ⟨1⟩ (by decide)⟩

end HeadUnit.Session
