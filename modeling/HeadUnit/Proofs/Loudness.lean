import HeadUnit.Proofs.Handshake
import HeadUnit.Proofs.Transparency

/-! The attenuation flag decides how loud applications are, and nothing else. It enters every effective status,
    and every turn tells applications their effective statuses; but of those statuses the turns themselves read
    no more than the level, which the flag does not touch. So two runs whose flags differ, however often, go the
    same way once it is left out what was told. -/

namespace HeadUnit

/-! ### What the flag does to a status -/

/-- How loud an application is. An unknown mode counts as the loudest. -/
def Audio.loudness : Audio → Nat
  | .notAudible => 0
  | .attenuated => 1
  | .audible => 2
  | .invalid => 3

namespace Overlay
variable {c : Capabilities} {s t : Status}

/-- Of the status under it an overlay reads the audio for the audio alone, and the flag likewise. -/
theorem cover_muted (k : Overlay) (c : Capabilities) (a a' : Bool) (h : s.muted = t.muted) :
    (k.cover c a s).muted = (k.cover c a' t).muted := by
  obtain ⟨l, _, v, x, y⟩ := s
  obtain ⟨_, _, _, _, _⟩ := t
  cases h
  cases k <;> rfl

theorem coverAll_muted (stack : List Overlay) (c : Capabilities) (a a' : Bool) (s : Status) :
    (coverAll stack c a s).muted = (coverAll stack c a' s).muted := by
  induction stack using List.reverseRecOn with
  | nil => rfl
  | append_singleton stack k ih =>
    rw [coverAll_append, coverAll_append]
    exact cover_muted k c a a' ih

theorem loudness_cover_le (k : Overlay) (c : Capabilities) (h : s.audio.loudness ≤ t.audio.loudness) :
    (k.cover c false s).audio.loudness ≤ (k.cover c true t).audio.loudness := by
  -- Without the flag an overlay either leaves the audio alone or silences it.
  have streaming : (s.whileStreaming c false).audio.loudness ≤ (t.whileStreaming c true).audio.loudness := by
    unfold Status.whileStreaming
    dsimp only
    split
    · exact h
    · rw [if_neg (by simp)]
      exact Nat.zero_le _
  cases k with
  | naviStreaming => exact streaming
  | videoStreaming => exact streaming
  | speech =>
    change (s.underSpeech c false).audio.loudness ≤ _
    have silent : (s.underSpeech c false).audio = .notAudible := by simp [Status.underSpeech]
    rw [silent]
    exact Nat.zero_le _
  | _ => exact Nat.zero_le _

theorem loudness_coverAll_le (stack : List Overlay) (c : Capabilities) (s : Status) :
    (coverAll stack c false s).audio.loudness ≤ (coverAll stack c true s).audio.loudness := by
  induction stack using List.reverseRecOn with
  | nil => exact le_rfl
  | append_singleton stack k ih =>
    rw [coverAll_append, coverAll_append]
    exact loudness_cover_le k c ih

end Overlay

theorem AppRecord.effective_muted (a a' : Bool) (r : AppRecord) : (r.effective a).muted = (r.effective a').muted :=
  Overlay.coverAll_muted r.overlays r.capabilities a a' r.regular

/-! ### What a turn comes to without the flag -/

/-- The policy with the flag off. -/
def Policy.unflagged (p : Policy) : Policy := { p with attenuates := false }

def Conditions.unflagged (c : Conditions) : Conditions := { c with policy := c.policy.unflagged }

/-- A reply without the number of applications that were told of a change. -/
def Reply.uncounted : Reply → Reply
  | .applied _ => .applied 0
  | r => r

/-- All of the board but what applications were told. -/
def Board.untold (b : Board) : Board := { b with apps := b.apps.map AppRecord.untold }

/-- All of a turn but what it tells. -/
def Turn.untold (t : Turn) : Turn where
  board := t.board.untold
  reply := t.reply.uncounted

namespace AppRecord
variable {r : AppRecord}

theorem informed_untold (a : Bool) (r : AppRecord) : (r.informed a).untold = r.untold := by
  unfold informed
  split <;> rfl

theorem lay_untold (k : Overlay) (r : AppRecord) : (r.lay k).untold = r.untold.lay k := by
  unfold lay
  split
  · next on => exact (if_pos on).symm
  · next off => exact (if_neg off).symm

theorem foldl_lay_untold (ks : List Overlay) (r : AppRecord) :
    (ks.foldl (fun r k => r.lay k) r).untold = ks.foldl (fun r k => r.lay k) r.untold := by
  induction ks generalizing r with
  | nil => rfl
  | cons k ks ih => rw [List.foldl_cons, ih, lay_untold, List.foldl_cons]

end AppRecord

theorem Roster.map_untold {f : AppRecord → AppRecord} (comm : ∀ r, (f r).untold = f r.untold) (apps : Roster) :
    (apps.map f).map AppRecord.untold = (apps.map AppRecord.untold).map f := by
  rw [List.map_map, List.map_map]
  exact List.map_congr_left fun r _ => comm r

namespace Board
variable {b b' : Board} {c : Conditions} {app : AppId} {r : AppRecord} {asked : Status} {id : Option CorrelationId}

theorem untold_untold (b : Board) : b.untold.untold = b.untold := by
  rw [untold, untold, List.map_map]
  rfl

theorem ordered_untold (ordered : b.apps.Ordered) : b.untold.apps.Ordered := ordered.map fun _ => rfl

theorem record?_untold (app : AppId) (b : Board) :
    b.untold.apps.record? app = (b.apps.record? app).map AppRecord.untold :=
  Roster.record?_map (f := AppRecord.untold) (fun _ => rfl) app b.apps

theorem arbitrate_untold (ordered : b.apps.Ordered) (app : AppId) (asked : Status) :
    (b.arbitrate app asked).untold = b.untold.arbitrate app asked := by
  have apps := ordered.arbitrate_map (g := AppRecord.untold) (fun _ => rfl) (fun _ => rfl) (fun _ _ => rfl) app asked
  rw [arbitrate, untold, ← apps]
  rfl

theorem modify_untold {f : AppRecord → AppRecord} (comm : ∀ r, (f r).untold = f r.untold) (app : AppId) (b : Board) :
    (b.modify app f).untold = b.untold.modify app f := by
  have apps : (b.apps.modify app f).map AppRecord.untold = Roster.modify app f (b.apps.map AppRecord.untold) := by
    refine Roster.map_untold (fun r => ?_) b.apps
    by_cases own : r.app = app
    · rw [if_pos own, if_pos (show r.untold.app = app from own), comm]
    · rw [if_neg own, if_neg (show ¬r.untold.app = app from own)]
  rw [untold, modify, apps]
  rfl

theorem enrol_untold (p : Profile) (b : Board) : (b.enrol p).untold = b.untold.enrol p := by
  have apps := Roster.insert_map (g := AppRecord.untold) (fun _ => rfl)
    (b.overlays.foldl (fun r k => r.lay k) { profile := p }) b.apps
  rw [AppRecord.foldl_lay_untold] at apps
  rw [untold, enrol, apps]
  rfl

theorem cover_untold (k : Overlay) (b : Board) : (b.cover k).untold = b.untold.cover k := by
  have apps := Roster.map_untold (AppRecord.lay_untold k) b.apps
  rw [untold, cover, apps]
  rfl

theorem uncover_untold (k : Overlay) (b : Board) : (b.uncover k).untold = b.untold.uncover k := by
  have apps := Roster.map_untold (f := (·.lift k)) (fun _ => rfl) b.apps
  rw [untold, uncover, apps]
  rfl

/-- What waits does not depend on what was told, and neither does what becomes of it. -/
theorem promote_untold (ordered : b.apps.Ordered) : b.promote.untold = b.untold.promote := by
  -- One request after the other, each over a roster that the ones before have left in order.
  have carried : ∀ (as : List Assignment) (b : Board), b.apps.Ordered →
      (as.foldl (fun b x => b.arbitrate x.1 x.2) b).untold = as.foldl (fun b x => b.arbitrate x.1 x.2) b.untold := by
    intro as
    induction as with
    | nil => exact fun _ _ => rfl
    | cons a as ih =>
      intro b ordered
      rw [List.foldl_cons, ih _ (ordered.arbitrate a.1 a.2), arbitrate_untold ordered, List.foldl_cons]
  cases blocked : b.isBlocked with
  | true => rw [promote_of_blocked blocked, promote_of_blocked (show b.untold.isBlocked = true from blocked)]
  | false =>
    have ready : (b.untold.apps.filterMap fun r => r.postponed?.map fun s => (r.app, s)) =
        b.apps.filterMap fun r => r.postponed?.map fun s => (r.app, s) := List.filterMap_map
    have cleared := Roster.map_untold (f := (·.clearPostponed)) (fun _ => rfl) b.apps
    have ordered' : Roster.Ordered (b.apps.map (·.clearPostponed)) := ordered.map fun _ => rfl
    rw [promote, if_neg (by simp [blocked]), carried _ _ ordered', promote,
      if_neg (by simp [show b.untold.isBlocked = false from blocked]), ready, untold, cleared]
    rfl

theorem settle_board_untold (a : Bool) (b : Board) : (b.settle a).board.untold = b.untold := by
  have apps : (b.apps.map (·.informed a)).map AppRecord.untold = b.apps.map AppRecord.untold := by
    rw [List.map_map]
    exact List.map_congr_left fun r _ => r.informed_untold a
  rw [untold, settle, apps]
  rfl

/-- To settle a board is to tell of it. -/
theorem settle_untold (h : b.untold = b') (a a' : Bool) : (b.settle a).untold = (b'.settle a').untold := by
  subst h
  rw [Turn.untold, Turn.untold, settle_board_untold, settle_board_untold, untold_untold]
  rfl

theorem keepSilent_untold (h : b.untold = b') : b.keepSilent.untold = b'.keepSilent.untold := by
  subst h
  change (⟨b.untold, [], _⟩ : Turn) = ⟨b.untold.untold, [], _⟩
  rw [untold_untold]
  rfl

theorem drop_untold (h : b.untold = b') (f : Fault) : (b.drop f).untold = (b'.drop f).untold := by
  subst h
  change (⟨b.untold, [], _⟩ : Turn) = ⟨b.untold.untold, [], _⟩
  rw [untold_untold]
  rfl

/-! ### Calls -/

theorem register_untold (ordered : b.apps.Ordered) (c : Conditions) (p : Profile) (l : Level) :
    (b.register c p l).untold = (b.untold.register c.unflagged p l).untold := by
  have found := record?_untold p.app b
  cases known : b.apps.record? p.app with
  | some r =>
    rw [known] at found
    rw [register_of_taken (by rw [known]; rfl), register_of_taken (by rw [found]; rfl)]
    exact drop_untold rfl _
  | none =>
    rw [known] at found
    cases flaw : (p.capabilities.statusAt l .main).flaw? with
    | some axis =>
      rw [register_of_flaw known flaw, register_of_flaw found flaw]
      exact drop_untold rfl _
    | none =>
      rw [register_of_fresh known flaw, register_of_fresh found flaw]
      refine settle_untold ?_ _ _
      rw [arbitrate_untold (ordered_enrol ordered known), enrol_untold]

theorem unregister_untold (app : AppId) (b : Board) : (b.unregister app).untold = (b.untold.unregister app).untold := by
  have found := record?_untold app b
  cases known : b.apps.record? app with
  | none =>
    rw [known] at found
    rw [unregister, known, unregister, found]
    exact drop_untold rfl _
  | some r =>
    rw [known] at found
    rw [unregister, known, unregister, found]
    refine keepSilent_untold ?_
    have apps : (b.apps.remove app).map AppRecord.untold = Roster.remove app (b.apps.map AppRecord.untold) := by
      rw [Roster.remove, Roster.remove, List.filter_map]
      rfl
    rw [untold, apps]
    rfl

theorem setResuming_untold (app : AppId) (on : Bool) (b : Board) :
    (b.setResuming app on).untold = (b.untold.setResuming app on).untold := by
  have found := record?_untold app b
  cases known : b.apps.record? app with
  | none =>
    rw [known] at found
    rw [setResuming, known, setResuming, found]
    exact drop_untold rfl _
  | some r =>
    rw [known] at found
    rw [setResuming, known, setResuming, found]
    exact keepSilent_untold (modify_untold (f := (·.withResuming on)) (fun _ => rfl) app b)

theorem requestNow_eq_settle (known : b.apps.record? r.app = some r) (c : Conditions) (asked : Status) :
    (b.requestNow c r asked).untold = ((b.arbitrate r.app asked).settle c.policy.attenuates).untold := by
  rw [requestNow_eq known]
  dsimp only
  split <;> rfl

theorem request_untold (ordered : b.apps.Ordered) (c : Conditions) (app : AppId) (asked : Status)
    (id : Option CorrelationId) :
    (b.request c app asked id).untold = (b.untold.request c.unflagged app asked id).untold := by
  have found := record?_untold app b
  cases flaw : asked.flaw? with
  | some axis =>
    rw [request_of_flaw flaw, request_of_flaw flaw]
    exact drop_untold rfl _
  | none =>
    cases known : b.apps.record? app with
    | none =>
      rw [known] at found
      rw [request_of_unknown flaw known, request_of_unknown flaw found]
      exact drop_untold rfl _
    | some r =>
      rw [known] at found
      obtain ⟨-, rfl⟩ := Roster.record?_mem known
      cases waits : b.isBlocked && !r.resuming with
      | true =>
        rw [request_of_waiting flaw known waits, request_of_waiting flaw found waits]
        have board := modify_untold (f := (·.postpone asked)) (fun _ => rfl) r.app b
        change (⟨(b.modify r.app _).untold, [], .postponed⟩ : Turn) = ⟨(b.untold.modify r.app _).untold, [], .postponed⟩
        rw [← board, untold_untold]
      | false =>
        cases id with
        | none =>
          rw [request_at_once flaw known waits, request_at_once flaw found waits, requestNow_eq_settle known,
            requestNow_eq_settle (r := r.untold) found]
          exact settle_untold (arbitrate_untold ordered r.app asked) _ _
        | some number =>
          rw [request_at_hmi flaw known waits, request_at_hmi flaw found waits]
          change (⟨{ b.untold with pending := _ }, [], .awaiting number⟩ : Turn) =
            ⟨{ b.untold.untold with pending := _ }, [], .awaiting number⟩
          rw [untold_untold]
          rfl

theorem requestLevel_untold (ordered : b.apps.Ordered) (c : Conditions) (app : AppId) (l : Level)
    (id : Option CorrelationId) :
    (b.requestLevel c app l id).untold = (b.untold.requestLevel c.unflagged app l id).untold := by
  have found := record?_untold app b
  cases known : b.apps.record? app with
  | none =>
    rw [known] at found
    rw [requestLevel, known, requestLevel, found]
    exact drop_untold rfl _
  | some r =>
    rw [known] at found
    rw [requestLevel, known, requestLevel, found]
    exact request_untold ordered c app _ id

/-- The level presented decides whether an application is sent away, and the flag has no part in it. -/
theorem deactivate_untold (ordered : b.apps.Ordered) (c : Conditions) (app : AppId) :
    (b.deactivate c app).untold = (b.untold.deactivate c.unflagged app).untold := by
  have found := record?_untold app b
  cases known : b.apps.record? app with
  | none =>
    rw [known] at found
    rw [deactivate, known, deactivate, found]
    exact drop_untold rfl _
  | some r =>
    rw [known] at found
    have same := congrArg Status.level (r.effective_muted c.unflagged.policy.attenuates c.policy.attenuates)
    have level : (r.untold.effective c.unflagged.policy.attenuates).level =
        (r.effective c.policy.attenuates).level := same
    rw [deactivate, known, deactivate, found]
    simp only [Option.map_some, level]
    split
    · exact requestLevel_untold ordered c app .background none
    · exact keepSilent_untold rfl

theorem activationAnswered_untold (ordered : b.apps.Ordered) (c : Conditions) (number : CorrelationId)
    (answer : Answer) :
    (b.activationAnswered c number answer).untold = (b.untold.activationAnswered c.unflagged number answer).untold := by
  cases resolved : b.pending.resolution number answer c.now c.timeout with
  | error f =>
    rw [activationAnswered_of_error resolved, activationAnswered_of_error (b := b.untold) (c := c.unflagged) resolved]
    exact drop_untold rfl _
  | ok a =>
    have owned : b.untold.apps.ofHmiApp? a.hmiApp = b.apps.ofHmiApp? a.hmiApp := by
      change Option.map _ (List.find? _ (b.apps.map AppRecord.untold)) = _
      rw [List.find?_map, Option.map_map]
      rfl
    cases owner : b.apps.ofHmiApp? a.hmiApp with
    | none =>
      rw [activationAnswered_of_unknown resolved owner,
        activationAnswered_of_unknown (b := b.untold) (c := c.unflagged) resolved (owned.trans owner)]
      exact drop_untold rfl _
    | some app =>
      rw [activationAnswered_of_ok resolved owner,
        activationAnswered_of_ok (b := b.untold) (c := c.unflagged) resolved (owned.trans owner)]
      exact settle_untold (arbitrate_untold (b := b.forget number) ordered app a.target) _ _

theorem stopOverlay_untold (ordered : b.apps.Ordered) (c : Conditions) (k : Overlay) :
    (b.stopOverlay c k).untold = (b.untold.stopOverlay c.unflagged k).untold := by
  rw [stopOverlay_eq, stopOverlay_eq]
  refine settle_untold ?_ _ _
  rw [promote_untold (ordered_uncover ordered k), uncover_untold]

theorem startStreaming_untold (c : Conditions) (app : AppId) (b : Board) :
    (b.startStreaming c app).untold = (b.untold.startStreaming c.unflagged app).untold := by
  have found := record?_untold app b
  cases known : b.apps.record? app with
  | none =>
    rw [known] at found
    rw [startStreaming, known, startStreaming, found]
    exact drop_untold rfl _
  | some r =>
    rw [known] at found
    rw [startStreaming, known, startStreaming, found]
    exact settle_untold (modify_untold (AppRecord.lay_untold _) app b) _ _

theorem stopStreaming_untold (ordered : b.apps.Ordered) (c : Conditions) (app : AppId) :
    (b.stopStreaming c app).untold = (b.untold.stopStreaming c.unflagged app).untold := by
  have found := record?_untold app b
  cases known : b.apps.record? app with
  | none =>
    rw [known] at found
    rw [stopStreaming, known, stopStreaming, found]
    exact drop_untold rfl _
  | some r =>
    rw [known] at found
    rw [stopStreaming, known, stopStreaming, found]
    dsimp only [Option.map_some]
    rw [conclude_tryPromote, conclude_tryPromote]
    refine settle_untold ?_ _ _
    rw [promote_untold (ordered_modify ordered (AppRecord.lift_app _)),
      modify_untold (f := (·.lift r.capabilities.streamingOverlay)) fun _ => rfl]
    rfl

theorem handle_untold (ordered : b.apps.Ordered) (c : Conditions) (id : Option CorrelationId) (e : Event) :
    (b.handle c id e).untold = (b.untold.handle c.unflagged id e).untold := by
  have start : ∀ k, (b.startOverlay c k).untold = (b.untold.startOverlay c.unflagged k).untold := fun k =>
    settle_untold (cover_untold k b) _ _
  cases e with
  | voiceStarted => exact start _
  | voiceStopped => exact stopOverlay_untold ordered c _
  | speechStarted => exact start _
  | speechStopped => exact stopOverlay_untold ordered c _
  | signalled signal active =>
    simp only [handle]
    split
    · exact keepSilent_untold rfl
    · split
      · exact start _
      · exact stopOverlay_untold ordered c _
  | streamingStarted app => exact startStreaming_untold c app b
  | streamingStopped app => exact stopStreaming_untold ordered c app
  | appActivated app => exact requestLevel_untold ordered c app .full id
  | appDeactivated app => exact deactivate_untold ordered c app
  | activationAnswered number answer => exact activationAnswered_untold ordered c number answer

/-- What a turn comes to, but for what it tells, can be found without the flag and without what was told before. -/
theorem perform_untold (ordered : b.apps.Ordered) (c : Conditions) (id : Option CorrelationId) (call : Call) :
    (b.perform c id call).untold = (b.untold.perform c.unflagged id call).untold := by
  cases call with
  | register p l => exact register_untold ordered c p l
  | registerDefault p => exact register_untold ordered c p c.policy.entryLevel
  | unregister app => exact unregister_untold app b
  | setResuming app on => exact setResuming_untold app on b
  | request app asked activates => exact request_untold ordered c app asked id
  | requestAxes app l a v x => exact request_untold ordered c app ⟨l, a, v, x, .regular⟩ id
  | requestLevel app l => exact requestLevel_untold ordered c app l id
  | event e => exact handle_untold ordered c id e

end Board

/-! ### Sessions -/

def Settings.unflagged (s : Settings) : Settings := { s with attenuates := false }

/-- What a host answers with, the flag apart: the level at which applications start, the time, whether requests
    can be sent, and the numbers to come. -/
def Host.unflagged (h : Host) : Host where
  policy? := h.policy?.map Policy.unflagged
  now := h.now
  accepts := h.accepts
  nextId := h.nextId
  queuedIds := h.queuedIds

/-- The command with the flag off, if it sets the flag. -/
def Command.unflagged : Command → Command
  | .setPolicy p => .setPolicy p.unflagged
  | c => c

/-- A command that only looks at something. -/
def Command.OnlyLooks : Command → Prop
  | .isActive _ | .query _ | .recall _ | .settings | .dump | .mark _ => True
  | _ => False

theorem Command.OnlyLooks.isAside {c : Command} (h : c.OnlyLooks) : c.IsAside := by
  cases c <;> first | exact trivial | cases h

theorem Host.drawId_unflagged (h : Host) :
    h.unflagged.drawId.1 = h.drawId.1 ∧ h.unflagged.drawId.2.unflagged = h.drawId.2.unflagged := by
  obtain ⟨policy, _, _, _, queued, _, _, _⟩ := h
  cases queued <;> cases policy <;> exact ⟨rfl, rfl⟩

/-- The board once the notices of a turn were sent on: an activation that could not be asked for is forgotten. -/
def Turn.boardSent (accepts : Bool) (t : Turn) : Board :=
  match t.reply with
  | .awaiting id => if accepts = true then t.board else t.board.forget id
  | _ => t.board

theorem Turn.boardSent_untold {t t' : Turn} (same : t.untold = t'.untold) (accepts : Bool) :
    (t.boardSent accepts).untold = (t'.boardSent accepts).untold := by
  obtain ⟨board, -, reply⟩ := Turn.mk.inj same
  have forgotten : ∀ id, (t.board.forget id).untold = (t'.board.forget id).untold := fun id =>
    congrArg (Board.forget id) board
  unfold boardSent
  cases hr : t.reply <;> cases hr' : t'.reply <;> rw [hr, hr'] at reply <;> cases reply <;>
    first | exact board | (dsimp only; split <;> first | exact board | exact forgotten _)

/-- What the head unit answers to a call or a sweep, but for how many applications were told of a change. -/
def Exchange.outcome? (x : Exchange) : Option Response :=
  match x.command, x.response with
  | .call _, .reply r => some (.reply r.uncounted)
  | .expire, r => some r
  | _, _ => none

namespace Session
variable {s t : Session}

/-- The session without the flag, and without what applications and host were told. -/
def unflagged (s : Session) : Session where
  settings := s.settings.unflagged
  board := s.board.untold
  host := s.host.unflagged

/-- Between two commands, in the hands of a host that only looks. -/
structure Watched (s : Session) : Prop where
  ordered : s.board.apps.Ordered
  rest : s.outbox = {}
  looks : Reacts Command.OnlyLooks s.host.reactions

theorem Step.host_unflagged (hs : Step Command.OnlyLooks s t) : t.host.unflagged = s.host.unflagged := by
  cases hs with
  | enter c looks s => cases c <;> first | rfl | cases looks
  | _ => rfl

theorem Steps.host_unflagged (steps : Steps Command.OnlyLooks s t) : t.host.unflagged = s.host.unflagged := by
  induction steps with
  | refl => rfl
  | tail _ hs ih => exact hs.host_unflagged.trans ih

theorem run_call_board_eq (rest : s.outbox = {}) (aside : Reacts Command.IsAside s.host.reactions) (call : Call) :
    (s.run (.call call)).1.board = (s.turn call).boardSent s.host.accepts := by
  have replied := turn_replied call s
  unfold Turn.boardSent
  split
  · next id awaits =>
    obtain ⟨r, asked, -, -, turn⟩ := replied.of_awaiting awaits
    rw [run_call_board_of_activate rest aside (congrArg Turn.notices turn)]
  · next other =>
    exact run_call_board_of_asksNothing rest aside (replied.asksNothing other)

/-- What a command leaves behind, deliveries included. -/
theorem run_board (rest : s.outbox = {}) (aside : Reacts Command.IsAside s.host.reactions) (c : Command) :
    (s.run c).1.board = match c with
      | .call call => (s.turn call).boardSent s.host.accepts
      | .expire => (s.board.expire s.host.now s.settings.timeout).2
      | _ => s.board := by
  by_cases idle : c.IsAside
  · obtain ⟨board, outbox, -⟩ := enter_aside idle s.opened
    rw [run_board_of_rest rest outbox, board]
    cases c <;> first | rfl | cases idle
  · cases c with
    | call call => exact run_call_board_eq rest aside call
    | expire => exact run_board_of_rest rest rfl
    | _ => exact absurd trivial idle

theorem conditions_unflagged (s : Session) : s.unflagged.conditions = s.conditions.unflagged := by
  obtain ⟨settings, board, outbox, host⟩ := s
  obtain ⟨policy, _, _, _, _, _, _, _⟩ := host
  cases policy <;> rfl

theorem turn_untold (ordered : s.board.apps.Ordered) (call : Call) :
    (s.turn call).untold = (s.unflagged.turn call).untold := by
  have drawn : s.unflagged.drawn? call = s.drawn? call := by
    unfold drawn?
    split
    · exact congrArg some s.host.drawId_unflagged.1
    · rfl
  rw [turn, turn, Board.perform_untold ordered, drawn, conditions_unflagged]
  rfl

theorem enter_host_unflagged (c : Command) (s : Session) :
    (s.enter c).1.host.unflagged = (s.unflagged.enter c.unflagged).1.host.unflagged := by
  obtain ⟨settings, board, outbox, host⟩ := s
  obtain ⟨policy, _, _, _, _, _, _, _⟩ := host
  cases c with
  | call call =>
    simp only [enter, enterCall, Command.unflagged]
    split
    · exact (Host.drawId_unflagged _).2.symm
    · cases policy <;> rfl
  | _ => cases policy <;> rfl

namespace Watched

theorem aside (h : s.Watched) : Reacts Command.IsAside s.host.reactions := fun r hr c hc => (h.looks r hr c hc).isAside

theorem unflagged (h : s.Watched) : s.unflagged.Watched where
  ordered := Board.ordered_untold h.ordered
  rest := rfl
  looks := fun _ hr => by cases hr

theorem run (h : s.Watched) (c : Command) : (s.run c).1.Watched where
  ordered := by
    rw [run_board h.rest h.aside]
    cases c with
    | call call =>
      have apps : ((s.turn call).boardSent s.host.accepts).apps = (s.turn call).board.apps := by
        unfold Turn.boardSent
        split
        · split <;> rfl
        · rfl
      dsimp only
      rw [apps]
      exact (Board.perform_effect _ _ call _).ordered h.ordered
    | _ => exact h.ordered
  rest := run_outbox (by rw [h.rest]) c
  looks := h.looks.run c

/-- Where a command leads is the same with the flag as without it. -/
theorem run_unflagged (h : s.Watched) (c : Command) :
    (s.run c).1.unflagged = (s.unflagged.run c.unflagged).1.unflagged := by
  have board : (s.run c).1.board.untold = (s.unflagged.run c.unflagged).1.board.untold := by
    rw [run_board h.rest h.aside, run_board h.unflagged.rest h.unflagged.aside]
    cases c with
    | call call => exact Turn.boardSent_untold (turn_untold h.ordered call) s.host.accepts
    | expire => exact congrArg (Board.keepPending _) (Board.untold_untold s.board).symm
    | _ => exact (Board.untold_untold s.board).symm
  -- The two deliver different notices, but no delivery changes what the host answers with.
  have host : (s.run c).1.host.unflagged = (s.unflagged.run c.unflagged).1.host.unflagged := by
    have left := (flush_steps (h.looks.enter c)).1.host_unflagged
    have right := (flush_steps (h.unflagged.looks.enter c.unflagged)).1.host_unflagged
    exact left.trans ((enter_host_unflagged c s.opened).trans right.symm)
  have settings : (s.run c).1.settings.unflagged = (s.unflagged.run c.unflagged).1.settings.unflagged := by
    rw [run_settings, run_settings]
    rfl
  exact (Session.mk.injEq ..).mpr ⟨settings, board, rfl, host⟩

theorem outcome_unflagged (h : s.Watched) (c : Command) :
    Exchange.outcome? ⟨s, c⟩ = Exchange.outcome? ⟨s.unflagged, c.unflagged⟩ := by
  cases c with
  | call call =>
    have reply : (s.turn call).reply.uncounted = (s.unflagged.turn call).reply.uncounted :=
      congrArg Turn.reply (turn_untold h.ordered call)
    unfold Exchange.outcome?
    simp only [Command.unflagged, response_call, reply]
  | _ => rfl

end Watched

/-! ### Two runs -/

/-- Sessions that differ in no more than how loud the applications are, and in what they were told of it. -/
structure AlikeButLoud (s t : Session) : Prop where
  apps : s.board.apps.map AppRecord.untold = t.board.apps.map AppRecord.untold
  overlays : s.board.overlays = t.board.overlays
  pending : s.board.pending = t.board.pending
  shown : ∀ app, (s.view app).current?.map Status.muted = (t.view app).current?.map Status.muted
  /-- No application is quieter with the flag than without. -/
  louder : ∀ r ∈ s.board.apps, (r.effective false).audio.loudness ≤ (r.effective true).audio.loudness
  /-- So none is heard better in the run that is without. -/
  heard : s.policy.attenuates = false → t.policy.attenuates = true →
    ∀ app, ∀ u ∈ (s.view app).current?, ∀ v ∈ (t.view app).current?, u.audio.loudness ≤ v.audio.loudness

theorem current?_eq_untold (app : AppId) (s : Session) : (s.view app).current? =
    (Roster.record? app (s.board.apps.map AppRecord.untold)).map (·.effective s.policy.attenuates) := by
  rw [view_current?, Roster.record?_map (f := AppRecord.untold) fun _ => rfl, Option.map_map]
  rfl

theorem AlikeButLoud.of_unflagged (same : s.unflagged = t.unflagged) : AlikeButLoud s t := by
  have apps : s.board.apps.map AppRecord.untold = t.board.apps.map AppRecord.untold :=
    congrArg (·.board.apps) same
  refine ⟨apps, congrArg (·.board.overlays) same, congrArg (·.board.pending) same, fun app => ?_,
    fun r _ => Overlay.loudness_coverAll_le r.overlays r.capabilities r.regular, fun off on app u hu v hv => ?_⟩
  · rw [current?_eq_untold, current?_eq_untold, apps, Option.map_map, Option.map_map]
    exact congrArg (Option.map · _) (funext fun r => r.effective_muted _ _)
  · rw [current?_eq_untold, off, apps] at hu
    rw [current?_eq_untold, on] at hv
    obtain ⟨r, known, rfl⟩ := Option.map_eq_some_iff.mp hu
    rw [known] at hv
    cases hv
    exact Overlay.loudness_coverAll_le r.overlays r.capabilities r.regular

/-- Commands that differ in the flag at most keep two sessions alike, command by command. -/
theorem Watched.runAll_alike {cs ds : List Command} (left : s.Watched) (right : t.Watched)
    (same : s.unflagged = t.unflagged) (commands : cs.map Command.unflagged = ds.map Command.unflagged) :
    List.Forall₂ (fun x y => AlikeButLoud x.before y.before ∧ x.outcome? = y.outcome?) (exchanges cs s)
        (exchanges ds t) ∧ AlikeButLoud (runAll cs s).1 (runAll ds t).1 := by
  rw [runAll_fst, runAll_fst]
  -- From the front. What the two runs keep is that without the flag they are one session.
  induction cs generalizing ds s t with
  | nil =>
    obtain rfl : ds = [] := List.map_eq_nil_iff.mp commands.symm
    exact ⟨.nil, .of_unflagged same⟩
  | cons c cs ih =>
    obtain ⟨d, ds, rfl, command, commands⟩ := List.map_eq_cons_iff.mp commands.symm
    have next : (s.run c).1.unflagged = (t.run d).1.unflagged := by
      rw [left.run_unflagged, right.run_unflagged, same, command]
    have outcome : Exchange.outcome? ⟨s, c⟩ = Exchange.outcome? ⟨t, d⟩ := by
      rw [left.outcome_unflagged, right.outcome_unflagged, same, command]
    obtain ⟨exchanged, final⟩ := ih (left.run c) (right.run d) next commands.symm
    exact ⟨.cons ⟨.of_unflagged same, outcome⟩ exchanged, final⟩

/-- Two runs over the same commands, but for the flag, which may be set and change in either as it likes: before
    every command and at the end they differ in nothing but how loud the applications are and what they were told
    of it, and the outcomes differ in nothing but the number of those that were told. With the flag no application
    is quieter than without. -/
theorem loudness_only {settings settings' : Settings} {host host' : Host} {cs ds : List Command}
    (settingsSame : settings.unflagged = settings'.unflagged) (hostSame : host.unflagged = host'.unflagged)
    (looks : Reacts Command.OnlyLooks host.reactions) (looks' : Reacts Command.OnlyLooks host'.reactions)
    (same : cs.map Command.unflagged = ds.map Command.unflagged) :
    List.Forall₂ (fun x y => AlikeButLoud x.before y.before ∧ x.outcome? = y.outcome?)
        (exchanges cs { settings, host }) (exchanges ds { settings := settings', host := host' }) ∧
      AlikeButLoud (runAll cs { settings, host }).1 (runAll ds { settings := settings', host := host' }).1 := by
  have left : Watched { settings, host } := ⟨List.Pairwise.nil, rfl, looks⟩
  have right : Watched { settings := settings', host := host' } := ⟨List.Pairwise.nil, rfl, looks'⟩
  refine left.runAll_alike right ?_ same
  exact (Session.mk.injEq ..).mpr ⟨settingsSame, rfl, rfl, hostSame⟩

/-- In one run the flag comes on in the middle of the speech, in the other it never does: the one application is
    heard again, the other run tells nobody anything. -/
theorem loudness_only_flag_during_speech :
    let cs (attenuates : Bool) : List Command :=
      [.call (.register ⟨⟨1⟩, ⟨11⟩, { media := true }⟩ .limited), .call (.event .speechStarted),
        .setPolicy { attenuates }, .call (.register ⟨⟨2⟩, ⟨12⟩, {}⟩ .background)]
    let host : Host := { policy? := some {} }
    let on := exchanges (cs true) { host }
    let off := exchanges (cs false) { host }
    (on.map Exchange.response).getLast? = some (.reply (.applied 2)) ∧
      (off.map Exchange.response).getLast? = some (.reply (.applied 1)) ∧
      ((runAll (cs true) { host }).1.view ⟨1⟩).current?.map Status.audio = some .attenuated ∧
      ((runAll (cs false) { host }).1.view ⟨1⟩).current?.map Status.audio = some .notAudible ∧
      List.Forall₂ (fun x y => AlikeButLoud x.before y.before ∧ x.outcome? = y.outcome?) on off ∧
      AlikeButLoud (runAll (cs true) { host }).1 (runAll (cs false) { host }).1 := by
  intro cs host on off
  have looks : Reacts Command.OnlyLooks host.reactions := .of_eq_nil rfl
  have settings : Settings.unflagged {} = Settings.unflagged {} := rfl
  have same : (cs true).map Command.unflagged = (cs false).map Command.unflagged := rfl
  obtain ⟨throughout, final⟩ := loudness_only settings rfl looks looks same
  exact ⟨by cbv, by cbv, by cbv, by cbv, throughout, final⟩

end Session

end HeadUnit
