import HeadUnit.Proofs.Exclusive
import HeadUnit.Proofs.Overtaking
import HeadUnit.Proofs.Repetition

/-! When the audio source goes back to an application. Of all that a turn can tell, this is told on one way only:
    a request for `LIMITED` that is carried out at once, for an application with audio inside its resumption
    window. It comes last, when all others have been told what the request took from them. -/

namespace HeadUnit

/-- The audio source is to go back to the application: the call asks for `LIMITED` for it and is carried out,
    and the application has audio and is inside its resumption window. -/
structure Board.GivesBack (b : Board) (call : Call) (reply : Reply) (app : AppId) : Prop where
  requests : call.requests? = some app
  limited : ∃ asked, call.wish? b.apps = some (app, asked) ∧ asked.level = .limited
  resuming : ∃ r, b.apps.record? app = some r ∧ r.resuming = true ∧ r.capabilities.isAudio = true
  applied : ∃ n, reply = .applied n

namespace Board
variable {b : Board} {c : Conditions} {id : Option CorrelationId} {call : Call} {app x : AppId} {asked : Status}
  {r : AppRecord}

theorem resume_notMem_settle (a : Bool) (b : Board) (x : AppId) : .resume x ∉ (b.settle a).notices := by
  intro told
  obtain ⟨r, -, owed⟩ := List.mem_flatMap.mp told
  cases (Notice.isNews_of_mem_ofChange owed).1

theorem resume_mem_requestNow_iff (known : b.apps.record? r.app = some r) :
    .resume x ∈ (b.requestNow c r asked).notices ↔
      x = r.app ∧ asked.level = .limited ∧ r.resuming = true ∧ r.capabilities.isAudio = true := by
  rw [requestNow_eq known]
  dsimp only
  split
  · next due =>
    simp only [Bool.and_eq_true, decide_eq_true_eq] at due
    simp [resume_notMem_settle, due]
  · next undue =>
    simp only [Bool.and_eq_true, decide_eq_true_eq] at undue
    refine iff_of_false (resume_notMem_settle _ _ x) fun ⟨_, limited, resuming, audio⟩ => undue ?_
    exact ⟨⟨resuming, audio⟩, limited⟩

theorem resume_mem_iff_of_silent {t : Turn} {due : Prop} (silent : t.notices = [])
    (unapplied : ∀ n, t.reply ≠ .applied n) :
    .resume x ∈ t.notices ↔ (∃ n, t.reply = .applied n) ∧ due := by
  refine iff_of_false ?_ ?_
  · rw [silent]
    exact List.not_mem_nil
  · rintro ⟨⟨n, applied⟩, -⟩
    exact unapplied n applied

theorem resume_mem_request_iff : .resume x ∈ (b.request c app asked id).notices ↔
    (∃ n, (b.request c app asked id).reply = .applied n) ∧ id = none ∧ x = app ∧ asked.level = .limited ∧
      ∃ r, b.apps.record? app = some r ∧ r.resuming = true ∧ r.capabilities.isAudio = true := by
  cases flaw : asked.flaw? with
  | some axis =>
    rw [request_of_flaw flaw]
    exact resume_mem_iff_of_silent rfl nofun
  | none =>
    cases known : b.apps.record? app with
    | none =>
      rw [request_of_unknown flaw known]
      exact resume_mem_iff_of_silent rfl nofun
    | some r =>
      obtain ⟨-, rfl⟩ := Roster.record?_mem known
      cases waits : b.isBlocked && !r.resuming with
      | true =>
        rw [request_of_waiting flaw known waits]
        exact resume_mem_iff_of_silent rfl nofun
      | false =>
        cases id with
        | none =>
          rw [request_at_once flaw known waits, resume_mem_requestNow_iff known]
          have applied : ∃ n, (b.requestNow c r asked).reply = .applied n := by
            rw [requestNow_eq known]
            dsimp only
            split <;> exact ⟨_, rfl⟩
          simp [applied]
        | some number =>
          -- What goes to the HMI is not applied either, but it is told.
          rw [request_at_hmi flaw known waits]
          refine iff_of_false (fun told => ?_) ?_
          · cases List.mem_singleton.mp told
          · rintro ⟨-, undrawn, -⟩
            cases undrawn

theorem resume_mem_requestLevel_iff {l : Level} : .resume x ∈ (b.requestLevel c app l id).notices ↔
    (∃ n, (b.requestLevel c app l id).reply = .applied n) ∧ id = none ∧ x = app ∧ l = .limited ∧
      ∃ r, b.apps.record? app = some r ∧ r.resuming = true ∧ r.capabilities.isAudio = true := by
  unfold requestLevel
  split
  · exact resume_mem_iff_of_silent rfl nofun
  · exact resume_mem_request_iff

/-- No event gives the audio source back, also where it asks for a level or carries out what was put off. -/
theorem resume_notMem_handle (e : Event) : .resume x ∉ (b.handle c id e).notices := by
  -- An application is brought to the front at `FULL` and sent away from it to `BACKGROUND`.
  have level : ∀ {app l id}, l ≠ .limited → .resume x ∉ (b.requestLevel c app l id).notices := by
    intro app l id other told
    obtain ⟨-, -, -, limited, -⟩ := resume_mem_requestLevel_iff.mp told
    exact other limited
  have stop : ∀ k, .resume x ∉ (b.stopOverlay c k).notices := fun k => by
    rw [stopOverlay_eq]
    exact resume_notMem_settle _ _ x
  cases e with
  | voiceStarted => exact resume_notMem_settle _ _ x
  | voiceStopped => exact stop _
  | speechStarted => exact resume_notMem_settle _ _ x
  | speechStopped => exact stop _
  | signalled signal active =>
    simp only [handle]
    split
    · exact List.not_mem_nil
    · split
      · exact resume_notMem_settle _ _ x
      · exact stop _
  | streamingStarted app =>
    simp only [handle, startStreaming]
    split
    · exact List.not_mem_nil
    · exact resume_notMem_settle _ _ x
  | streamingStopped app =>
    simp only [handle, stopStreaming]
    split
    · exact List.not_mem_nil
    · rw [conclude_tryPromote]
      exact resume_notMem_settle _ _ x
  | appActivated app => exact level (by decide)
  | appDeactivated app =>
    simp only [handle, deactivate]
    split
    · exact List.not_mem_nil
    · split
      · exact level (by decide)
      · exact List.not_mem_nil
  | activationAnswered number answer =>
    simp only [handle]
    cases resolved : b.pending.resolution number answer c.now c.timeout with
    | error f =>
      rw [activationAnswered_of_error resolved]
      exact List.not_mem_nil
    | ok a =>
      cases owner : b.apps.ofHmiApp? a.hmiApp with
      | none =>
        rw [activationAnswered_of_unknown resolved owner]
        exact List.not_mem_nil
      | some app =>
        rw [activationAnswered_of_ok resolved owner]
        exact resume_notMem_settle _ _ x

theorem resume_notMem_register (p : Profile) (l : Level) : .resume x ∉ (b.register c p l).notices := by
  rcases register_effect c p l b with ⟨f, -, turn⟩ | ⟨n, -, effect⟩
  · rw [turn]
    exact List.not_mem_nil
  · generalize b.register c p l = t at effect
    cases effect with
    | registered => exact resume_notMem_settle _ _ x

/-- A turn gives the audio source back exactly if it is due, and if no number was drawn. -/
theorem resume_mem_perform_iff : .resume x ∈ (b.perform c id call).notices ↔
    id = none ∧ b.GivesBack call (b.perform c id call).reply x := by
  have never : ∀ {t : Turn}, call.requests? = none → .resume x ∉ t.notices →
      (.resume x ∈ t.notices ↔ id = none ∧ b.GivesBack call t.reply x) := by
    intro t requestsNot untold
    refine iff_of_false untold ?_
    rintro ⟨-, due⟩
    rw [due.requests] at requestsNot
    cases requestsNot
  have requests : ∀ {app asked}, call.requests? = some app → call.wish? b.apps = some (app, asked) →
      (.resume x ∈ (b.request c app asked id).notices ↔
        id = none ∧ b.GivesBack call (b.request c app asked id).reply x) := by
    intro app asked requested wish
    rw [resume_mem_request_iff]
    constructor
    · rintro ⟨applied, undrawn, rfl, limited, resuming⟩
      exact ⟨undrawn, requested, ⟨asked, wish, limited⟩, resuming, applied⟩
    · rintro ⟨undrawn, requested', ⟨asked', wish', limited⟩, resuming, applied⟩
      obtain rfl : app = x := Option.some.inj (requested.symm.trans requested')
      obtain rfl : asked = asked' := (Prod.mk.inj (Option.some.inj (wish.symm.trans wish'))).2
      exact ⟨applied, undrawn, rfl, limited, resuming⟩
  cases call with
  | register p l => exact never rfl (resume_notMem_register p l)
  | registerDefault p => exact never rfl (resume_notMem_register p _)
  | unregister app =>
    refine never rfl ?_
    simp only [perform, unregister]
    split <;> exact List.not_mem_nil
  | setResuming app on =>
    refine never rfl ?_
    simp only [perform, setResuming]
    split <;> exact List.not_mem_nil
  | request app asked activates => exact requests rfl rfl
  | requestAxes app l a v cx => exact requests rfl rfl
  | requestLevel app l =>
    cases known : b.apps.record? app with
    | none =>
      have dropped : b.perform c id (.requestLevel app l) = b.drop (.unknownApp app) := by
        simp only [perform, requestLevel, known]
      rw [dropped]
      refine iff_of_false List.not_mem_nil ?_
      rintro ⟨-, due⟩
      obtain ⟨n, applied⟩ := due.applied
      cases applied
    | some r =>
      have carried : b.perform c id (.requestLevel app l) =
          b.request c app (r.capabilities.statusAt l r.regular.context) id := by
        simp only [perform, requestLevel, known]
      rw [carried]
      exact requests rfl (by simp [Call.wish?, Call.wish?.atLevel?, known])
  | event e => exact never (by cases e <;> rfl) (resume_notMem_handle e)

theorem notices_requestNow (known : b.apps.record? r.app = some r) (limited : asked.level = .limited)
    (resuming : r.resuming = true) (audio : r.capabilities.isAudio = true) :
    (b.requestNow c r asked).notices =
      ((b.arbitrate r.app asked).settle c.policy.attenuates).notices ++ [.resume r.app] := by
  rw [requestNow_eq known]
  simp [limited, resuming, audio]

/-- A turn that gives the audio source back does so last, and leaves the application at `LIMITED`. -/
theorem perform_of_resume (ordered : b.apps.Ordered) (told : .resume x ∈ (b.perform c id call).notices) :
    (∃ news, (b.perform c id call).notices = news ++ [.resume x] ∧ ∀ n ∈ news, n.isNews = true) ∧
      ∃ r, (b.perform c id call).board.apps.record? x = some r ∧ r.regular.level = .limited ∧
        r.capabilities.isAudio = true := by
  obtain ⟨-, due⟩ := resume_mem_perform_iff.mp told
  obtain ⟨n, applied⟩ := due.applied
  obtain ⟨r, asked, known, -, turn⟩ := requestNow_of_perform due.requests applied
  obtain ⟨-, rfl⟩ := Roster.record?_mem known
  rw [turn] at told ⊢
  obtain ⟨-, limited, resuming, audio⟩ := (resume_mem_requestNow_iff known).mp told
  obtain ⟨r', known', profile, regular⟩ := record?_requestNow ordered known c asked
  refine ⟨⟨_, notices_requestNow known limited resuming audio, fun n hn => ?_⟩, r', known', ?_, ?_⟩
  · obtain ⟨q, -, owed⟩ := List.mem_flatMap.mp hn
    exact (Notice.isNews_of_mem_ofChange owed).1
  · rw [regular]
    exact limited
  · rw [AppRecord.capabilities, profile]
    exact audio

end Board

/-! ### Sessions -/

namespace Session
variable {s : Session}

/-- With a host that gives no command from inside the deliveries: a command gives the audio source back to an
    application exactly if it is a request for `LIMITED` that needs no consent of the HMI and is applied, and the
    application has audio and is inside its resumption window. Then this is told once, after all news, and the
    application is at `LIMITED`, where no other with audio in its class is in the foreground. So no call does it
    that is not a request. -/
theorem Reachable.gives_back_iff (h : s.Reachable) (rest : s.outbox = {})
    (aside : Reacts Command.IsAside s.host.reactions) (c : Command) (app : AppId) :
    let t := (s.run c).1
    let told := Log.delivered t.host.log
    (.resume app ∈ told ↔ ∃ call reply, c = .call call ∧ call.drawsId = false ∧ (s.run c).2 = .reply reply ∧
        s.board.GivesBack call reply app) ∧
      (.resume app ∈ told →
        (∃ news, told = news ++ [.resume app] ∧ ∀ n ∈ news, n.isNews = true) ∧
          ∃ r, t.board.apps.record? app = some r ∧ r.regular.level = .limited ∧
            ∀ other ∈ t.board.apps, other.app ≠ app → other.capabilities.isAudio = true →
              r.capabilities.sharesClass other.capabilities = true → other.regular.level.isForeground = false) ∧
      ∀ call, c = .call call → call.requests? = none → .resume app ∉ told := by
  intro t told
  by_cases given : ∃ call, c = .call call
  · obtain ⟨call, rfl⟩ := given
    have notices : told = (s.turn call).notices := delivered_run_call rest aside call
    have iff : .resume app ∈ told ↔ call.drawsId = false ∧ s.board.GivesBack call (s.turn call).reply app := by
      rw [notices, turn, Board.resume_mem_perform_iff]
      exact and_congr_left fun _ => by simp [drawn?]
    refine ⟨iff.trans ⟨fun due => ?_, ?_⟩, fun back => ?_, ?_⟩
    · exact ⟨call, _, rfl, due.1, run_call_reply call s, due.2⟩
    · rintro ⟨call', reply, same, undrawn, replied, due⟩
      cases same
      rw [run_call_reply] at replied
      cases replied
      exact ⟨undrawn, due⟩
    · have apps : t.board.apps = (s.turn call).board.apps := (After.delivered aside).apps
      rw [notices] at back ⊢
      obtain ⟨last, r, known, limited, audio⟩ := Board.perform_of_resume h.board.ordered back
      refine ⟨last, r, apps ▸ known, limited, fun other hother ne _ shares => ?_⟩
      obtain ⟨hr, rfl⟩ := Roster.record?_mem known
      have apart := (h.run (.call call)).board.exclusive r (apps ▸ hr) other hother (Ne.symm ne)
      have foreground : r.regular.level.isForeground = true := by rw [limited]; rfl
      by_contra taken
      exact apart.audio shares audio ⟨foreground, by simpa using taken⟩
    · rintro call' same requestsNot back
      cases same
      rw [(iff.mp back).2.requests] at requestsNot
      cases requestsNot
  · have silent : told = [] := delivered_of_uncalled rest fun call same => given ⟨call, same⟩
    have untold : .resume app ∉ told := by
      rw [silent]
      exact List.not_mem_nil
    refine ⟨iff_of_false untold ?_, fun back => absurd back untold, fun _ _ _ => untold⟩
    rintro ⟨call, -, same, -⟩
    exact given ⟨call, same⟩

/-- In a voice session an application resumes at `LIMITED` and takes the audio from another of its class, which
    is told first. Its request for the display asks the HMI, and gives nothing back. -/
theorem Reachable.gives_back_in_voice_session :
    let s := [Command.call (.register ⟨⟨1⟩, ⟨11⟩, { media := true }⟩ .background),
      .call (.register ⟨⟨2⟩, ⟨12⟩, { media := true, navigation := true }⟩ .full), .call (.setResuming ⟨1⟩ true),
      .call (.event .voiceStarted)].foldl (fun s c => (s.run c).1) ({} : Session)
    let told (l : Level) := Log.delivered (s.run (.call (.requestLevel ⟨1⟩ l))).1.host.log
    let silent : Status := ⟨.limited, .notAudible, .notStreamable, .main, .overlay .voiceSession⟩
    told .limited = [.status ⟨1⟩ silent, .level ⟨1⟩ .background .limited,
        .status ⟨2⟩ ⟨.background, .notAudible, .notStreamable, .main, .overlay .voiceSession⟩,
        .level ⟨2⟩ .full .background, .resume ⟨1⟩] ∧
      (∃ news, told .limited = news ++ [.resume ⟨1⟩] ∧ ∀ n ∈ news, n.isNews = true) ∧
      .resume ⟨1⟩ ∉ told .full := by
  intro s told silent
  have rest : s.outbox = {} := by cbv
  have aside : Reacts Command.IsAside s.host.reactions := .of_eq_nil (by cbv)
  have reachable : s.Reachable := (Session.Reachable.fresh {} {}).runs _
  have delivered : told .limited = [.status ⟨1⟩ silent, .level ⟨1⟩ .background .limited,
      .status ⟨2⟩ ⟨.background, .notAudible, .notStreamable, .main, .overlay .voiceSession⟩,
      .level ⟨2⟩ .full .background, .resume ⟨1⟩] := by
    subst told s
    cbv
  obtain ⟨-, last, -⟩ := reachable.gives_back_iff rest aside (.call (.requestLevel ⟨1⟩ .limited)) ⟨1⟩
  obtain ⟨iff, -, -⟩ := reachable.gives_back_iff rest aside (.call (.requestLevel ⟨1⟩ .full)) ⟨1⟩
  refine ⟨delivered, (last ?_).1, fun back => ?_⟩
  · change .resume ⟨1⟩ ∈ told .limited
    simp [delivered]
  · obtain ⟨call, -, same, undrawn, -⟩ := iff.mp back
    cases same
    cases undrawn

end Session

end HeadUnit
