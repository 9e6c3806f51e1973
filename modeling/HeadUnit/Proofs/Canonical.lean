import HeadUnit.Proofs.Anchored
import HeadUnit.Proofs.Exclusive
import HeadUnit.Proofs.Handshake

/-! Runs in which levels are asked for, never axes. The level of an application then says all of its regular
    status: what a demotion makes of such a status is what the capabilities give at the level that is left, and a
    status put off or sent to the HMI comes back to the application whose capabilities made it, as long as no two
    applications are known to the HMI under one number. So whatever is heard or seen is in the foreground. -/

namespace HeadUnit

/-! ### Statuses -/

/-- The status is the one that the capabilities give at its level, on the application's own screen. -/
def Status.IsCanonical (c : Capabilities) (s : Status) : Prop := s = c.statusAt s.level .main

theorem Status.IsCanonical.onLayer {c : Capabilities} {s : Status} (h : s.IsCanonical c) :
    (s.onLayer .regular).IsCanonical c := by
  have same : s.onLayer .regular = s := by
    rw [h]
    rfl
  rw [same]
  exact h

/-- Demotion and capabilities agree at every level that a request leaves. -/
theorem Status.demotion?_statusAt (asker : Capabilities) (asked : Status) (c : Capabilities) (l : Level) (x : Context) :
    Status.demotion? asker asked c (c.statusAt l x) =
      if Level.leftBy asker asked.level c l = l then none
      else some (c.statusAt (Level.leftBy asker asked.level c l) x) := by
  change (if Level.leftBy asker asked.level c l = l then none
    else some ((c.statusAt l x).demotedTo (Level.leftBy asker asked.level c l) c)) = _
  split
  · rfl
  · next moved =>
    rcases Level.leftBy_cases asker asked.level c l with same | background | ⟨rfl, audio, limited⟩
    · exact absurd same moved
    · rw [background]
      rfl
    · rw [limited]
      simp [Status.demotedTo, Capabilities.statusAt, Level.isForeground, audio]

/-- What is heard or seen is in the foreground, of an application that is capable of it. -/
structure Status.Presentable (c : Capabilities) (s : Status) : Prop where
  audio : s.audio ≠ .notAudible → c.isAudio = true ∧ s.level.isForeground = true
  video : s.video = .streamable → c.isVideo = true ∧ s.level.isForeground = true

namespace Status.Presentable
variable {c : Capabilities} {s : Status}

theorem statusAt (c : Capabilities) (l : Level) (x : Context) : (c.statusAt l x).Presentable c := by
  refine ⟨fun audio => ?_, fun video => ?_⟩
  · by_contra other
    refine audio (if_neg fun both => other ?_)
    exact (Bool.and_eq_true_iff.mp both).symm
  · by_contra other
    have dark : (c.statusAt l x).video = .notStreamable := if_neg fun both =>
      other (Bool.and_eq_true_iff.mp both).symm
    rw [dark] at video
    cases video

/-- A silent status is presentable if its video is. -/
theorem of_silent (silent : s.audio = .notAudible)
    (video : s.video = .streamable → c.isVideo = true ∧ s.level.isForeground = true) : s.Presentable c :=
  ⟨fun audio => absurd silent audio, video⟩

theorem whileStreaming (h : s.Presentable c) (a : Bool) : (s.whileStreaming c a).Presentable c where
  audio audio := h.audio fun silent => audio (by simp [Status.whileStreaming, silent])
  video video := h.video (by
    unfold Status.whileStreaming at video
    dsimp only at video
    split at video
    · exact video
    · cases video)

theorem cover (h : s.Presentable c) (k : Overlay) (a : Bool) : (k.cover c a s).Presentable c := by
  cases k with
  | voiceSession => exact .of_silent rfl h.video
  | speech =>
    refine ⟨fun audio => h.audio fun silent => audio ?_, h.video⟩
    exact Overlay.notAudible_cover silent
  | phoneCall =>
    -- What the call hides goes dark.
    refine .of_silent rfl fun video => ?_
    change (if (levelUnderCall c s.level).isHidden = true then Video.notStreamable else s.video) = _ at video
    change _ ∧ (levelUnderCall c s.level).isForeground = true
    split at video
    · cases video
    · next shown =>
      obtain ⟨capable, foreground⟩ := h.video video
      refine ⟨capable, ?_⟩
      rcases levelUnderCall_cases c s.level with same | ⟨-, ⟨limited, -⟩ | background⟩
      · rw [same]
        exact foreground
      · rw [limited]
        rfl
      · rw [background] at shown
        exact absurd rfl shown
  | safetyMode => exact .of_silent rfl fun video => by cases video
  | naviStreaming => exact ⟨(h.whileStreaming a).audio, (h.whileStreaming a).video⟩
  | videoStreaming => exact ⟨(h.whileStreaming a).audio, (h.whileStreaming a).video⟩

end Status.Presentable

/-! ### Records -/

/-- The regular status and the one put off are canonical. -/
structure AppRecord.Canonical (r : AppRecord) : Prop where
  regular : r.regular.IsCanonical r.capabilities
  postponed : ∀ s, r.postponed? = some s → s.IsCanonical r.capabilities

namespace AppRecord.Canonical
variable {r r' asker : AppRecord} {asked : Status}

theorem congr (h : r.Canonical) (profile : r'.profile = r.profile) (regular : r'.regular = r.regular)
    (postponed : r'.postponed? = r.postponed?) : r'.Canonical := by
  have capabilities : r'.capabilities = r.capabilities := congrArg Profile.capabilities profile
  refine ⟨?_, ?_⟩
  · rw [regular, capabilities]
    exact h.regular
  · rw [postponed, capabilities]
    exact h.postponed

theorem contend (h : r.Canonical) (asks : r.app = asker.app → asked.IsCanonical r.capabilities) :
    (AppRecord.contend asker asked r).Canonical := by
  by_cases own : r.app = asker.app
  · rw [contend_of_eq own]
    exact ⟨(asks own).onLayer, h.postponed⟩
  · have demotion := Status.demotion?_statusAt asker.capabilities asked r.capabilities r.regular.level .main
    rw [← h.regular] at demotion
    rw [contend_of_ne own, demotion]
    split
    · exact h
    · exact ⟨rfl, h.postponed⟩

theorem lay (h : r.Canonical) (k : Overlay) : (r.lay k).Canonical :=
  h.congr (r.lay_profile k) (r.lay_regular k) (by unfold AppRecord.lay; split <;> rfl)

theorem lift (h : r.Canonical) (k : Overlay) : (r.lift k).Canonical := h.congr rfl rfl rfl

theorem informed (h : r.Canonical) (a : Bool) : (r.informed a).Canonical := by
  unfold AppRecord.informed
  split <;> exact h.congr rfl rfl rfl

theorem presentable (h : r.Canonical) (a : Bool) : (r.effective a).Presentable r.capabilities := by
  have base : r.regular.Presentable r.capabilities := by
    rw [h.regular]
    exact .statusAt _ _ _
  exact Overlay.coverAll_induct (P := Status.Presentable r.capabilities) ⟨base.audio, base.video⟩
    fun k _ ih => ih.cover k a

end AppRecord.Canonical

/-! ### Boards -/

/-- The call asks for a regular status axis by axis. -/
def Call.asksAxes : Call → Bool
  | .request .. | .requestAxes .. => true
  | _ => false

/-- A command that asks for a level, if it asks for a regular status. -/
def Command.AsksForLevels : Command → Prop
  | .call c => c.asksAxes = false
  | _ => True

/-- No two applications are known to the HMI under one number. -/
def Roster.DistinctAtHmi (apps : Roster) : Prop := (apps.map (·.profile.hmiApp)).Nodup

/-- The records are canonical, and so is what each application is to get once the HMI consents. -/
structure Board.Canonical (b : Board) : Prop where
  apps : ∀ r ∈ b.apps, r.Canonical
  pending : ∀ row ∈ b.pending.rows, ∀ r ∈ b.apps, r.app = row.2.app → row.2.target.IsCanonical r.capabilities

namespace Board.Canonical
variable {b : Board} {app : AppId} {asked : Status} {f : AppRecord → AppRecord}

theorem map (h : b.Canonical) (profile : ∀ r, (f r).profile = r.profile)
    (keeps : ∀ r ∈ b.apps, r.Canonical → (f r).Canonical) : Canonical { b with apps := b.apps.map f } where
  apps r hr := by
    obtain ⟨r₀, hr₀, rfl⟩ := List.mem_map.mp hr
    exact keeps r₀ hr₀ (h.apps r₀ hr₀)
  pending row hrow r hr own := by
    obtain ⟨r₀, hr₀, rfl⟩ := List.mem_map.mp hr
    have same : (f r₀).capabilities = r₀.capabilities := congrArg Profile.capabilities (profile r₀)
    rw [same]
    exact h.pending row hrow r₀ hr₀ ((congrArg Profile.app (profile r₀)).symm.trans own)

theorem modify (h : b.Canonical) (profile : ∀ r, (f r).profile = r.profile)
    (keeps : ∀ r ∈ b.apps, r.app = app → r.Canonical → (f r).Canonical) : (b.modify app f).Canonical := by
  refine h.map (Roster.modify_keeps app profile) fun r hr canonical => ?_
  split
  · next own => exact keeps r hr own canonical
  · exact canonical

theorem settle (h : b.Canonical) (a : Bool) : (b.settle a).board.Canonical :=
  h.map (AppRecord.informed_profile a) fun _ _ canonical => canonical.informed a

theorem cover (h : b.Canonical) (k : Overlay) : (b.cover k).Canonical := by
  have laid := h.map (AppRecord.lay_profile k) fun _ _ canonical => canonical.lay k
  exact ⟨laid.apps, laid.pending⟩

theorem uncover (h : b.Canonical) (k : Overlay) : (b.uncover k).Canonical := by
  have lifted := h.map (f := (·.lift k)) (fun _ => rfl) fun _ _ canonical => canonical.lift k
  exact ⟨lifted.apps, lifted.pending⟩

theorem keepPending (h : b.Canonical) (keep : CorrelationId × Activation → Bool) : (b.keepPending keep).Canonical :=
  ⟨h.apps, fun row hrow => h.pending row (Pending.mem_filter_rows.mp hrow).1⟩

theorem arbitrate (h : b.Canonical) (ordered : b.apps.Ordered)
    (asks : ∀ r ∈ b.apps, r.app = app → asked.IsCanonical r.capabilities) : (b.arbitrate app asked).Canonical := by
  unfold Board.arbitrate
  cases found : b.apps.record? app with
  | none =>
    rw [Roster.arbitrate_of_unknown found]
    exact h
  | some asker =>
    obtain ⟨-, rfl⟩ := Roster.record?_mem found
    rw [Roster.arbitrate_eq_map ordered.distinct found]
    exact h.map (fun _ => AppRecord.contend_profile) fun r hr canonical => canonical.contend (asks r hr)

theorem promote (h : b.Canonical) (ordered : b.apps.Ordered) : b.promote.Canonical := by
  -- Whoever gets what was put off has the profile with which it asked.
  have kept := Roster.Retains.refl b.apps
  refine (promote_induct_ordered (P := fun b' => b'.Canonical ∧ b'.apps.Retains b.apps) ordered
    (fun _ => ⟨h, kept⟩) ⟨?_, kept.map_left fun _ => rfl⟩ fun {b' r s} ordered' h' hr hs => ?_).1
  · exact h.map (fun _ => rfl) fun r _ canonical => ⟨canonical.regular, fun _ hs => by cases hs⟩
  · refine ⟨h'.1.arbitrate ordered' fun r' hr' own => ?_, ?_⟩
    · obtain ⟨r₀, hr₀, same⟩ := h'.2 r' hr'
      obtain rfl : r₀ = r := ordered.distinct.eq hr₀ hr ((congrArg Profile.app same).trans own)
      rw [show r'.capabilities = r₀.capabilities from congrArg Profile.capabilities same.symm]
      exact (h.apps r₀ hr).postponed s hs
    · exact ordered'.arbitrate_induct (P := fun apps => apps.Retains b.apps) h'.2
        (fun _ _ => h'.2.map_left fun _ => AppRecord.contend_profile) r.app

theorem enrol (h : b.Canonical) (anchored : b.Anchored) {p : Profile} (fresh : b.apps.record? p.app = none) :
    (b.enrol p).Canonical where
  apps r hr := by
    rcases Roster.mem_insert.mp hr with rfl | hr
    · rw [AppRecord.foldl_lay_eq]
      exact ⟨rfl, fun _ hs => by cases hs⟩
    · exact h.apps r hr
  pending row hrow r hr own := by
    rcases Roster.mem_insert.mp hr with rfl | hr
    · obtain ⟨owner, howner, same, -⟩ := anchored row hrow
      rw [AppRecord.foldl_lay_eq] at own
      exact absurd (same.trans own.symm) (Roster.record?_eq_none_iff.mp fresh owner howner)
    · exact h.pending row hrow r hr own

/-! ### Calls -/

theorem register (h : b.Canonical) (anchored : b.Anchored) (ordered : b.apps.Ordered) (c : Conditions) (p : Profile)
    (l : Level) : (b.register c p l).board.Canonical := by
  cases known : b.apps.record? p.app with
  | some r =>
    rw [register_of_taken (by rw [known]; rfl)]
    exact h
  | none =>
    cases flaw : (p.capabilities.statusAt l .main).flaw? with
    | some axis =>
      rw [register_of_flaw known flaw]
      exact h
    | none =>
      rw [register_of_fresh known flaw]
      refine ((h.enrol anchored known).arbitrate (ordered_enrol ordered known) fun r hr own => ?_).settle _
      rcases Roster.mem_insert.mp hr with rfl | hr
      · rw [AppRecord.foldl_lay_eq]
        rfl
      · exact absurd own (Roster.record?_eq_none_iff.mp known r hr)

theorem request (h : b.Canonical) (ordered : b.apps.Ordered)
    (asks : ∀ r ∈ b.apps, r.app = app → asked.IsCanonical r.capabilities) (c : Conditions)
    (id : Option CorrelationId) : (b.request c app asked id).board.Canonical := by
  rcases request_cases c app asked id b with
    ⟨f, -, turn⟩ | ⟨r, known, -, ⟨-, -, turn⟩ | ⟨-, turn | ⟨number, turn⟩⟩⟩
  · rw [turn]
    exact h
  · rw [turn]
    refine h.modify (fun _ => rfl) fun r hr own canonical => ⟨canonical.regular, fun s hs => ?_⟩
    obtain rfl := Option.some.inj hs
    exact (asks r hr own).onLayer
  · obtain ⟨-, rfl⟩ := Roster.record?_mem known
    rw [turn, requestNow_board known]
    exact (h.arbitrate ordered asks).settle _
  · obtain ⟨hr, rfl⟩ := Roster.record?_mem known
    rw [turn]
    refine ⟨h.apps, fun row hrow => ?_⟩
    rcases Pending.mem_insert_rows.mp hrow with rfl | ⟨hrow, -⟩
    · exact asks
    · exact h.pending row hrow

/-- A level is asked for in the context in which the application is, and that is its own screen. -/
theorem requestLevel (h : b.Canonical) (ordered : b.apps.Ordered) (c : Conditions) (app : AppId) (l : Level)
    (id : Option CorrelationId) : (b.requestLevel c app l id).board.Canonical := by
  unfold Board.requestLevel
  split
  · exact h
  · next r known =>
    obtain ⟨hr, rfl⟩ := Roster.record?_mem known
    refine h.request ordered (fun r' hr' own => ?_) c id
    obtain rfl := ordered.distinct.eq hr' hr own
    have main : r'.regular.context = .main := congrArg Status.context (h.apps r' hr).regular
    rw [main]
    rfl

theorem deactivate (h : b.Canonical) (ordered : b.apps.Ordered) (c : Conditions) (app : AppId) :
    (b.deactivate c app).board.Canonical := by
  unfold Board.deactivate
  split
  · exact h
  · split
    · exact h.requestLevel ordered c app .background none
    · exact h

/-- The number at the HMI leads back to the application that asked, as it is known to no other. -/
theorem activationAnswered (h : b.Canonical) (anchored : b.Anchored) (ordered : b.apps.Ordered)
    (distinct : b.apps.DistinctAtHmi) (c : Conditions) (id : CorrelationId) (answer : Answer) :
    (b.activationAnswered c id answer).board.Canonical := by
  rcases anchored.answer_cases c id answer with ⟨f, -, turn⟩ | ⟨a, owner, resolved, found, turn⟩
  · rw [turn]
    exact h.keepPending _
  · have waits := Pending.find?_eq_some_iff.mp (Pending.resolution_eq_ok_iff.mp resolved).1
    obtain ⟨asker, hasker, app, hmiApp⟩ := anchored _ waits
    obtain ⟨q, hq, rfl⟩ := Option.map_eq_some_iff.mp found
    have sameHmi : q.profile.hmiApp = a.hmiApp := by simpa using List.find?_some hq
    have same : q = asker :=
      List.inj_on_of_nodup_map distinct (List.mem_of_find?_eq_some hq) hasker (sameHmi.trans hmiApp.symm)
    rw [turn]
    refine ((h.keepPending _).arbitrate ordered fun r hr own => ?_).settle _
    exact h.pending _ waits r hr (own.trans (same ▸ app))

theorem stopOverlay (h : b.Canonical) (ordered : b.apps.Ordered) (c : Conditions) (k : Overlay) :
    (b.stopOverlay c k).board.Canonical := by
  rw [stopOverlay_eq]
  exact ((h.uncover k).promote (ordered_uncover ordered k)).settle _

theorem handle (h : b.Canonical) (anchored : b.Anchored) (ordered : b.apps.Ordered) (distinct : b.apps.DistinctAtHmi)
    (c : Conditions) (id : Option CorrelationId) (e : Event) : (b.handle c id e).board.Canonical := by
  have start : ∀ k, (b.startOverlay c k).board.Canonical := fun k => (h.cover k).settle _
  cases e with
  | voiceStarted => exact start _
  | voiceStopped => exact h.stopOverlay ordered c _
  | speechStarted => exact start _
  | speechStopped => exact h.stopOverlay ordered c _
  | signalled signal active =>
    simp only [Board.handle]
    split
    · exact h
    · split
      · exact start _
      · exact h.stopOverlay ordered c _
  | streamingStarted app =>
    simp only [Board.handle, startStreaming]
    split
    · exact h
    · refine (h.modify (AppRecord.lay_profile _) fun r _ _ canonical => ?_).settle _
      exact canonical.lay _
  | streamingStopped app =>
    simp only [Board.handle, stopStreaming]
    split
    · exact h
    · next r known =>
      rw [conclude_tryPromote]
      have lifted : (b.modify app (·.lift r.capabilities.streamingOverlay)).Canonical :=
        h.modify (fun _ => rfl) fun _ _ _ canonical => canonical.lift _
      exact (lifted.promote (ordered_modify ordered (AppRecord.lift_app _))).settle _
  | appActivated app => exact h.requestLevel ordered c app .full id
  | appDeactivated app => exact h.deactivate ordered c app
  | activationAnswered number answer => exact h.activationAnswered anchored ordered distinct c number answer

theorem perform (h : b.Canonical) (anchored : b.Anchored) (ordered : b.apps.Ordered) (distinct : b.apps.DistinctAtHmi)
    (c : Conditions) (id : Option CorrelationId) {call : Call} (levels : call.asksAxes = false) :
    (b.perform c id call).board.Canonical := by
  cases call with
  | register p l => exact h.register anchored ordered c p l
  | registerDefault p => exact h.register anchored ordered c p _
  | unregister app =>
    simp only [Board.perform, unregister]
    split
    · exact h
    · exact ⟨fun r hr => h.apps r (List.mem_filter.mp hr).1, fun row hrow r hr =>
        h.pending row (Pending.mem_filter_rows.mp hrow).1 r (List.mem_filter.mp hr).1⟩
  | setResuming app on =>
    simp only [Board.perform, setResuming]
    split
    · exact h
    · exact h.modify (fun _ => rfl) fun r _ _ canonical => canonical.congr rfl rfl rfl
  | request app asked activates => cases levels
  | requestAxes app l a v x => cases levels
  | requestLevel app l => exact h.requestLevel ordered c app l id
  | event e => exact h.handle anchored ordered distinct c id e

end Board.Canonical

/-! ### Sessions -/

namespace Session
variable {s t : Session}

/-- A session in whose life levels were asked for and never axes, and no two applications were ever known to the
    HMI under one number at a time. -/
inductive LevelDriven : Session → Prop
  | fresh (settings : Settings) (host : Host) : LevelDriven { settings, host }
  | opened {s : Session} (h : LevelDriven s) : LevelDriven s.opened
  | step {s t : Session} (h : LevelDriven s) (hs : Step Command.AsksForLevels s t)
      (distinct : t.board.apps.DistinctAtHmi) : LevelDriven t

namespace LevelDriven

theorem reachable (h : s.LevelDriven) : s.Reachable := by
  induction h with
  | fresh settings host => exact .fresh settings host
  | opened _ ih => exact ih.opened
  | step _ hs _ ih => exact ih.step (hs.mono fun _ _ => trivial)

theorem distinct (h : s.LevelDriven) : s.board.apps.DistinctAtHmi := by
  induction h with
  | fresh settings host => exact List.nodup_nil
  | opened _ ih => exact ih
  | step _ _ distinct _ => exact distinct

theorem board (h : s.LevelDriven) : s.board.Canonical := by
  induction h with
  | fresh settings host => exact ⟨fun _ hr => (by cases hr), fun _ hrow => (by cases hrow)⟩
  | opened _ ih => exact ih
  | step h hs _ ih =>
    cases hs with
    | enter c levels s =>
      cases c with
      | call call =>
        have board := h.reachable.board
        exact ih.perform board.anchored board.ordered h.distinct _ _ levels
      | expire => exact ih.keepPending _
      | setPolicy p =>
        simp only [enter]
        split <;> exact ih
      | _ => exact ih
    | unsent id s => exact ih.keepPending _
    | note c r s => exact ih
    | receive waiting reactions => exact ih
    | guard on s => exact ih

/-- A host that gives no command that matters leaves the applications alone between two commands. -/
theorem asides (h : s.LevelDriven) (steps : Steps Command.IsAside s t) :
    t.LevelDriven ∧ t.board.apps = s.board.apps := by
  have weaker : ∀ c : Command, c.IsAside → c.AsksForLevels := fun c aside => by
    cases c <;> first | exact trivial | cases aside
  induction steps with
  | refl => exact ⟨h, rfl⟩
  | tail _ hs ih =>
    obtain ⟨driven, same⟩ := ih
    obtain ⟨keep, board⟩ := hs.aside
    have apps : _ = s.board.apps := (congrArg Board.apps board).trans same
    exact ⟨driven.step (hs.mono weaker) (apps ▸ h.distinct), apps⟩

theorem run (h : s.LevelDriven) (aside : Reacts Command.IsAside s.host.reactions) {c : Command}
    (levels : c.AsksForLevels) (distinct : (s.run c).1.board.apps.DistinctAtHmi) : (s.run c).1.LevelDriven := by
  have flushed := (flush_steps (aside.enter c)).1
  obtain ⟨keep, board⟩ := flushed.aside
  have apps : (s.opened.enter c).1.flush.board.apps = (s.opened.enter c).1.board.apps :=
    (congrArg Board.apps board).trans rfl
  exact ((h.opened.step (.enter c levels _) (apps ▸ distinct)).asides flushed).1

/-- At the end of a run from an empty head unit, if no two applications have one number after any command. -/
theorem runs (settings : Settings) {host : Host} (aside : Reacts Command.IsAside host.reactions) {cs : List Command}
    (levels : ∀ c ∈ cs, c.AsksForLevels)
    (distinct : ∀ x ∈ exchanges cs { settings, host }, (x.before.run x.command).1.board.apps.DistinctAtHmi) :
    (runAll cs { settings, host }).1.LevelDriven := by
  induction cs using List.reverseRecOn with
  | nil => exact .fresh settings host
  | append_singleton cs c ih =>
    rw [exchanges_concat] at distinct
    rw [runAll_concat]
    have before := ih (fun c hc => levels c (by simp [hc])) fun x hx => distinct x (by simp [hx])
    have idle := Reacts.runAll (s := { settings, host }) aside cs
    exact before.run idle (levels c (by simp)) (distinct ⟨(runAll cs { settings, host }).1, c⟩ (by simp))

/-- Where levels are asked for, the level of an application says all of its regular status. So what is heard or
    seen of an application is in the foreground, and it is capable of it; and of two applications that share a
    class one at most is heard. -/
theorem canonical (h : s.LevelDriven) :
    (∀ r ∈ s.board.apps, r.regular = r.capabilities.statusAt r.regular.level .main) ∧
      ∀ attenuates, ∀ r ∈ s.board.apps,
        ((r.effective attenuates).audio ≠ .notAudible →
          r.capabilities.isAudio = true ∧ (r.effective attenuates).level.isForeground = true) ∧
        ((r.effective attenuates).video = .streamable →
          r.capabilities.isVideo = true ∧ (r.effective attenuates).level.isForeground = true) ∧
        ∀ t ∈ s.board.apps, r.app ≠ t.app → r.capabilities.sharesClass t.capabilities = true →
          ¬((r.effective attenuates).audio ≠ .notAudible ∧ (t.effective attenuates).audio ≠ .notAudible) := by
  have valid : ∀ r ∈ s.board.apps, r.regular.level ≠ .invalid := fun r hr =>
    (Status.isValid_iff.mp (h.reachable.board.valid.apps r hr).regular.1).1
  refine ⟨fun r hr => (h.board.apps r hr).regular, fun attenuates r hr => ?_⟩
  have shown : ∀ r ∈ s.board.apps, (r.effective attenuates).Presentable r.capabilities := fun r hr =>
    (h.board.apps r hr).presentable attenuates
  refine ⟨(shown r hr).audio, (shown r hr).video, fun t ht other shares ⟨heard, heard'⟩ => ?_⟩
  obtain ⟨audio, foreground⟩ := (shown r hr).audio heard
  obtain ⟨-, foreground'⟩ := (shown t ht).audio heard'
  exact (h.reachable.board.exclusive r hr t ht other).audio shares audio
    ⟨Overlay.isForeground_of_coverAll (valid r hr) foreground,
      Overlay.isForeground_of_coverAll (valid t ht) foreground'⟩

/-- A request is put off under speech and carried out after it, another goes to the HMI and takes the display:
    the radio comes down to `LIMITED` and is heard there, as its capabilities have it. -/
theorem canonical_postponed_and_demoted :
    let cs : List Command := [.call (.register ⟨⟨1⟩, ⟨11⟩, { media := true }⟩ .background),
      .call (.registerDefault ⟨⟨2⟩, ⟨12⟩, { navigation := true }⟩), .call (.event .speechStarted),
      .expire, .call (.requestLevel ⟨1⟩ .full), .call (.event .speechStopped),
      .call (.event (.appActivated ⟨2⟩)), .call (.event (.activationAnswered ⟨2⟩ .success))]
    let s := (runAll cs {}).1
    s.board.apps.map (fun r => (r.app, r.regular)) =
        [(⟨1⟩, ⟨.limited, .audible, .notStreamable, .main, .regular⟩),
          (⟨2⟩, ⟨.full, .audible, .streamable, .main, .regular⟩)] ∧
      ∀ r ∈ s.board.apps, r.regular = r.capabilities.statusAt r.regular.level .main := by
  intro cs s
  have aside : Reacts Command.IsAside ({} : Host).reactions := .of_eq_nil rfl
  have levels : ∀ c ∈ cs, c.AsksForLevels := by simp [cs, Command.AsksForLevels, Call.asksAxes]
  let answer : Command := .call (.event (.activationAnswered ⟨2⟩ .success))
  let before := (runAll cs.dropLast {}).1
  have last : s = (before.run answer).1 := runAll_concat cs.dropLast answer {}
  have past : exchanges cs {} = exchanges cs.dropLast {} ++ [⟨before, answer⟩] := exchanges_concat cs.dropLast answer {}
  let a : Activation := ⟨⟨2⟩, ⟨12⟩, ⟨.full, .audible, .streamable, .main, .regular⟩, 0⟩
  have waits : before.board.pending.find? ⟨2⟩ = some a := by cbv
  have fresh : a.isExpired before.host.now before.settings.timeout = false := by
    rw [show before.host.now = 0 by cbv, show before.settings.timeout = some 10 by cbv]
    rfl
  have found : before.board.apps.ofHmiApp? a.hmiApp = some ⟨2⟩ := by cbv
  have board := run_board_of_success (s := before) (runAll_outbox rfl _) (Reacts.runAll aside _) waits fresh found
  have numbers : (exchanges cs {}).map (fun x => (x.before.run x.command).1.board.apps.map (·.profile.hmiApp)) =
      [⟨11⟩] :: List.replicate 7 [⟨11⟩, ⟨12⟩] := by
    rw [past, List.map_append, List.map_singleton, board]
    cbv
  have distinct : ∀ x ∈ exchanges cs {}, (x.before.run x.command).1.board.apps.DistinctAtHmi := fun x hx => by
    have nodup : ∀ ids ∈ [⟨11⟩] :: List.replicate 7 [(⟨11⟩ : HmiAppId), ⟨12⟩], ids.Nodup := by decide
    exact nodup _ (numbers ▸ List.mem_map_of_mem hx)
  refine ⟨?_, (canonical (runs {} aside levels distinct)).1⟩
  rw [last, board]
  cbv

end LevelDriven

end Session

end HeadUnit
