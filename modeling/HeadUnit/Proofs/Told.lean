import HeadUnit.Proofs.Log

/-! What applications were told is what they are. Each turn that changes what an application is
    presented settles the board, and a record notes exactly the status that is queued for it. As notices
    are delivered in order, an application knows its status whenever the outbox has been emptied. -/

namespace HeadUnit

/-! ### News -/

namespace Notice
variable {app other : AppId} {old new : Status}

theorem lastStatus?_ofChange : lastStatus? app (ofChange app old new) =
    if old.sameAxes new = true then none else some new := by
  unfold ofChange
  split
  · rfl
  · split <;> simp [lastStatus?, statusFor?, List.filterMap_cons]

theorem lastStatus?_ofChange_of_ne (ne : other ≠ app) : lastStatus? app (ofChange other old new) = none := by
  unfold ofChange
  split
  · rfl
  · split <;> simp [lastStatus?, statusFor?, ne]

/-- Whether a notice tells an application of a change: the status, the level or the reset. -/
def isNews : Notice → Bool
  | .status .. | .level .. | .reset _ => true
  | .resume _ | .activate _ => false

theorem ofChange_cases {n : Notice} (h : n ∈ ofChange app old new) : old.sameAxes new = false ∧
    (n = .status app new ∨ n = .level app old.level new.level ∨ n = .reset app) := by
  unfold ofChange at h
  split at h
  · cases h
  · next changed =>
    refine ⟨by simpa using changed, ?_⟩
    rcases List.mem_append.mp h with told | reset
    · rcases List.mem_cons.mp told with status | level
      · exact Or.inl status
      · exact Or.inr (Or.inl (List.mem_singleton.mp level))
    · split at reset
      · exact Or.inr (Or.inr (List.mem_singleton.mp reset))
      · cases reset

theorem isNews_of_mem_ofChange {n : Notice} (h : n ∈ ofChange app old new) : n.isNews = true ∧ n.app = app := by
  obtain ⟨-, rfl | rfl | rfl⟩ := ofChange_cases h <;> exact ⟨rfl, rfl⟩

theorem lastStatus?_filter_isNews (ns : List Notice) :
    lastStatus? app (ns.filter isNews) = lastStatus? app ns := by
  rw [lastStatus?, List.filterMap_filter]
  refine congrArg List.getLast? (List.filterMap_congr fun n _ => ?_)
  cases n <;> rfl

end Notice

namespace AppRecord
variable {a : Bool} {app : AppId} {r : AppRecord}

theorem news_of_not_hasNews (h : ¬r.hasNews a = true) : r.news a = [] := by simpa [hasNews] using h

theorem informed_told_eq (a : Bool) (r : AppRecord) :
    (r.informed a).told = (Notice.lastStatus? r.app (r.news a)).getD r.told := by
  rw [news, Notice.lastStatus?_ofChange]
  unfold informed
  cases same : r.told.sameAxes (r.effective a) with
  | true => rw [if_neg (by simp [hasNews_iff, same]), if_pos rfl, Option.getD_none]
  | false =>
    rw [if_pos (hasNews_iff.mpr same), if_neg Bool.false_ne_true]
    rfl

theorem lastStatus?_flatMap_news {apps : List AppRecord} (others : ∀ s ∈ apps, s.app ≠ app) :
    Notice.lastStatus? app (apps.flatMap (·.news a)) = none := by
  induction apps with
  | nil => rfl
  | cons s apps ih =>
    rw [List.flatMap_cons, Notice.lastStatus?_append, ih fun t ht => others t (List.mem_cons_of_mem _ ht), news,
      Notice.lastStatus?_ofChange_of_ne (others s List.mem_cons_self)]
    rfl

end AppRecord

/-! ### Rosters -/

namespace Roster
variable {apps later : Roster}

/-- Where no number stands twice, each application is told its own news. -/
theorem Distinct.lastStatus?_flatMap_news (h : apps.Distinct) {r : AppRecord} (mem : r ∈ apps) (a : Bool) :
    Notice.lastStatus? r.app (apps.flatMap (·.news a)) = Notice.lastStatus? r.app (r.news a) := by
  obtain ⟨before, after, rfl, hbefore, hafter⟩ := h.split mem
  rw [List.flatMap_append, List.flatMap_cons, Notice.lastStatus?_append, Notice.lastStatus?_append,
    AppRecord.lastStatus?_flatMap_news hbefore, AppRecord.lastStatus?_flatMap_news hafter, Option.none_or,
    Option.or_none]

/-- Every application knows what it is presented. -/
def Aware (a : Bool) (apps : Roster) : Prop := ∀ r ∈ apps, r.told.sameAxes (r.effective a) = true

/-- Whoever is there later was there before, and was told nothing new. -/
def KeepsTold (apps later : Roster) : Prop := ∀ s ∈ later, ∃ r ∈ apps, r.app = s.app ∧ r.told = s.told

/-- A turn over a roster leaves each record with what it queues for the application; an application
    that it queues no status for keeps what it was told before. -/
def Tells (apps : Roster) (t : Turn) : Prop :=
  ∀ s ∈ t.board.apps, ∃ r ∈ apps, r.app = s.app ∧
    s.told = (Notice.lastStatus? s.app t.notices).getD r.told

namespace KeepsTold

theorem refl (apps : Roster) : apps.KeepsTold apps := fun s hs => ⟨s, hs, rfl, rfl⟩

theorem map (h : apps.KeepsTold later) {f : AppRecord → AppRecord} (app : ∀ r, (f r).app = r.app)
    (told : ∀ r, (f r).told = r.told) : apps.KeepsTold (later.map f) := by
  intro s hs
  obtain ⟨s₀, hs₀, rfl⟩ := List.mem_map.mp hs
  obtain ⟨r, hr, eapp, etold⟩ := h s₀ hs₀
  exact ⟨r, hr, eapp.trans (app s₀).symm, etold.trans (told s₀).symm⟩

theorem modify (h : apps.KeepsTold later) {app : AppId} {f : AppRecord → AppRecord} (keeps : ∀ r, (f r).app = r.app)
    (told : ∀ r, (f r).told = r.told) : apps.KeepsTold (later.modify app f) :=
  h.map (modify_keeps app keeps) (modify_keeps app told)

theorem arbitrate (h : apps.KeepsTold later) (ordered : later.Ordered) (target : AppId) (asked : Status) :
    apps.KeepsTold (later.arbitrate target asked) :=
  ordered.arbitrate_induct h (fun _ _ => h.map (fun _ => AppRecord.contend_app) fun _ => AppRecord.contend_told)
    target

end KeepsTold

end Roster

/-! ### Turns -/

theorem AppRecord.lay_told (k : Overlay) (r : AppRecord) : (r.lay k).told = r.told := by rw [lay_eq]

namespace Board
variable {b b' : Board} {apps : Roster}

theorem keepsTold_promote (h : apps.KeepsTold b.apps) (ordered : b.apps.Ordered) :
    apps.KeepsTold b.promote.apps :=
  promote_induct_ordered (P := fun b => apps.KeepsTold b.apps) ordered (fun _ => h)
    (h.map (fun _ => rfl) fun _ => rfl) fun ordered' h' _ _ => h'.arbitrate ordered' _ _

/-- A settled board has told every application what it is presented. -/
theorem aware_settle (a : Bool) (b : Board) : (b.settle a).board.apps.Aware a := by
  intro s hs
  obtain ⟨r, -, rfl⟩ := List.mem_map.mp hs
  rw [AppRecord.informed_effective]
  exact AppRecord.informed_told a r

theorem tells_settle (h : apps.KeepsTold b.apps) (ordered : b.apps.Ordered) (a : Bool) :
    apps.Tells (b.settle a) := by
  intro s hs
  obtain ⟨s₀, hs₀, rfl⟩ := List.mem_map.mp hs
  obtain ⟨r, hr, eapp, etold⟩ := h s₀ hs₀
  have own := ordered.distinct.lastStatus?_flatMap_news hs₀ a
  refine ⟨r, hr, eapp.trans (AppRecord.informed_app a s₀).symm, ?_⟩
  rw [AppRecord.informed_told_eq, ← own, etold, AppRecord.informed_app]
  rfl

end Board

/-- A turn has news by settling a board that does not touch what applications were told, or has none. Beyond
    the news it may only give an audio source back or ask the HMI for an activation. -/
inductive Turn.Tidings (a : Bool) (apps : Roster) (t : Turn) : Prop
  | settled (b : Board) (ordered : b.apps.Ordered) (kept : apps.KeepsTold b.apps)
      (board : t.board = (b.settle a).board) (reply : t.reply = (b.settle a).reply)
      (news : t.notices.filter Notice.isNews = (b.settle a).notices)
  | silent (kept : apps.KeepsTold t.board.apps) (reply : ∀ n, t.reply = .applied n → n = 0)
      (news : t.notices.filter Notice.isNews = [])

namespace Turn.Tidings
variable {a : Bool} {apps : Roster} {t : Turn}

theorem filter_isNews_settle (a : Bool) (b : Board) :
    (b.settle a).notices.filter Notice.isNews = (b.settle a).notices := by
  refine List.filter_eq_self.mpr fun n hn => ?_
  obtain ⟨r, -, owed⟩ := List.mem_flatMap.mp hn
  exact (Notice.isNews_of_mem_ofChange owed).1

theorem of_settle {b : Board} (kept : apps.KeepsTold b.apps) (ordered : b.apps.Ordered) :
    Tidings a apps (b.settle a) :=
  .settled b ordered kept rfl rfl (filter_isNews_settle a b)

theorem tells (h : Tidings a apps t) : apps.Tells t := by
  intro s hs
  rw [← Notice.lastStatus?_filter_isNews]
  cases h with
  | settled b ordered kept board reply news =>
    rw [board] at hs
    rw [news]
    exact Board.tells_settle kept ordered a s hs
  | silent kept reply news =>
    obtain ⟨r, hr, eapp, etold⟩ := kept s hs
    exact ⟨r, hr, eapp, by rw [news, etold]; rfl⟩

end Turn.Tidings

namespace Board
variable {b b' : Board} {apps : Roster}

/-- A newcomer was told nothing before. -/
theorem Effect.tidings {c : Conditions} {p : Option Profile} {t : Turn} (ordered : b.apps.Ordered)
    (e : Effect c b p t) : t.Tidings c.policy.attenuates (p.elim b b.enrol).apps := by
  have kept := Roster.KeepsTold.refl b.apps
  have none : ∀ n, Reply.applied 0 = .applied n → n = 0 := fun n same => (Reply.applied.inj same).symm
  cases e with
  | refused f => exact .silent kept nofun rfl
  | silent => exact .silent kept none rfl
  | registered p l fresh valid =>
    have enrolled := ordered_enrol ordered fresh
    exact .of_settle ((Roster.KeepsTold.refl _).arbitrate enrolled _ _) (enrolled.arbitrate _ _)
  | unregistered known =>
    exact .silent (fun s hs => ⟨s, (List.mem_filter.mp hs).1, rfl, rfl⟩) none rfl
  | resuming known on => exact .silent (kept.modify (fun _ => rfl) fun _ => rfl) none rfl
  | postponed known valid blocked waits => exact .silent (kept.modify (fun _ => rfl) fun _ => rfl) nofun rfl
  | @requested r asked known valid free =>
    refine .settled (b.arbitrate r.app asked) (ordered.arbitrate _ _) (kept.arbitrate ordered _ _)
      (requestNow_board known c asked) ?_ ?_
    · rw [requestNow_eq known]
      dsimp only
      split <;> rfl
    · rw [requestNow_eq known]
      dsimp only
      split
      · rw [List.filter_append, Turn.Tidings.filter_isNews_settle]
        exact List.append_nil _
      · exact Turn.Tidings.filter_isNews_settle _ _
  | awaited known valid free id => exact .silent kept nofun rfl
  | unanswered id f => exact .silent kept nofun rfl
  | answered found owner =>
    exact .of_settle (b := arbitrate _ _ (forget _ b)) (kept.arbitrate ordered _ _)
      (Roster.Ordered.arbitrate ordered _ _)
  | @started k isGlobal =>
    exact .of_settle (b := b.cover k) (kept.map (AppRecord.lay_app k) (AppRecord.lay_told k)) (ordered_cover ordered k)
  | @stopped k isGlobal =>
    have lifted : b.apps.KeepsTold (b.uncover k).apps := kept.map (AppRecord.lift_app k) fun _ => rfl
    have uncovered := ordered_uncover ordered k
    exact .of_settle (keepsTold_promote lifted uncovered) (ordered_promote uncovered)
  | @streaming app r known =>
    exact .of_settle (b := b.modify app (·.lay r.capabilities.streamingOverlay))
      (kept.modify (AppRecord.lay_app _) (AppRecord.lay_told _)) (ordered_modify ordered (AppRecord.lay_app _))
  | @streamed app r known =>
    have lifted : b.apps.KeepsTold (b.modify app (·.lift r.capabilities.streamingOverlay)).apps :=
      kept.modify (AppRecord.lift_app _) fun _ => rfl
    have ordered' : (b.modify app (·.lift r.capabilities.streamingOverlay)).apps.Ordered :=
      ordered_modify ordered (AppRecord.lift_app _)
    exact .of_settle (keepsTold_promote lifted ordered') (ordered_promote ordered')

/-- A record that a turn starts from is that of the newcomer, who was told nothing, or was there before. -/
theorem Effect.origin {c : Conditions} {p : Option Profile} {t : Turn} (e : Effect c b p t) {r : AppRecord}
    (hr : r ∈ (p.elim b b.enrol).apps) :
    (p.any (fun p => p.app = r.app) = true ∧ r.told = .initial) ∨
      (p.any (fun p => p.app = r.app) = false ∧ r ∈ b.apps) := by
  cases p with
  | none => exact Or.inr ⟨rfl, hr⟩
  | some p =>
    have fresh : b.apps.record? p.app = none := by
      cases e
      assumption
    rcases Roster.mem_insert.mp hr with rfl | hr
    · rw [AppRecord.foldl_lay_eq]
      exact Or.inl ⟨decide_eq_true rfl, rfl⟩
    · have other : p.app ≠ r.app := fun same => Roster.record?_eq_none_iff.mp fresh r hr same.symm
      exact Or.inr ⟨by simpa using other, hr⟩

/-- What an application is noted to be told after a turn: from nothing if the turn registered it, and
    from what it had been told otherwise. -/
theorem Effect.noted {c : Conditions} {p : Option Profile} {t : Turn} (ordered : b.apps.Ordered)
    (e : Effect c b p t) {s : AppRecord} (hs : s ∈ t.board.apps) :
    (p.any (fun p => p.app = s.app) = true ∧
        s.told = (Notice.lastStatus? s.app t.notices).getD .initial) ∨
      (p.any (fun p => p.app = s.app) = false ∧ ∃ r ∈ b.apps, r.app = s.app ∧
        s.told = (Notice.lastStatus? s.app t.notices).getD r.told) := by
  obtain ⟨r, hr, eapp, etold⟩ := (e.tidings ordered).tells s hs
  rcases e.origin hr with ⟨new, nothing⟩ | ⟨old, hr⟩
  · rw [eapp] at new
    rw [nothing] at etold
    exact Or.inl ⟨new, etold⟩
  · rw [eapp] at old
    exact Or.inr ⟨old, r, hr, eapp, etold⟩

theorem Effect.aware {c : Conditions} {p : Option Profile} {t : Turn} (h : b.apps.Aware c.policy.attenuates)
    (e : Effect c b p t) : t.board.apps.Aware c.policy.attenuates := by
  -- Neither the resumption window nor a deferred request is presented.
  have modify : ∀ {app : AppId} {f : AppRecord → AppRecord}, (∀ r, (f r).told = r.told) →
      (∀ r a, (f r).effective a = r.effective a) → (b.apps.modify app f).Aware c.policy.attenuates := by
    intro app f told effective s hs
    obtain ⟨r, hr, rfl⟩ := List.mem_map.mp hs
    split
    · rw [told, effective]
      exact h r hr
    · exact h r hr
  cases e with
  | refused f => exact h
  | silent => exact h
  | registered p l fresh valid => exact aware_settle _ _
  | unregistered known => exact fun s hs => h s (List.mem_filter.mp hs).1
  | resuming known on => exact modify (fun _ => rfl) fun _ _ => rfl
  | postponed known valid blocked waits => exact modify (fun _ => rfl) fun _ _ => rfl
  | requested known valid free =>
    rw [requestNow_board known]
    exact aware_settle _ _
  | awaited known valid free id => exact h
  | unanswered id f => exact h
  | answered found owner => exact aware_settle _ _
  | started isGlobal => exact aware_settle _ _
  | stopped isGlobal => exact aware_settle _ _
  | streaming known => exact aware_settle _ _
  | streamed known => exact aware_settle _ _

end Board

/-! ### Sessions -/

/-- A command that leaves the attenuation flag as it is. -/
def Command.KeepsFlag (a : Bool) : Command → Prop
  | .setPolicy p => p.attenuates = a
  | _ => True

namespace Session
variable {a : Bool} {past : Log} {s t : Session}

theorem policy_enter {c : Command} (h : s.policy.attenuates = a) (keeps : c.KeepsFlag a) :
    (s.enter c).1.policy.attenuates = a := by
  cases c with
  | call c =>
    simp only [enter, enterCall, Host.noteTurn]
    split
    · simp only [policy, Host.drawId_policy?]
      exact h
    · exact h
  | setPolicy p =>
    simp only [enter]
    split
    · exact keeps
    · exact h
  | _ => exact h

theorem Step.attenuates (h : s.policy.attenuates = a) (hs : Step (Command.KeepsFlag a) s t) :
    t.policy.attenuates = a := by
  cases hs with
  | enter c keeps s => exact policy_enter h keeps
  | note c r s => exact h
  | receive waiting reactions => exact h
  | unsent id s => exact h
  | guard on s => exact h

/-- Under a flag that stays: every record notes the last status that was queued for its application since
    that registered, and this is what the application is presented. -/
structure Faithful (a : Bool) (past : Log) (s : Session) : Prop where
  flag : s.policy.attenuates = a
  ordered : s.board.apps.Ordered
  aware : s.board.apps.Aware a
  noted : ∀ r ∈ s.board.apps, r.told = (Log.lastQueued? r.app (past ++ s.host.log)).getD .initial

theorem Faithful.step (h : Faithful a past s) (hs : Step (Command.KeepsFlag a) s t) : Faithful a past t := by
  have flag := hs.attenuates h.flag
  rcases hs.cases with ⟨id, call, board, log, -⟩ | ⟨apps, log⟩
  · have effect := Board.perform_effect s.conditions id call s.board
    have aware := effect.aware (h.flag.symm ▸ h.aware)
    refine ⟨flag, ?_, ?_, fun r hr => ?_⟩
    · rw [board]
      exact effect.ordered h.ordered
    · rw [board]
      exact h.flag ▸ aware
    · rw [board] at hr
      rw [log, ← List.append_assoc, Log.lastQueued?_concat]
      rcases effect.noted h.ordered hr with ⟨new, told⟩ | ⟨old, r₀, hr₀, eapp, told⟩
      · rw [told, LogEntry.registers, if_pos new, Option.or_none]
        rfl
      · rw [told, h.noted r₀ hr₀, eapp, LogEntry.registers, if_neg (by simp [old]), Option.getD_or]
        rfl
  · refine ⟨flag, apps ▸ h.ordered, apps ▸ h.aware, fun r hr => ?_⟩
    rw [apps] at hr
    rw [h.noted r hr]
    rcases log with ⟨e, quiet, log, -⟩ | ⟨log, -⟩
    · rw [log, ← List.append_assoc, Log.lastQueued?_concat_of_isQuiet quiet]
    · rw [log]

theorem Faithful.opened (h : Faithful a past s) : Faithful a (past ++ s.host.log) s.opened where
  flag := h.flag
  ordered := h.ordered
  aware := h.aware
  noted r hr := by
    rw [Session.opened, List.append_nil]
    exact h.noted r hr

/-- Whatever the host commands, also from inside deliveries, once the outermost command has returned
    every registered application was told what it is presented. -/
theorem lastTold_sameAxes_current (settings : Settings) (host : Host) (cs : List Command)
    (flag : (policy { settings, host }).attenuates = a)
    (outside : ∀ c ∈ cs, c.KeepsFlag a) (inside : Reacts (Command.KeepsFlag a) host.reactions) :
    let done := runAll cs { settings, host }
    done.2.delivered = done.2.queued ∧
      ∀ app now, (done.1.view app).current? = some now →
        ((done.2.lastTold? app).getD .initial).sameAxes now = true := by
  intro done
  have faithful : Faithful a done.2 done.1.opened :=
    runAll_induct Faithful.step Faithful.opened
      ⟨flag, .nil, fun _ hr => (by cases hr), fun _ hr => (by cases hr)⟩ outside inside
  have delivered : done.2.delivered = done.2.queued := delivered_runAll settings host cs
  refine ⟨delivered, fun app now shown => ?_⟩
  unfold view at shown
  split at shown
  · cases shown
  · next r known =>
    obtain ⟨hr, rfl⟩ := Roster.record?_mem known
    obtain rfl := Option.some.inj shown
    have noted := faithful.noted r hr
    rw [Session.opened, List.append_nil] at noted
    rw [Log.lastTold?, delivered, ← Log.lastQueued?, ← noted, show done.1.policy.attenuates = a from faithful.flag]
    exact faithful.aware r hr

/-- A second application takes the display away while the first is still being told that it has it. -/
theorem lastTold_sameAxes_current_reentrant :
    let host : Host :=
      { reactions := [⟨fun n => n.app = ⟨1⟩, 1, [.call (.register ⟨⟨2⟩, ⟨12⟩, { media := true }⟩ .full)]⟩] }
    let done := runAll [.call (.register ⟨⟨1⟩, ⟨11⟩, { media := true }⟩ .full)] { host }
    let first : Status := ⟨.background, .notAudible, .notStreamable, .main, .regular⟩
    (done.1.view ⟨1⟩).current? = some first ∧ done.2.delivered = done.2.queued ∧
      ((done.2.lastTold? ⟨1⟩).getD .initial).sameAxes first = true := by
  intro host done first
  have shown : (done.1.view ⟨1⟩).current? = some first := by cbv
  have told := lastTold_sameAxes_current {} host [.call (.register ⟨⟨1⟩, ⟨11⟩, { media := true }⟩ .full)] rfl
    (fun c hc => by
      obtain rfl := List.mem_singleton.mp hc
      trivial)
    (fun r hr c hc => by
      obtain rfl := List.mem_singleton.mp hr
      obtain rfl := List.mem_singleton.mp hc
      trivial)
  exact ⟨shown, told.1, told.2 ⟨1⟩ first shown⟩

end Session

end HeadUnit
