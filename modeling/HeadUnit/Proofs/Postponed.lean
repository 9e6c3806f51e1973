import HeadUnit.Proofs.Undisturbed

/-! What waits, and for how long. A request is put off only while a blocking overlay is on, and the turn
    that ends the last of them carries out whatever was put off. So nothing waits where nothing blocks, and
    a stop that leaves something blocking touches neither what waits nor the regular statuses. -/

namespace HeadUnit

/-! ### The slot of a record -/

namespace AppRecord
variable {r asker : AppRecord} {asked : Status}

@[simp] theorem contend_postponed? : (contend asker asked r).postponed? = r.postponed? := by rw [contend_eq]

@[simp] theorem lay_postponed? (k : Overlay) (r : AppRecord) : (r.lay k).postponed? = r.postponed? := by
  rw [lay_eq]

@[simp] theorem informed_postponed? (a : Bool) (r : AppRecord) : (r.informed a).postponed? = r.postponed? := by
  unfold informed
  split <;> rfl

@[simp] theorem informed_regular (a : Bool) (r : AppRecord) : (r.informed a).regular = r.regular := by
  unfold informed
  split <;> rfl

@[simp] theorem informed_resuming (a : Bool) (r : AppRecord) : (r.informed a).resuming = r.resuming := by
  unfold informed
  split <;> rfl

@[simp] theorem lay_resuming (k : Overlay) (r : AppRecord) : (r.lay k).resuming = r.resuming := by rw [lay_eq]

@[simp] theorem contend_resuming : (contend asker asked r).resuming = r.resuming := by rw [contend_eq]

@[simp] theorem informed_overlays (a : Bool) (r : AppRecord) : (r.informed a).overlays = r.overlays := by
  unfold informed
  split <;> rfl

end AppRecord

/-- No request waits. -/
def Roster.Idle (apps : Roster) : Prop := ∀ r ∈ apps, r.postponed? = none

namespace Roster.Idle
variable {apps : Roster}

theorem map (h : apps.Idle) {f : AppRecord → AppRecord} (keeps : ∀ r, (f r).postponed? = r.postponed?) :
    Idle (apps.map f) := by
  intro r hr
  obtain ⟨r₀, hr₀, rfl⟩ := List.mem_map.mp hr
  rw [keeps]
  exact h r₀ hr₀

theorem modify (h : apps.Idle) {app : AppId} {f : AppRecord → AppRecord}
    (keeps : ∀ r, (f r).postponed? = r.postponed?) : (apps.modify app f).Idle :=
  h.map (modify_keeps app keeps)

theorem arbitrate (h : apps.Idle) (ordered : apps.Ordered) (target : AppId) (asked : Status) :
    (apps.arbitrate target asked).Idle :=
  ordered.arbitrate_induct h (fun _ _ => h.map fun _ => AppRecord.contend_postponed?) target

end Roster.Idle

/-! ### Boards -/

namespace Board
variable {b : Board}

theorem isBlocked_iff : b.isBlocked = true ↔ ∃ k ∈ b.overlays, k.isBlocking = true := by
  simp [isBlocked]

theorem isBlocked_eq_false_iff :
    b.isBlocked = false ↔
      .voiceSession ∉ b.overlays ∧ .speech ∉ b.overlays ∧ .safetyMode ∉ b.overlays := by
  rw [← Bool.not_eq_true, isBlocked_iff]
  constructor
  · intro free
    exact ⟨fun on => free ⟨_, on, rfl⟩, fun on => free ⟨_, on, rfl⟩, fun on => free ⟨_, on, rfl⟩⟩
  · rintro ⟨voice, speech, safety⟩ ⟨k, on, blocks⟩
    cases k with
    | voiceSession => exact voice on
    | speech => exact speech on
    | safetyMode => exact safety on
    | _ => cases blocks

@[simp] theorem promote_overlays (b : Board) : b.promote.overlays = b.overlays :=
  promote_induct (P := fun b' => b'.overlays = b.overlays) (fun _ => rfl) rfl fun h _ _ => h

theorem promote_of_blocked (blocked : b.isBlocked = true) : b.promote = b := if_pos blocked

theorem idle_promote (ordered : b.apps.Ordered) (free : b.isBlocked = false) : b.promote.apps.Idle := by
  refine promote_induct_ordered (P := fun b => b.apps.Idle) ordered (fun blocked => ?_) (fun r hr => ?_)
    fun ordered' idle _ _ => idle.arbitrate ordered' _ _
  · rw [free] at blocked
    cases blocked
  · obtain ⟨r₀, -, rfl⟩ := List.mem_map.mp hr
    rfl

theorem idle_settle (h : b.apps.Idle) (a : Bool) : (b.settle a).board.apps.Idle :=
  h.map (AppRecord.informed_postponed? a)

/-- Nothing waits where nothing blocks. -/
def Prompt (b : Board) : Prop := b.isBlocked = false → b.apps.Idle

/-- A promotion leaves nothing behind, or it has to wait itself. -/
theorem prompt_promote (ordered : b.apps.Ordered) : b.promote.Prompt := by
  intro free
  refine idle_promote ordered ?_
  rw [isBlocked, promote_overlays] at free
  exact free

theorem Effect.prompt {c : Conditions} {p : Option Profile} {t : Turn} (h : b.Prompt) (ordered : b.apps.Ordered)
    (e : Effect c b p t) : t.board.Prompt := by
  cases e with
  | refused f => exact h
  | silent => exact h
  | registered p l fresh valid =>
    intro free
    have enrolled : (b.enrol p).apps.Idle := by
      intro r hr
      rcases Roster.mem_insert.mp hr with rfl | hr
      · rw [AppRecord.foldl_lay_eq]
      · exact h free r hr
    exact idle_settle (enrolled.arbitrate (ordered_enrol ordered fresh) _ _) _
  | unregistered known => exact fun free r hr => h free r (List.mem_filter.mp hr).1
  | resuming known on => exact fun free => (h free).modify fun _ => rfl
  | postponed known valid blocked waits =>
    intro free
    have free : b.isBlocked = false := free
    rw [blocked] at free
    cases free
  | requested known valid free =>
    rw [requestNow_board known]
    exact fun free => idle_settle ((h free).arbitrate ordered _ _) _
  | awaited known valid free id => exact h
  | unanswered id f => exact h
  | answered found owner => exact fun free => idle_settle (Roster.Idle.arbitrate (h free) ordered _ _) _
  | @started k isGlobal =>
    intro free
    -- An overlay that has just been laid can only add to what blocks.
    have freeBefore : b.isBlocked = false := by
      rw [← Bool.not_eq_true, isBlocked_iff] at free ⊢
      rintro ⟨k', on, blocks⟩
      refine free ⟨k', ?_, blocks⟩
      change k' ∈ if b.overlays.contains k then b.overlays else b.overlays ++ [k]
      split
      · exact on
      · exact List.mem_append_left _ on
    exact idle_settle (Roster.Idle.map (h freeBefore) (AppRecord.lay_postponed? k)) _
  | stopped isGlobal => exact fun free => idle_settle (prompt_promote (ordered_uncover ordered _) free) _
  | streaming known => exact fun free => idle_settle ((h free).modify (AppRecord.lay_postponed? _)) _
  | streamed known =>
    exact fun free => idle_settle (prompt_promote (ordered_modify ordered (AppRecord.lift_app _)) free) _

theorem Reachable.prompt (h : Reachable b) : b.Prompt :=
  h.induct (P := Prompt) (fun _ _ hr => (by cases hr)) (fun hb ih e => e.prompt ih hb.ordered) fun _ ih => ih

end Board

/-! ### Starts and stops -/

namespace Event

/-- The global overlay that an event starts. -/
def starts? : Event → Option Overlay
  | .voiceStarted => some .voiceSession
  | .speechStarted => some .speech
  | .signalled signal true => signal.overlay?
  | _ => none

/-- The global overlay that an event stops. -/
def stops? : Event → Option Overlay
  | .voiceStopped => some .voiceSession
  | .speechStopped => some .speech
  | .signalled signal false => signal.overlay?
  | _ => none

theorem isGlobal_of_starts {e : Event} {k : Overlay} (h : e.starts? = some k) : k.isGlobal = true := by
  unfold starts? at h
  split at h
  · cases h
    rfl
  · cases h
    rfl
  · exact Signal.isGlobal_of_overlay? h
  · cases h

/-- A stop, of a global overlay or of a stream. -/
def isStop : Event → Bool
  | .streamingStopped _ => true
  | e => e.stops?.isSome

end Event

namespace Board
variable {b : Board} {c : Conditions} {id : Option CorrelationId} {e : Event} {k : Overlay}

theorem handle_of_starts (h : e.starts? = some k) : b.handle c id e = b.startOverlay c k := by
  unfold Event.starts? at h
  split at h
  · cases h
    rfl
  · cases h
    rfl
  · simp only [handle, h, ↓reduceIte]
  · cases h

theorem handle_of_stops (h : e.stops? = some k) : b.handle c id e = b.stopOverlay c k := by
  unfold Event.stops? at h
  split at h
  · cases h
    rfl
  · cases h
    rfl
  · simp only [handle, h, Bool.false_eq_true, ↓reduceIte]
  · cases h

/-- Of a stop that leaves something blocking, the records show no more than the overlays that ended and
    what the applications were told of it. -/
theorem stop_of_blocked (stop : e.isStop = true) (blocked : (b.handle c id e).board.isBlocked = true) :
    ∃ f : AppRecord → AppRecord, (b.handle c id e).board.apps = b.apps.map f ∧
      ∀ r, (f r).app = r.app ∧ (f r).regular = r.regular ∧ (f r).postponed? = r.postponed? := by
  have settled : ∀ b' : Board, (settle c.policy.attenuates b'.promote).board.isBlocked = true →
      (settle c.policy.attenuates b'.promote).board.apps = b'.apps.map (·.informed c.policy.attenuates) := by
    intro b' blocked
    have blocked' : b'.isBlocked = true := by
      rw [← blocked]
      exact congrArg (·.any Overlay.isBlocking) (promote_overlays b').symm
    rw [promote_of_blocked blocked']
    rfl
  have ended : (∃ k, e.stops? = some k) ∨ ∃ app, e = .streamingStopped app := by
    unfold Event.isStop at stop
    split at stop
    · exact Or.inr ⟨_, rfl⟩
    · exact Or.inl (Option.isSome_iff_exists.mp stop)
  have lifted : ∀ (k : Overlay) (r : AppRecord), ((r.lift k).informed c.policy.attenuates).app = r.app ∧
      ((r.lift k).informed c.policy.attenuates).regular = r.regular ∧
      ((r.lift k).informed c.policy.attenuates).postponed? = r.postponed? := fun k r =>
    ⟨AppRecord.informed_app _ (r.lift k), AppRecord.informed_regular _ (r.lift k),
      AppRecord.informed_postponed? _ (r.lift k)⟩
  rcases ended with ⟨k, hk⟩ | ⟨app, rfl⟩
  · rw [handle_of_stops hk, stopOverlay_eq] at blocked ⊢
    refine ⟨_, ?_, lifted k⟩
    rw [settled _ blocked, uncover, List.map_map]
    rfl
  · simp only [handle, stopStreaming] at blocked ⊢
    split at blocked
    · exact ⟨fun r => r, (List.map_id _).symm, fun r => ⟨rfl, rfl, rfl⟩⟩
    · next r known =>
      rw [conclude_tryPromote] at blocked ⊢
      rw [settled _ blocked, Board.modify, Roster.modify, List.map_map]
      refine ⟨_, rfl, fun r' => ?_⟩
      dsimp only [Function.comp_apply]
      split
      · exact lifted _ r'
      · exact ⟨AppRecord.informed_app _ r', AppRecord.informed_regular _ r', AppRecord.informed_postponed? _ r'⟩

end Board

/-! ### Sessions -/

namespace Session.Reachable
variable {s : Session}

/-- No request waits where none of the blocking overlays is on; and a stop that leaves one of them on
    changes neither what waits nor any regular status. -/
theorem nothing_forgotten (h : s.Reachable) :
    (.voiceSession ∉ s.board.overlays → .speech ∉ s.board.overlays → .safetyMode ∉ s.board.overlays →
        ∀ r ∈ s.board.apps, r.postponed? = none) ∧
      ∀ e : Event, e.isStop = true → ∀ t, After (.event e) s t →
        (∃ k ∈ t.board.overlays, k.isBlocking = true) →
          ∀ app, (t.view app).regular? = (s.view app).regular? ∧
            (t.view app).postponed? = (s.view app).postponed? := by
  refine ⟨fun voice speech safety => ?_, fun e stop t after blocked app => ?_⟩
  · exact h.board.prompt (Board.isBlocked_eq_false_iff.mpr ⟨voice, speech, safety⟩)
  · obtain ⟨keep, board⟩ := after.board
    rw [board] at blocked
    obtain ⟨f, apps, keeps⟩ := Board.stop_of_blocked stop (Board.isBlocked_iff.mpr blocked)
    have found : t.board.apps.record? app = (s.board.apps.record? app).map f := by
      rw [after.apps]
      change Roster.record? app (s.board.handle _ _ e).board.apps = _
      rw [apps, Roster.record?_map fun r => (keeps r).1]
    rw [view_regular?, view_regular?, view_postponed?, view_postponed?, found]
    cases s.board.apps.record? app with
    | none => exact ⟨rfl, rfl⟩
    | some r => exact ⟨congrArg some (keeps r).2.1, (keeps r).2.2⟩

/-- Of two blocking overlays the first ends, and the request goes on waiting for the second. -/
theorem nothing_forgotten_two_sessions :
    let s := [Command.call (.register ⟨⟨1⟩, ⟨11⟩, { media := true }⟩ .background), .call (.event .voiceStarted),
      .call (.event .speechStarted), .call (.requestLevel ⟨1⟩ .limited)].foldl
      (fun s c => (s.run c).1) ({} : Session)
    let t := (s.run (.call (.event .voiceStopped))).1
    let u := (t.run (.call (.event .speechStopped))).1
    let asked : Status := ⟨.limited, .audible, .notStreamable, .main, .regular⟩
    ((s.view ⟨1⟩).postponed? = some asked ∧ t.board.overlays = [.speech] ∧
        (t.view ⟨1⟩).regular? = (s.view ⟨1⟩).regular? ∧ (t.view ⟨1⟩).postponed? = (s.view ⟨1⟩).postponed?) ∧
      (u.view ⟨1⟩).regular? = some asked ∧ ∀ r ∈ u.board.apps, r.postponed? = none := by
  intro s t u asked
  have reachable : s.Reachable := (Session.Reachable.fresh {} {}).runs _
  have speaking : t.board.overlays = [.speech] := by cbv
  have silent : u.board.overlays = [] := by cbv
  have plain : Reacts Command.IsAside s.host.reactions := .of_eq_nil (by cbv)
  have kept := (nothing_forgotten reachable).2 .voiceStopped rfl t (.delivered plain)
    ⟨.speech, speaking ▸ List.mem_cons_self, rfl⟩ ⟨1⟩
  have done := (nothing_forgotten (s := u) ((reachable.run _).run _)).1
  rw [silent] at done
  exact ⟨⟨by cbv, speaking, kept⟩, by cbv, done (by decide) (by decide) (by decide)⟩

end Session.Reachable

end HeadUnit
