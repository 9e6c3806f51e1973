import HeadUnit.Proofs.Replies
import HeadUnit.Proofs.Undisturbed
import HeadUnit.Proofs.Validity

/-! Every pending activation belongs to an application that is registered, under the number at the HMI with
    which it registered. An application takes its activations with it when it leaves, so one that registers
    later under the same number finds none of them. Whoever an answer is for can therefore be found. -/

namespace HeadUnit

namespace Roster
variable {apps later : Roster}

/-- Whoever was registered still is, with the same profile. -/
def Retains (apps later : Roster) : Prop := ∀ r ∈ apps, ∃ s ∈ later, s.profile = r.profile

namespace Retains

theorem refl (apps : Roster) : apps.Retains apps := fun r hr => ⟨r, hr, rfl⟩

theorem map (h : apps.Retains later) {f : AppRecord → AppRecord} (keeps : ∀ r, (f r).profile = r.profile) :
    apps.Retains (later.map f) := by
  intro r hr
  obtain ⟨s, hs, same⟩ := h r hr
  exact ⟨f s, List.mem_map_of_mem hs, (keeps s).trans same⟩

theorem map_left (h : apps.Retains later) {f : AppRecord → AppRecord} (keeps : ∀ r, (f r).profile = r.profile) :
    Retains (apps.map f) later := by
  intro r hr
  obtain ⟨r₀, hr₀, rfl⟩ := List.mem_map.mp hr
  obtain ⟨s, hs, same⟩ := h r₀ hr₀
  exact ⟨s, hs, same.trans (keeps r₀).symm⟩

theorem modify (h : apps.Retains later) {app : AppId} {f : AppRecord → AppRecord}
    (keeps : ∀ r, (f r).profile = r.profile) : apps.Retains (later.modify app f) :=
  h.map (modify_keeps app keeps)

theorem arbitrate (h : apps.Retains later) (ordered : later.Ordered) (target : AppId) (asked : Status) :
    apps.Retains (later.arbitrate target asked) :=
  ordered.arbitrate_induct h (fun _ _ => h.map fun _ => AppRecord.contend_profile) target

theorem record? (h : apps.Retains later) (ordered : later.Ordered) {app : AppId} {r : AppRecord}
    (known : apps.record? app = some r) : ∃ s, later.record? app = some s ∧ s.profile = r.profile := by
  obtain ⟨hr, rfl⟩ := record?_mem known
  obtain ⟨s, hs, profile⟩ := h r hr
  exact ⟨s, ordered.record?_eq_some_iff.mpr ⟨hs, congrArg Profile.app profile⟩, profile⟩

end Retains

end Roster

theorem AppRecord.informed_profile (a : Bool) (r : AppRecord) : (r.informed a).profile = r.profile := by
  unfold informed
  split <;> rfl

namespace Board
variable {b : Board} {apps : Roster}

theorem retains_settle (h : apps.Retains b.apps) (a : Bool) : apps.Retains (b.settle a).board.apps :=
  h.map (AppRecord.informed_profile a)

theorem retains_promote (h : apps.Retains b.apps) (ordered : b.apps.Ordered) : apps.Retains b.promote.apps :=
  promote_induct_ordered (P := fun b => apps.Retains b.apps) ordered (fun _ => h) (h.map fun _ => rfl)
    fun ordered' h' _ _ => h'.arbitrate ordered' _ _

/-- The application of every pending activation is registered with the number at the HMI that is noted. -/
def Anchored (b : Board) : Prop :=
  ∀ row ∈ b.pending.rows, ∃ r ∈ b.apps, r.app = row.2.app ∧ r.profile.hmiApp = row.2.hmiApp

theorem Anchored.of_retains (h : b.Anchored) {b' : Board} (retains : b.apps.Retains b'.apps)
    (pending : ∀ row ∈ b'.pending.rows, row ∈ b.pending.rows) : b'.Anchored := by
  intro row hrow
  obtain ⟨r, hr, app, hmiApp⟩ := h row (pending row hrow)
  obtain ⟨s, hs, same⟩ := retains r hr
  exact ⟨s, hs, (congrArg Profile.app same).trans app, (congrArg Profile.hmiApp same).trans hmiApp⟩

theorem Anchored.keepPending (h : b.Anchored) (keep : CorrelationId × Activation → Bool) :
    (b.keepPending keep).Anchored :=
  h.of_retains (.refl b.apps) fun _ hrow => (Pending.mem_filter_rows.mp hrow).1

theorem Anchored.unregistered (h : b.Anchored) (app : AppId) :
    Anchored { b with apps := b.apps.remove app, pending := b.pending.removeApp app } := by
  intro row hrow
  obtain ⟨pending, other⟩ := Pending.mem_filter_rows.mp hrow
  obtain ⟨r, hr, anchored⟩ := h row pending
  exact ⟨r, List.mem_filter.mpr ⟨hr, by rw [anchored.1]; exact other⟩, anchored⟩

theorem Anchored.awaited (h : b.Anchored) {r : AppRecord} (known : b.apps.record? r.app = some r) (c : Conditions)
    (asked : Status) (id : CorrelationId) : (b.requestActivation c r asked id).board.Anchored := by
  intro row hrow
  rcases Pending.mem_insert_rows.mp hrow with rfl | ⟨hrow, -⟩
  · exact ⟨r, (Roster.record?_mem known).1, rfl, rfl⟩
  · exact h row hrow

/-- A profile never changes while its application is registered, so only the turns that enter an activation or
    take an application away need more than that whoever was registered still is. -/
theorem Anchored.effect {c : Conditions} {p : Option Profile} {t : Turn} (h : b.Anchored)
    (ordered : b.apps.Ordered) (e : Effect c b p t) : t.board.Anchored := by
  have all := Roster.Retains.refl b.apps
  cases e with
  | refused f => exact h
  | silent => exact h
  | registered p l fresh valid =>
    have entered : b.apps.Retains (b.enrol p).apps := fun r hr => ⟨r, Roster.mem_insert.mpr (Or.inr hr), rfl⟩
    exact h.of_retains (retains_settle (entered.arbitrate (ordered_enrol ordered fresh) _ _) _) fun _ hrow => hrow
  | unregistered known => exact h.unregistered _
  | resuming known on => exact h.of_retains (all.modify fun _ => rfl) fun _ hrow => hrow
  | postponed known valid blocked waits => exact h.of_retains (all.modify fun _ => rfl) fun _ hrow => hrow
  | requested known valid free =>
    rw [requestNow_board known]
    exact h.of_retains (retains_settle (all.arbitrate ordered _ _) _) fun _ hrow => hrow
  | awaited known valid free id => exact h.awaited known c _ id
  | unanswered id f => exact h.keepPending _
  | answered found owner =>
    refine h.of_retains (retains_settle (Roster.Retains.arbitrate all ordered _ _) _) fun _ hrow => ?_
    exact (Pending.mem_filter_rows.mp hrow).1
  | @started k isGlobal =>
    exact h.of_retains (retains_settle (b := b.cover k) (all.map (AppRecord.lay_profile k)) _) fun _ hrow => hrow
  | @stopped k isGlobal =>
    have uncovered : b.apps.Retains (b.uncover k).apps := all.map fun _ => rfl
    refine h.of_retains (retains_settle (retains_promote uncovered (ordered_uncover ordered k)) _) fun _ hrow => ?_
    change _ ∈ (b.uncover k).promote.pending.rows at hrow
    rwa [promote_pending] at hrow
  | streaming known =>
    exact h.of_retains (retains_settle (b := b.modify _ _) (all.modify (AppRecord.lay_profile _)) _) fun _ hrow => hrow
  | @streamed app r known =>
    have lifted : b.apps.Retains (b.modify app (·.lift r.capabilities.streamingOverlay)).apps :=
      all.modify fun _ => rfl
    refine h.of_retains (retains_settle (retains_promote lifted (ordered_modify ordered (AppRecord.lift_app _))) _)
      fun _ hrow => ?_
    change _ ∈ (promote _).pending.rows at hrow
    rwa [promote_pending] at hrow

theorem Reachable.anchored (h : Reachable b) : b.Anchored :=
  h.induct (P := Anchored) (fun _ hrow => (by cases hrow)) (fun hb ih e => ih.effect hb.ordered e)
    fun keep ih => ih.keepPending keep

theorem Anchored.isSome_ofHmiApp? (h : b.Anchored) {row : CorrelationId × Activation} (pending : row ∈ b.pending.rows) :
    (b.apps.ofHmiApp? row.2.hmiApp).isSome = true := by
  obtain ⟨r, hr, -, hmiApp⟩ := h row pending
  rw [Roster.ofHmiApp?, Option.isSome_map, List.find?_isSome]
  exact ⟨r, hr, by simpa using hmiApp⟩

theorem Anchored.answer_cases (h : b.Anchored) (c : Conditions) (id : CorrelationId) (answer : Answer) :
    (∃ f, b.pending.resolution id answer c.now c.timeout = .error f ∧
        b.activationAnswered c id answer = (b.forget id).drop f) ∨
      ∃ a owner, b.pending.resolution id answer c.now c.timeout = .ok a ∧ b.apps.ofHmiApp? a.hmiApp = some owner ∧
        b.activationAnswered c id answer = settle c.policy.attenuates (arbitrate owner a.target (b.forget id)) := by
  cases resolved : b.pending.resolution id answer c.now c.timeout with
  | error f => exact Or.inl ⟨f, rfl, activationAnswered_of_error resolved⟩
  | ok a =>
    have waits := Pending.find?_eq_some_iff.mp (Pending.resolution_eq_ok_iff.mp resolved).1
    obtain ⟨owner, found⟩ := Option.isSome_iff_exists.mp (h.isSome_ofHmiApp? waits)
    exact Or.inr ⟨a, owner, rfl, found, activationAnswered_of_ok resolved found⟩

theorem Anchored.reply_ne (h : b.Anchored) (c : Conditions) (id : Option CorrelationId) (call : Call)
    (hmiApp : HmiAppId) : (b.perform c id call).reply ≠ .dropped (.unknownHmiApp hmiApp) := by
  intro reply
  have replied := perform_replied c id call b
  generalize b.perform c id call = t at reply replied
  cases replied with
  | dropped f named =>
    cases reply
    obtain ⟨row, pending, rfl, unknown⟩ := named hmiApp rfl
    have found := h.isSome_ofHmiApp? pending
    rw [unknown] at found
    cases found
  | postponed => cases reply
  | awaiting => cases reply
  | applied applied =>
    rw [applied] at reply
    cases reply

end Board

namespace Session

section Success
variable {s : Session} {id : CorrelationId} {a : Activation} {owner : AppId}

/-- An answer that says success and comes in time brings about the activation that waits for it. -/
theorem turn_of_success (waits : s.board.pending.find? id = some a)
    (fresh : a.isExpired s.host.now s.settings.timeout = false)
    (found : s.board.apps.ofHmiApp? a.hmiApp = some owner) :
    s.turn (.event (.activationAnswered id .success)) =
      (Board.arbitrate owner a.target (s.board.forget id)).settle s.policy.attenuates :=
  Board.activationAnswered_of_ok (Pending.resolution_eq_ok_iff.mpr ⟨waits, rfl, fresh⟩) found

theorem run_board_of_success (rest : s.outbox = {}) (aside : Reacts Command.IsAside s.host.reactions)
    (waits : s.board.pending.find? id = some a) (fresh : a.isExpired s.host.now s.settings.timeout = false)
    (found : s.board.apps.ofHmiApp? a.hmiApp = some owner) :
    (s.run (.call (.event (.activationAnswered id .success)))).1.board =
      ((Board.arbitrate owner a.target (s.board.forget id)).settle s.policy.attenuates).board := by
  have turn := turn_of_success waits fresh found
  rw [← turn]
  refine run_call_board_of_asksNothing rest aside fun r => ?_
  rw [turn]
  exact Board.activate_notMem_settle _ _ r

end Success

namespace Reachable
variable {s : Session}

theorem enter_ne (h : s.Reachable) (c : Command) (hmiApp : HmiAppId) :
    (s.enter c).2 ≠ .reply (.dropped (.unknownHmiApp hmiApp)) := by
  cases c with
  | call c =>
    intro reply
    exact h.board.anchored.reply_ne _ _ c hmiApp (Response.reply.inj reply)
  | setPolicy p =>
    simp only [enter]
    split <;> exact fun reply => by cases reply
  | _ => exact fun reply => by cases reply

/-- Every pending activation names a registered application that has the noted number at the HMI, and a status
    that is known on every axis. So no command is ever dropped for a number at the HMI that is unknown, be it
    given from outside or from inside a delivery. -/
theorem pending_anchored (h : s.Reachable) :
    (∀ row ∈ s.board.pending.rows, row.2.target.isValid = true ∧
      ∃ r, s.board.apps.record? row.2.app = some r ∧ r.profile.hmiApp = row.2.hmiApp) ∧
    ∀ c hmiApp, (s.enter c).2 ≠ .reply (.dropped (.unknownHmiApp hmiApp)) ∧
      (s.run c).2 ≠ .reply (.dropped (.unknownHmiApp hmiApp)) := by
  refine ⟨fun row hrow => ⟨h.board.valid.pending row hrow, ?_⟩, fun c hmiApp => ⟨h.enter_ne c hmiApp, ?_⟩⟩
  · obtain ⟨r, hr, app, hmiApp⟩ := h.board.anchored row hrow
    exact ⟨r, h.board.ordered.record?_eq_some_iff.mpr ⟨hr, app⟩, hmiApp⟩
  · exact h.opened.enter_ne c hmiApp

/-- An application leaves while its activation is pending and registers again under another number at the HMI;
    the number of the first request is given out a second time. -/
theorem pending_anchored_registered_again :
    let app : AppId := ⟨1⟩
    let register (hmiApp : HmiAppId) : Command := .call (.register ⟨app, hmiApp, {}⟩ .background)
    let ask : Command := .call (.requestLevel app .full)
    let s := [register ⟨11⟩, ask, .call (.unregister app), register ⟨12⟩, .queueIds [⟨1⟩], ask].foldl
      (fun s c => (s.run c).1) ({} : Session)
    s.board.pending.rows = [(⟨1⟩, ⟨app, ⟨12⟩, ⟨.full, .notAudible, .notStreamable, .main, .regular⟩, 0⟩)] ∧
      (∃ r, s.board.apps.record? app = some r ∧ r.profile.hmiApp = ⟨12⟩) ∧
      ∀ hmiApp, (s.run (.call (.event (.activationAnswered ⟨1⟩ .success)))).2 ≠
        .reply (.dropped (.unknownHmiApp hmiApp)) := by
  intro app register ask s
  have reachable : s.Reachable := (Session.Reachable.fresh {} {}).runs _
  have rows : s.board.pending.rows =
      [(⟨1⟩, ⟨app, ⟨12⟩, ⟨.full, .notAudible, .notStreamable, .main, .regular⟩, 0⟩)] := by
    subst s ask register app
    cbv
  have anchored := pending_anchored reachable
  exact ⟨rows, (anchored.1 _ (rows ▸ List.mem_singleton_self _)).2, fun hmiApp => (anchored.2 _ hmiApp).2⟩

end Reachable

end Session

end HeadUnit
