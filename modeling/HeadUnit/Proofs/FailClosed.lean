import HeadUnit.Proofs.History
import HeadUnit.Proofs.Replies
import HeadUnit.Proofs.Told
import HeadUnit.Proofs.Validity

/-! No unknown value gets through the head unit. What it keeps is valid, so what it tells is: a notice speaks of
    what an application was told before, of what it is presented now, or of what an activation asks for. -/

namespace HeadUnit

/-- Every status and level that the notice speaks of is known. -/
def Notice.isValid : Notice → Bool
  | .status _ now => now.isValid
  | .level _ old new => old.isValid && new.isValid
  | .activate r => r.level.isValid
  | .reset _ | .resume _ => true

theorem Status.isValid_level {s : Status} (h : s.isValid = true) : s.level.isValid = true := by
  simp only [isValid, Bool.and_eq_true] at h
  exact h.1.1.1

theorem Notice.isValid_of_mem_ofChange {app : AppId} {old new : Status} {n : Notice} (h : n ∈ ofChange app old new)
    (hold : old.isValid = true) (hnew : new.isValid = true) : n.isValid = true := by
  obtain ⟨-, rfl | rfl | rfl⟩ := ofChange_cases h
  · exact hnew
  · rw [isValid, old.isValid_level hold, new.isValid_level hnew]
    rfl
  · rfl

namespace Board
variable {b : Board} {c : Conditions} {call : Call} {t : Turn}

/-- The news of a turn lead from what the applications had been told to what the turn leaves them. -/
theorem isValid_of_tidings {a : Bool} {apps : Roster} (h : t.Tidings a apps) (before : ∀ r ∈ apps, r.Valid)
    (after : t.board.Valid) {n : Notice} (mem : n ∈ t.notices) (news : n.isNews = true) : n.isValid = true := by
  have mem : n ∈ t.notices.filter Notice.isNews := List.mem_filter.mpr ⟨mem, news⟩
  cases h with
  | settled b' ordered kept board reply told =>
    rw [told] at mem
    obtain ⟨s, hs, owed⟩ := List.mem_flatMap.mp mem
    obtain ⟨r, hr, -, same⟩ := kept s hs
    have informed : (s.informed a).Valid := after.apps _ (by rw [board]; exact List.mem_map_of_mem hs)
    have presented : (s.effective a).isValid = true := by
      rw [← s.informed_effective a a]
      exact informed.effective a
    exact Notice.isValid_of_mem_ofChange owed (same ▸ (before r hr).told) presented
  | silent kept reply told =>
    rw [told] at mem
    cases mem

theorem Replied.isValid_activate (h : Replied c b call t) (after : t.board.Valid) {r : ActivationRequest}
    (mem : .activate r ∈ t.notices) : r.level.isValid = true := by
  cases h with
  | dropped => cases mem
  | postponed => cases mem
  | awaiting wish known id =>
    obtain rfl := Notice.activate.inj (List.mem_singleton.mp mem)
    exact Status.isValid_level (after.pending _ (Pending.mem_insert_rows.mpr (Or.inl rfl)))
  | applied reply pending asksNothing => exact absurd mem (asksNothing r)

theorem Reachable.isValid_of_mem_notices (h : b.Reachable) (c : Conditions) (id : Option CorrelationId) (call : Call)
    {n : Notice} (mem : n ∈ (b.perform c id call).notices) : n.isValid = true := by
  have effect := b.perform_effect c id call
  have before : ∀ r ∈ ((call.newcomer? (b.perform c id call).reply).elim b b.enrol).apps, r.Valid := by
    cases call.newcomer? (b.perform c id call).reply with
    | none => exact h.valid.apps
    | some p => exact h.valid.enrol.apps
  have after := h.valid.effect h.ordered effect
  -- A resumption carries no status; the other notices are news.
  cases n with
  | activate r => exact (perform_replied c id call b).isValid_activate after mem
  | resume app => rfl
  | _ => exact isValid_of_tidings (effect.tidings h.ordered) before after mem rfl

end Board

/-! ### Sessions -/

namespace Session

/-- Whatever is asked for, and whatever levels the policy gives: no status that is kept, waits or is presented
    has an unknown value, baselines and requests that wait for an overlay are tagged as regular, and nothing
    that is delivered speaks of an unknown value. -/
theorem fail_closed :
    (∀ s : Session, s.Reachable →
      (∀ r ∈ s.board.apps, r.regular.isValid = true ∧ r.regular.layer = .regular ∧
        (∀ waiting, r.postponed? = some waiting → waiting.isValid = true ∧ waiting.layer = .regular) ∧
        r.told.isValid = true ∧ ∀ attenuates, (r.effective attenuates).isValid = true) ∧
      ∀ row ∈ s.board.pending.rows, row.2.target.isValid = true) ∧
    ∀ (settings : Settings) (host : Host) (cs : List Command),
      ∀ n ∈ (runAll cs { settings, host }).2.delivered, n.isValid = true := by
  refine ⟨fun s reachable => ⟨fun r hr => ?_, reachable.board.valid.pending⟩, fun settings host cs n mem => ?_⟩
  · have valid := reachable.board.valid.apps r hr
    exact ⟨valid.regular.1, valid.regular.2, valid.postponed, valid.told, valid.effective⟩
  · rw [delivered_runAll settings host cs, Log.queued_eq_turns] at mem
    obtain ⟨⟨call, t⟩, taken, mem⟩ := List.mem_flatMap.mp mem
    obtain ⟨j, taken⟩ := List.getElem?_of_mem taken
    obtain ⟨b, c, id, reachable, -, rfl⟩ := played_runAll settings host cs j call t taken
    exact reachable.isValid_of_mem_notices c id call mem

/-- The policy gives an unknown level, and each way in is tried with an unknown value. Between them an activation
    is asked for, and a request tagged as speech has to wait for the end of a voice session. -/
theorem fail_closed_unknown_values :
    let app : AppId := ⟨1⟩
    let host : Host := { policy? := some { attenuates := true, entryLevel := .invalid } }
    let waiting : Status := ⟨.limited, .audible, .notStreamable, .menu, .overlay .speech⟩
    let cs : List Command :=
      [.call (.registerDefault ⟨app, ⟨11⟩, {}⟩), .call (.register ⟨app, ⟨11⟩, {}⟩ .invalid),
        .call (.register ⟨app, ⟨11⟩, { media := true }⟩ .limited), .call (.requestLevel app .full),
        .call (.request app { waiting with audio := .invalid } true), .call (.event .voiceStarted),
        .call (.request app waiting false), .call (.requestAxes app .full .audible .notStreamable .invalid),
        .call (.requestLevel app .invalid)]
    let s := cs.foldl (fun s c => (s.run c).1) ({ host } : Session)
    ((s.view app).postponed? = some (waiting.onLayer .regular) ∧ s.board.pending.size = 1 ∧
        (runAll cs { host }).2.delivered.map Notice.topic = [.status, .level, .activate, .status, .level]) ∧
      (∀ r ∈ s.board.apps, r.regular.isValid = true ∧ ∀ deferred, r.postponed? = some deferred →
        deferred.isValid = true ∧ deferred.layer = .regular) ∧
      (∀ row ∈ s.board.pending.rows, row.2.target.isValid = true) ∧
      ∀ n ∈ (runAll cs { host }).2.delivered, n.isValid = true := by
  intro app host waiting cs s
  have shown : (s.view app).postponed? = some (waiting.onLayer .regular) ∧ s.board.pending.size = 1 ∧
      (runAll cs { host }).2.delivered.map Notice.topic = [.status, .level, .activate, .status, .level] := by
    subst s cs waiting host app
    refine ⟨?_, ?_, ?_⟩ <;> cbv
  obtain ⟨kept, told⟩ := fail_closed
  obtain ⟨apps, pending⟩ := kept s ((Session.Reachable.fresh {} host).runs cs)
  refine ⟨shown, fun r hr => ?_, pending, told {} host cs⟩
  obtain ⟨regular, -, deferred, -⟩ := apps r hr
  exact ⟨regular, deferred⟩

end Session

end HeadUnit
