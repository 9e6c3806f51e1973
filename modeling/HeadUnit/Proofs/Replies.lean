import HeadUnit.Proofs.Reachable

/-! What a call comes to, told from its reply. A call that is dropped leaves everything as it was, save that
    an answer of the HMI uses up the activation under its number. One that is put off fills the slot of its
    application. One that waits for the HMI enters an activation and asks for it in a single notice. Only a
    call that is applied does more. -/

namespace HeadUnit

namespace Call

/-- The application for which a call requests a regular status. -/
def requests? : Call → Option AppId
  | .request app _ _ | .requestAxes app _ _ _ _ | .requestLevel app _ => some app
  | _ => none

/-- The application whose regular status a call is about: it is requested, or the application is brought to
    the front or sent away from it. -/
def asks? : Call → Option AppId
  | .event (.appActivated app) | .event (.appDeactivated app) => some app
  | call => call.requests?

/-- The regular status that a call asks for, and the application for which it does. A level is asked for in
    the context in which the application is. -/
def wish? (apps : Roster) : Call → Option Assignment
  | .request app asked _ => some (app, asked)
  | .requestAxes app l a v x => some (app, ⟨l, a, v, x, .regular⟩)
  | .requestLevel app l => atLevel? app l
  | .event (.appActivated app) => atLevel? app .full
  | .event (.appDeactivated app) => atLevel? app .background
  | _ => none
where
  /-- The status at a level that the capabilities give. -/
  atLevel? (app : AppId) (l : Level) : Option Assignment :=
    (apps.record? app).map fun r => (app, r.capabilities.statusAt l r.regular.context)

/-- The pending activations that a call leaves alone when it is carried out. -/
def spares : Call → CorrelationId × Activation → Bool
  | .unregister app, row => row.2.app ≠ app
  | .event (.activationAnswered id _), row => row.1 ≠ id
  | _, _ => true

variable {call : Call} {apps : Roster} {app : AppId} {asked : Status}

theorem asks?_of_wish? (h : call.wish? apps = some (app, asked)) : call.asks? = some app := by
  have level : ∀ {app' l}, wish?.atLevel? apps app' l = some (app, asked) → some app' = some app := by
    intro app' l h
    obtain ⟨r, -, e⟩ := Option.map_eq_some_iff.mp h
    exact congrArg some (Prod.mk.inj e).1
  cases call with
  | request | requestAxes => exact congrArg some (Prod.mk.inj (Option.some.inj h)).1
  | requestLevel => exact level h
  | event e =>
    cases e with
    | appActivated | appDeactivated => exact level h
    | _ => cases h
  | _ => cases h

end Call

namespace Pending

@[simp] theorem filter_true (p : Pending) : p.filter (fun _ => true) = p := by simp [filter]

end Pending

theorem Notice.activate_notMem_ofChange {a : ActivationRequest} {app : AppId} {old new : Status} :
    .activate a ∉ Notice.ofChange app old new := by
  unfold ofChange
  split
  · simp
  · split <;> simp

namespace Board
variable {b : Board} {c : Conditions} {id : Option CorrelationId} {call : Call} {app : AppId} {asked : Status}

/-- The board without the activation that a call answers, if it answers any. -/
def withoutAnswered (call : Call) (b : Board) : Board :=
  match call with
  | .event (.activationAnswered id _) => b.forget id
  | _ => b

/-- What the turn of a call comes to. -/
inductive Replied (c : Conditions) (b : Board) (call : Call) : Turn → Prop
  /-- A number at the HMI is unknown only if a pending activation has named it. -/
  | dropped (f : Fault)
      (named : ∀ h, f.hmiApp? = some h → ∃ row ∈ b.pending.rows, row.2.hmiApp = h ∧ b.apps.ofHmiApp? h = none) :
      Replied c b call ((b.withoutAnswered call).drop f)
  | postponed {r : AppRecord} {asked : Status} (wish : call.wish? b.apps = some (r.app, asked))
      (known : b.apps.record? r.app = some r) :
      Replied c b call { board := b.modify r.app (·.postpone asked), reply := .postponed }
  | awaiting {r : AppRecord} {asked : Status} (wish : call.wish? b.apps = some (r.app, asked))
      (known : b.apps.record? r.app = some r) (id : CorrelationId) :
      Replied c b call (b.requestActivation c r asked id)
  /-- No activation is asked for, and those pending are left alone or forgotten. -/
  | applied {t : Turn} {n : Nat} (reply : t.reply = .applied n)
      (pending : t.board.pending = b.pending.filter call.spares) (asksNothing : ∀ a, .activate a ∉ t.notices) :
      Replied c b call t

/-- A call that has nothing to do with activations that are pending. -/
def LeavesPending (call : Call) : Prop := (∀ row, call.spares row = true) ∧ ∀ b : Board, b.withoutAnswered call = b

theorem LeavesPending.filter (plain : LeavesPending call) (p : Pending) : p.filter call.spares = p := by
  rw [funext plain.1, Pending.filter_true]

theorem LeavesPending.refused (plain : LeavesPending call) {f : Fault} (other : f.hmiApp? = none) :
    Replied c b call (b.drop f) := by
  have same : Replied c b call ((b.withoutAnswered call).drop f) :=
    .dropped f fun h named => by
      rw [other] at named
      cases named
  rwa [plain.2] at same

@[simp] theorem promote_pending (b : Board) : b.promote.pending = b.pending :=
  promote_induct (P := fun b' => b'.pending = b.pending) (fun _ => rfl) rfl fun h _ _ => h

theorem activate_notMem_settle (attenuates : Bool) (b : Board) (a : ActivationRequest) :
    .activate a ∉ (b.settle attenuates).notices := by
  intro told
  obtain ⟨r, -, owed⟩ := List.mem_flatMap.mp told
  exact Notice.activate_notMem_ofChange owed

theorem replied_settle {b' : Board} (pending : b'.pending = b.pending.filter call.spares) :
    Replied c b call (b'.settle c.policy.attenuates) :=
  .applied rfl pending (activate_notMem_settle _ b')

theorem replied_keepSilent {b' : Board} (pending : b'.pending = b.pending.filter call.spares) :
    Replied c b call b'.keepSilent :=
  .applied rfl pending fun _ told => by cases told

theorem register_replied (plain : LeavesPending call) (p : Profile) (l : Level) :
    Replied c b call (b.register c p l) := by
  rcases register_effect c p l b with ⟨f, other, e⟩ | ⟨n, -, e⟩
  · rw [e]
    exact plain.refused other
  · -- Of all effects only a registration has a profile.
    generalize b.register c p l = t at e ⊢
    cases e with
    | registered => exact replied_settle (plain.filter b.pending).symm

theorem request_replied (plain : LeavesPending call) (wish : call.wish? b.apps = some (app, asked)) :
    Replied c b call (b.request c app asked id) := by
  rcases request_cases c app asked id b with ⟨f, other, e⟩ | ⟨r, known, -, ⟨-, -, e⟩ | ⟨-, e | ⟨id', e⟩⟩⟩
  · rw [e]
    exact plain.refused other
  · obtain ⟨-, rfl⟩ := Roster.record?_mem known
    rw [e]
    exact .postponed wish known
  · obtain ⟨-, rfl⟩ := Roster.record?_mem known
    rw [e, requestNow_eq known]
    dsimp only
    split
    · refine .applied rfl (plain.filter b.pending).symm fun a told => ?_
      rcases List.mem_append.mp told with told | told
      · exact activate_notMem_settle _ _ a told
      · cases List.mem_singleton.mp told
    · exact replied_settle (plain.filter b.pending).symm
  · obtain ⟨-, rfl⟩ := Roster.record?_mem known
    rw [e]
    exact .awaiting wish known id'

theorem requestLevel_replied (plain : LeavesPending call) {l : Level}
    (wish : call.wish? b.apps = Call.wish?.atLevel? b.apps app l) :
    Replied c b call (b.requestLevel c app l id) := by
  unfold requestLevel
  split
  · exact plain.refused rfl
  · next r known =>
    refine request_replied plain (wish.trans ?_)
    rw [Call.wish?.atLevel?, known]
    rfl

theorem deactivate_replied (app : AppId) : Replied c b (.event (.appDeactivated app)) (b.deactivate c app) := by
  have plain : LeavesPending (.event (.appDeactivated app)) := ⟨fun _ => rfl, fun _ => rfl⟩
  unfold deactivate
  split
  · exact plain.refused rfl
  · split
    · exact requestLevel_replied plain rfl
    · exact replied_keepSilent (plain.filter b.pending).symm

theorem hmiApp?_of_resolution_eq_error {p : Pending} {number : CorrelationId} {answer : Answer} {now : Moment}
    {timeout : Option UInt64} {f : Fault} (h : p.resolution number answer now timeout = .error f) :
    f.hmiApp? = none := by
  unfold Pending.resolution at h
  split at h
  · cases h
    rfl
  · split at h
    · cases h
      rfl
    · split at h <;> cases h
      rfl

theorem activationAnswered_replied (number : CorrelationId) (answer : Answer) :
    Replied c b (.event (.activationAnswered number answer)) (b.activationAnswered c number answer) := by
  cases resolved : b.pending.resolution number answer c.now c.timeout with
  | error f =>
    rw [activationAnswered_of_error resolved]
    refine .dropped f fun h named => ?_
    rw [hmiApp?_of_resolution_eq_error resolved] at named
    cases named
  | ok a =>
    have found := Pending.find?_eq_some_iff.mp (Pending.resolution_eq_ok_iff.mp resolved).1
    cases owner : b.apps.ofHmiApp? a.hmiApp with
    | none =>
      rw [activationAnswered_of_unknown resolved owner]
      refine .dropped _ fun h named => ?_
      obtain rfl := Option.some.inj named
      exact ⟨_, found, rfl, owner⟩
    | some app =>
      rw [activationAnswered_of_ok resolved owner]
      exact replied_settle rfl

theorem handle_replied (e : Event) : Replied c b (.event e) (b.handle c id e) := by
  have same : b.pending = b.pending.filter fun _ => true := (Pending.filter_true _).symm
  cases e with
  | voiceStarted => exact replied_settle same
  | voiceStopped =>
    rw [handle, stopOverlay_eq]
    exact replied_settle ((promote_pending _).trans same)
  | speechStarted => exact replied_settle same
  | speechStopped =>
    rw [handle, stopOverlay_eq]
    exact replied_settle ((promote_pending _).trans same)
  | signalled signal active =>
    simp only [handle]
    split
    · exact replied_keepSilent same
    · split
      · exact replied_settle same
      · rw [stopOverlay_eq]
        exact replied_settle ((promote_pending _).trans same)
  | streamingStarted app =>
    simp only [handle, startStreaming]
    split
    · exact LeavesPending.refused ⟨fun _ => rfl, fun _ => rfl⟩ rfl
    · exact replied_settle same
  | streamingStopped app =>
    simp only [handle, stopStreaming]
    split
    · exact LeavesPending.refused ⟨fun _ => rfl, fun _ => rfl⟩ rfl
    · rw [conclude_tryPromote]
      exact replied_settle ((promote_pending _).trans same)
  | appActivated app => exact requestLevel_replied ⟨fun _ => rfl, fun _ => rfl⟩ rfl
  | appDeactivated app => exact deactivate_replied app
  | activationAnswered number answer => exact activationAnswered_replied number answer

theorem perform_replied (c : Conditions) (id : Option CorrelationId) (call : Call) (b : Board) :
    Replied c b call (b.perform c id call) := by
  have same : b.pending = b.pending.filter fun _ => true := (Pending.filter_true _).symm
  cases call with
  | register p l => exact register_replied ⟨fun _ => rfl, fun _ => rfl⟩ p l
  | registerDefault p => exact register_replied ⟨fun _ => rfl, fun _ => rfl⟩ p _
  | unregister app =>
    simp only [perform, unregister]
    split
    · exact .dropped _ fun _ named => by cases named
    · exact replied_keepSilent rfl
  | setResuming app on =>
    simp only [perform, setResuming]
    split
    · exact LeavesPending.refused ⟨fun _ => rfl, fun _ => rfl⟩ rfl
    · exact replied_keepSilent same
  | request app asked activates => exact request_replied ⟨fun _ => rfl, fun _ => rfl⟩ rfl
  | requestAxes app l a v x => exact request_replied ⟨fun _ => rfl, fun _ => rfl⟩ rfl
  | requestLevel app l => exact requestLevel_replied ⟨fun _ => rfl, fun _ => rfl⟩ rfl
  | event e => exact handle_replied e

namespace Replied
variable {t : Turn}

theorem of_dropped (h : Replied c b call t) {f : Fault} (reply : t.reply = .dropped f) :
    t = (b.withoutAnswered call).drop f := by
  cases h with
  | dropped f' named =>
    cases reply
    rfl
  | postponed => cases reply
  | awaiting => cases reply
  | applied applied =>
    rw [applied] at reply
    cases reply

theorem of_postponed (h : Replied c b call t) (reply : t.reply = .postponed) :
    ∃ r asked, call.wish? b.apps = some (r.app, asked) ∧ b.apps.record? r.app = some r ∧
      t = { board := b.modify r.app (·.postpone asked), reply := .postponed } := by
  cases h with
  | dropped => cases reply
  | @postponed r asked wish known => exact ⟨r, asked, wish, known, rfl⟩
  | awaiting => cases reply
  | applied applied =>
    rw [applied] at reply
    cases reply

theorem of_awaiting (h : Replied c b call t) {id : CorrelationId} (reply : t.reply = .awaiting id) :
    ∃ r asked, call.wish? b.apps = some (r.app, asked) ∧ b.apps.record? r.app = some r ∧
      t = b.requestActivation c r asked id := by
  cases h with
  | dropped => cases reply
  | postponed => cases reply
  | @awaiting r asked wish known id' =>
    cases reply
    exact ⟨r, asked, wish, known, rfl⟩
  | applied applied =>
    rw [applied] at reply
    cases reply

theorem asksNothing (h : Replied c b call t) (silent : ∀ number, t.reply ≠ .awaiting number)
    (r : ActivationRequest) : .activate r ∉ t.notices := by
  cases h with
  | dropped | postponed => exact List.not_mem_nil
  | awaiting wish known number => exact absurd rfl (silent number)
  | applied _ _ asksNothing => exact asksNothing r

end Replied

/-! ### The number that is drawn -/

theorem request_awaiting {number : CorrelationId} (awaits : (b.request c app asked id).reply = .awaiting number) :
    id = some number := by
  unfold request at awaits
  split at awaits
  · cases awaits
  · cases awaits
  · next r _ known =>
    obtain ⟨-, rfl⟩ := Roster.record?_mem known
    split at awaits
    · cases awaits
    · split at awaits
      · rw [requestNow_eq known] at awaits
        dsimp only at awaits
        split at awaits <;> cases awaits
      · cases awaits
        rfl

theorem requestLevel_awaiting {l : Level} {number : CorrelationId}
    (awaits : (b.requestLevel c app l id).reply = .awaiting number) : id = some number := by
  unfold requestLevel at awaits
  split at awaits
  · cases awaits
  · exact request_awaiting awaits

/-- The HMI is asked under the number that was drawn for the call, so not at all if none was. -/
theorem perform_awaiting {number : CorrelationId} (awaits : (b.perform c id call).reply = .awaiting number) :
    id = some number := by
  obtain ⟨r, asked, wish, -, -⟩ := (perform_replied c id call b).of_awaiting awaits
  cases call with
  | request | requestAxes => exact request_awaiting awaits
  | requestLevel => exact requestLevel_awaiting awaits
  | event e =>
    cases e with
    | appActivated app => exact requestLevel_awaiting awaits
    | appDeactivated app =>
      simp only [perform, handle, deactivate] at awaits
      split at awaits
      · cases awaits
      · split at awaits
        · cases requestLevel_awaiting awaits
        · cases awaits
    | _ => cases wish
  | _ => cases wish

end Board

end HeadUnit
