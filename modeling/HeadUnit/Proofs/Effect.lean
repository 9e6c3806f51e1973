import HeadUnit.Board.Turn
import HeadUnit.Proofs.Arbitration

/-! Everything that a turn can do to a board, said once. Whatever the call, its turn is one of a few
    effects, each with the conditions under which it takes place; what turns keep is then shown effect
    by effect, without looking into the calls again. No step of a turn fails after the board was touched:
    whatever is arbitrated is arbitrated for a registered application. -/

namespace HeadUnit

/-! ### Elementary changes of a board -/

namespace AppRecord

@[simp] theorem lay_app (k : Overlay) (r : AppRecord) : (r.lay k).app = r.app :=
  congrArg Profile.app (r.lay_profile k)

@[simp] theorem lift_app (k : Overlay) (r : AppRecord) : (r.lift k).app = r.app := rfl

/-- Overlays change the stack and nothing else. -/
theorem lay_eq (k : Overlay) (r : AppRecord) : r.lay k = { r with overlays := (r.lay k).overlays } := by
  unfold lay
  split <;> rfl

theorem foldl_lay_eq (ks : List Overlay) (r : AppRecord) :
    ks.foldl (fun r k => r.lay k) r = { r with overlays := (ks.foldl (fun r k => r.lay k) r).overlays } := by
  induction ks generalizing r with
  | nil => rfl
  | cons k ks ih => rw [List.foldl_cons, ih, lay_eq]

end AppRecord

/-- What a change keeps of a record, it keeps where it is made on one application alone. -/
theorem Roster.modify_keeps {β : Type} {g : AppRecord → β} {f : AppRecord → AppRecord} (app : AppId)
    (keeps : ∀ r, g (f r) = g r) (r : AppRecord) : g (if r.app = app then f r else r) = g r := by
  split
  · exact keeps r
  · rfl

namespace Board

/-- Enters an application, under the overlays that are on, before it has its first status. -/
def enrol (p : Profile) (b : Board) : Board :=
  { b with apps := b.apps.insert (b.overlays.foldl (fun r k => r.lay k) { profile := p }) }

def keepPending (keep : CorrelationId × Activation → Bool) (b : Board) : Board :=
  { b with pending := b.pending.filter keep }

/-- Forgets the pending activation under a number. -/
def forget (id : CorrelationId) (b : Board) : Board := b.keepPending fun row => row.1 ≠ id

/-- Tells the board that a global overlay is on. -/
def cover (k : Overlay) (b : Board) : Board :=
  { b with
    overlays := if b.overlays.contains k then b.overlays else b.overlays ++ [k]
    apps := b.apps.map (·.lay k) }

/-- Tells the board that a global overlay is off. -/
def uncover (k : Overlay) (b : Board) : Board :=
  { b with overlays := b.overlays.filter (· ≠ k), apps := b.apps.map (·.lift k) }

/-- Gives an application the regular status it asks for, at the cost of the others. -/
def arbitrate (app : AppId) (asked : Status) (b : Board) : Board :=
  { b with apps := b.apps.arbitrate app asked }

/-- Carries out what was postponed, in the order of the roster, once no blocking overlay is on. -/
def promote (b : Board) : Board :=
  if b.isBlocked then b
  else
    let ready := b.apps.filterMap fun r => r.postponed?.map fun s => (r.app, s)
    ready.foldl (fun b x => b.arbitrate x.1 x.2) { b with apps := b.apps.map (·.clearPostponed) }

end Board

/-! ### Steps that cannot fail -/

namespace Board
variable {b : Board} {app : AppId}

theorem tryArbitrate_of_registered (known : (b.apps.record? app).isSome = true) (asked : Status) :
    b.tryArbitrate app asked = .ok (b.arbitrate app asked) := by
  obtain ⟨r, known⟩ := Option.isSome_iff_exists.mp known
  simp only [tryArbitrate, arbitrate, Roster.arbitrate, Roster.assignments, known]

theorem isSome_record?_enrol (p : Profile) (b : Board) : ((b.enrol p).apps.record? p.app).isSome = true := by
  have app : (b.overlays.foldl (fun r k => r.lay k) { profile := p : AppRecord }).app = p.app := by
    rw [AppRecord.foldl_lay_eq]
    rfl
  rw [← app]
  exact Roster.isSome_record?_of_mem (Roster.mem_insert.mpr (Or.inl rfl))

/-- What was postponed is carried out for applications that are registered throughout. -/
theorem tryPromote_eq (b : Board) : b.tryPromote = .ok b.promote := by
  unfold tryPromote promote
  split
  · rfl
  · suffices fold : ∀ (ready : List Assignment) (b' : Board),
        (∀ x ∈ ready, (b'.apps.record? x.1).isSome = true) →
        ready.foldlM (fun b x => b.tryArbitrate x.1 x.2) b' =
          .ok (ready.foldl (fun b x => b.arbitrate x.1 x.2) b') by
      refine fold _ _ fun x hx => ?_
      obtain ⟨r, hr, hrx⟩ := List.mem_filterMap.mp hx
      obtain ⟨s, -, rfl⟩ := Option.map_eq_some_iff.mp hrx
      rw [Roster.record?_map (f := AppRecord.clearPostponed) (fun _ => rfl), Option.isSome_map]
      exact Roster.isSome_record?_of_mem hr
    intro ready
    induction ready with
    | nil => exact fun _ _ => rfl
    | cons x ready ih =>
      intro b' known
      -- Carrying one request out leaves everybody registered, so the next one succeeds too.
      rw [List.foldlM_cons, tryArbitrate_of_registered (known x List.mem_cons_self)]
      refine ih (b'.arbitrate x.1 x.2) fun y hy => ?_
      rw [arbitrate, Roster.isSome_record?_arbitrate]
      exact known y (List.mem_cons_of_mem _ hy)

end Board

/-! ### Effects -/

/-- The number at the HMI that a fault says is unknown. -/
def Fault.hmiApp? : Fault → Option HmiAppId
  | .unknownHmiApp hmiApp => some hmiApp
  | _ => none

/-- The profile that a call registered, if that is what it did. -/
def Call.newcomer? (call : Call) (reply : Reply) : Option Profile :=
  match call, reply with
  | .register p _, .applied _ => some p
  | .registerDefault p, .applied _ => some p
  | _, _ => none

/-- The turns that are possible over a board; the profile is that of an application which the turn
    registers. -/
inductive Board.Effect (c : Conditions) (b : Board) : Option Profile → Turn → Prop
  | refused (f : Fault) : Effect c b none (b.drop f)
  /-- The call means nothing here. -/
  | silent : Effect c b none b.keepSilent
  | registered (p : Profile) (l : Level) (fresh : b.apps.record? p.app = none)
      (valid : (p.capabilities.statusAt l .main).isValid = true) :
      Effect c b (some p)
        (settle c.policy.attenuates (arbitrate p.app (p.capabilities.statusAt l .main) (b.enrol p)))
  | unregistered {app : AppId} {r : AppRecord} (known : b.apps.record? app = some r) :
      Effect c b none
        (keepSilent { b with apps := b.apps.remove app, pending := b.pending.removeApp app })
  | resuming {app : AppId} {r : AppRecord} (known : b.apps.record? app = some r) (on : Bool) :
      Effect c b none (keepSilent (b.modify app (·.withResuming on)))
  /-- The request waits for the blocking overlays to end. -/
  | postponed {app : AppId} {r : AppRecord} {asked : Status} (known : b.apps.record? app = some r)
      (valid : asked.isValid = true) (blocked : b.isBlocked = true) (waits : r.resuming = false) :
      Effect c b none { board := b.modify app (·.postpone asked), reply := .postponed }
  | requested {r : AppRecord} {asked : Status} (known : b.apps.record? r.app = some r)
      (valid : asked.isValid = true) (free : b.isBlocked = false ∨ r.resuming = true) :
      Effect c b none (b.requestNow c r asked)
  | awaited {r : AppRecord} {asked : Status} (known : b.apps.record? r.app = some r)
      (valid : asked.isValid = true) (free : b.isBlocked = false ∨ r.resuming = true) (id : CorrelationId) :
      Effect c b none (b.requestActivation c r asked id)
  /-- The answer brings nothing about; its activation is used up. -/
  | unanswered (id : CorrelationId) (f : Fault) : Effect c b none ((b.forget id).drop f)
  | answered {id : CorrelationId} {a : Activation} {app : AppId} (found : b.pending.find? id = some a)
      (owner : b.apps.ofHmiApp? a.hmiApp = some app) :
      Effect c b none (settle c.policy.attenuates (arbitrate app a.target (b.forget id)))
  | started {k : Overlay} (isGlobal : k.isGlobal = true) :
      Effect c b none (settle c.policy.attenuates (b.cover k))
  | stopped {k : Overlay} (isGlobal : k.isGlobal = true) :
      Effect c b none (settle c.policy.attenuates (b.uncover k).promote)
  | streaming {app : AppId} {r : AppRecord} (known : b.apps.record? app = some r) :
      Effect c b none
        (settle c.policy.attenuates (b.modify app (·.lay r.capabilities.streamingOverlay)))
  | streamed {app : AppId} {r : AppRecord} (known : b.apps.record? app = some r) :
      Effect c b none
        (settle c.policy.attenuates (b.modify app (·.lift r.capabilities.streamingOverlay)).promote)

namespace Board
variable {b : Board}

/-- A request that is carried out at once: whoever is owed anything is told, and a resuming application may
    get the audio source back. -/
theorem requestNow_eq {r : AppRecord} (known : b.apps.record? r.app = some r) (c : Conditions) (asked : Status) :
    b.requestNow c r asked =
      let turn := settle c.policy.attenuates (b.arbitrate r.app asked)
      if r.resuming && r.capabilities.isAudio && asked.level = .limited then
        { turn with notices := turn.notices ++ [.resume r.app] }
      else turn := by
  rw [requestNow, tryArbitrate_of_registered (by rw [known]; rfl)]

/-- Giving the audio source back is told, and leaves no trace on the board. -/
theorem requestNow_board {r : AppRecord} (known : b.apps.record? r.app = some r) (c : Conditions) (asked : Status) :
    (b.requestNow c r asked).board = (settle c.policy.attenuates (b.arbitrate r.app asked)).board := by
  rw [requestNow_eq known]
  dsimp only
  split <;> rfl

section Register
variable {p : Profile} {l : Level}

theorem register_of_taken (taken : (b.apps.record? p.app).isSome = true) (c : Conditions) (l : Level) :
    b.register c p l = b.drop (.alreadyRegistered p.app) := if_pos taken

theorem register_of_flaw (fresh : b.apps.record? p.app = none) {axis : Axis}
    (flaw : (p.capabilities.statusAt l .main).flaw? = some axis) (c : Conditions) :
    b.register c p l = b.drop (.invalidStatus p.app axis) := by
  simp only [register, fresh, flaw, Option.isSome_none, Bool.false_eq_true, ↓reduceIte]

theorem register_of_fresh (fresh : b.apps.record? p.app = none)
    (flawless : (p.capabilities.statusAt l .main).flaw? = none) (c : Conditions) :
    b.register c p l =
      settle c.policy.attenuates (arbitrate p.app (p.capabilities.statusAt l .main) (b.enrol p)) := by
  have carried := tryArbitrate_of_registered (isSome_record?_enrol p b) (p.capabilities.statusAt l .main)
  unfold enrol at carried
  simp only [register, fresh, flawless, carried, Option.isSome_none, Bool.false_eq_true, ↓reduceIte]
  rfl

end Register

theorem register_effect (c : Conditions) (p : Profile) (l : Level) (b : Board) :
    (∃ f, f.hmiApp? = none ∧ b.register c p l = b.drop f) ∨
      ∃ n, (b.register c p l).reply = .applied n ∧ Effect c b (some p) (b.register c p l) := by
  cases known : b.apps.record? p.app with
  | some r => exact Or.inl ⟨_, rfl, register_of_taken (by rw [known]; rfl) c l⟩
  | none =>
    cases flaw : (p.capabilities.statusAt l .main).flaw? with
    | some axis => exact Or.inl ⟨_, rfl, register_of_flaw known flaw c⟩
    | none =>
      rw [register_of_fresh known flaw]
      exact Or.inr ⟨_, rfl, .registered p l known (Status.flaw?_eq_none_iff.mp flaw)⟩

/-- A request is dropped, put off, carried out at once or sent to the HMI. -/
theorem request_cases (c : Conditions) (app : AppId) (asked : Status) (id : Option CorrelationId) (b : Board) :
    (∃ f, f.hmiApp? = none ∧ b.request c app asked id = b.drop f) ∨
      ∃ r, b.apps.record? app = some r ∧ asked.isValid = true ∧
        ((b.isBlocked = true ∧ r.resuming = false ∧
            b.request c app asked id = { board := b.modify app (·.postpone asked), reply := .postponed }) ∨
          (b.isBlocked = false ∨ r.resuming = true) ∧
            (b.request c app asked id = b.requestNow c r asked ∨
              ∃ id', b.request c app asked id = b.requestActivation c r asked id')) := by
  unfold request
  split
  · exact Or.inl ⟨_, rfl, rfl⟩
  · exact Or.inl ⟨_, rfl, rfl⟩
  · next r flawless known =>
    refine Or.inr ⟨r, known, Status.flaw?_eq_none_iff.mp flawless, ?_⟩
    split
    · next h =>
      simp only [Bool.and_eq_true, Bool.not_eq_true'] at h
      exact Or.inl ⟨h.1, h.2, rfl⟩
    · next h =>
      have free : b.isBlocked = false ∨ r.resuming = true := by
        cases hb : b.isBlocked
        · exact Or.inl rfl
        · simpa [hb] using h
      refine Or.inr ⟨free, ?_⟩
      split
      · exact Or.inl rfl
      · exact Or.inr ⟨_, rfl⟩

theorem request_effect (c : Conditions) (app : AppId) (asked : Status) (id : Option CorrelationId)
    (b : Board) : Effect c b none (b.request c app asked id) := by
  rcases request_cases c app asked id b with
    ⟨f, -, e⟩ | ⟨r, known, valid, ⟨blocked, waits, e⟩ | ⟨free, e | ⟨id', e⟩⟩⟩
  · rw [e]
    exact .refused f
  · rw [e]
    exact .postponed known valid blocked waits
  · obtain ⟨-, rfl⟩ := Roster.record?_mem known
    rw [e]
    exact .requested known valid free
  · obtain ⟨-, rfl⟩ := Roster.record?_mem known
    rw [e]
    exact .awaited known valid free id'

theorem requestLevel_effect (c : Conditions) (app : AppId) (l : Level) (id : Option CorrelationId)
    (b : Board) : Effect c b none (b.requestLevel c app l id) := by
  unfold requestLevel
  split
  · exact .refused _
  · exact request_effect ..

theorem deactivate_effect (c : Conditions) (app : AppId) (b : Board) :
    Effect c b none (b.deactivate c app) := by
  unfold deactivate
  split
  · exact .refused _
  · split
    · exact requestLevel_effect ..
    · exact .silent

section Answer
variable {c : Conditions} {id : CorrelationId} {answer : Answer} {f : Fault} {a : Activation}

theorem activationAnswered_of_error (resolved : b.pending.resolution id answer c.now c.timeout = .error f) :
    b.activationAnswered c id answer = (b.forget id).drop f := by
  simp only [activationAnswered, Pending.resolve, resolved]
  rfl

theorem activationAnswered_of_unknown (resolved : b.pending.resolution id answer c.now c.timeout = .ok a)
    (unknown : b.apps.ofHmiApp? a.hmiApp = none) :
    b.activationAnswered c id answer = (b.forget id).drop (.unknownHmiApp a.hmiApp) := by
  simp only [activationAnswered, Pending.resolve, resolved, unknown]
  rfl

/-- The status goes to the application that is found under the number at the HMI. -/
theorem activationAnswered_of_ok (resolved : b.pending.resolution id answer c.now c.timeout = .ok a)
    {app : AppId} (owner : b.apps.ofHmiApp? a.hmiApp = some app) :
    b.activationAnswered c id answer =
      settle c.policy.attenuates (arbitrate app a.target (b.forget id)) := by
  obtain ⟨r, hr, rfl⟩ := Option.map_eq_some_iff.mp owner
  have known : ((b.forget id).apps.record? r.app).isSome = true :=
    Roster.isSome_record?_of_mem (List.mem_of_find?_eq_some hr)
  simp only [activationAnswered, Pending.resolve, resolved, owner]
  change conclude c.policy.attenuates ((b.forget id).tryArbitrate r.app a.target) = _
  rw [tryArbitrate_of_registered known]
  rfl

end Answer

theorem activationAnswered_effect (c : Conditions) (id : CorrelationId) (answer : Answer) (b : Board) :
    Effect c b none (b.activationAnswered c id answer) := by
  cases resolved : b.pending.resolution id answer c.now c.timeout with
  | error f =>
    rw [activationAnswered_of_error resolved]
    exact .unanswered id f
  | ok a =>
    cases owner : b.apps.ofHmiApp? a.hmiApp with
    | none =>
      rw [activationAnswered_of_unknown resolved owner]
      exact .unanswered id _
    | some app =>
      rw [activationAnswered_of_ok resolved owner]
      exact .answered (Pending.resolution_eq_ok_iff.mp resolved).1 owner

theorem conclude_tryPromote (attenuates : Bool) (b : Board) :
    conclude attenuates b.tryPromote = settle attenuates b.promote := by
  rw [tryPromote_eq]
  rfl

theorem stopOverlay_eq (c : Conditions) (k : Overlay) (b : Board) :
    b.stopOverlay c k = settle c.policy.attenuates (b.uncover k).promote := conclude_tryPromote _ (b.uncover k)

theorem handle_effect (c : Conditions) (id : Option CorrelationId) (e : Event) (b : Board) :
    Effect c b none (b.handle c id e) := by
  cases e with
  | voiceStarted => exact .started rfl
  | voiceStopped =>
    simp only [handle, stopOverlay_eq]
    exact .stopped rfl
  | speechStarted => exact .started rfl
  | speechStopped =>
    simp only [handle, stopOverlay_eq]
    exact .stopped rfl
  | signalled signal active =>
    simp only [handle]
    split
    · exact .silent
    · next k hk =>
      have isGlobal := Signal.isGlobal_of_overlay? hk
      cases active
      · rw [stopOverlay_eq]
        exact .stopped isGlobal
      · exact .started isGlobal
  | streamingStarted app =>
    simp only [handle, startStreaming]
    split
    · exact .refused _
    · next known => exact .streaming known
  | streamingStopped app =>
    simp only [handle, stopStreaming]
    split
    · exact .refused _
    · next known =>
      rw [conclude_tryPromote]
      exact .streamed known
  | appActivated app => exact requestLevel_effect ..
  | appDeactivated app => exact deactivate_effect ..
  | activationAnswered id answer => exact activationAnswered_effect ..

/-- Every turn is one of the effects. -/
theorem perform_effect (c : Conditions) (id : Option CorrelationId) (call : Call) (b : Board) :
    Effect c b (call.newcomer? (b.perform c id call).reply) (b.perform c id call) := by
  have registers : ∀ p l, call.newcomer? (b.register c p l).reply =
      (match (b.register c p l).reply with | .applied _ => some p | _ => none) →
      Effect c b (call.newcomer? (b.register c p l).reply) (b.register c p l) := by
    intro p l h
    rw [h]
    rcases register_effect c p l b with ⟨f, -, e⟩ | ⟨n, hn, effect⟩
    · rw [e]
      exact .refused f
    · rw [hn]
      exact effect
  cases call with
  | register p l =>
    refine registers p l ?_
    cases (b.register c p l).reply <;> rfl
  | registerDefault p =>
    refine registers p c.policy.entryLevel ?_
    cases (b.register c p c.policy.entryLevel).reply <;> rfl
  | unregister app =>
    simp only [perform, unregister]
    split
    · exact .refused _
    · next known => exact .unregistered known
  | setResuming app on =>
    simp only [perform, setResuming]
    split
    · exact .refused _
    · next known => exact .resuming known on
  | request app asked activates => exact request_effect ..
  | requestAxes app l a v x => exact request_effect ..
  | requestLevel app l => exact requestLevel_effect ..
  | event e => exact handle_effect ..

end Board

end HeadUnit
