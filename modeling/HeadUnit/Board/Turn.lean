import HeadUnit.Board
import HeadUnit.Settings

/-! The turns: what each request and each event does to the board. A request that is refused leaves
the board as it was, save that an answer of the HMI uses up the activation it answers. -/

namespace HeadUnit

/-- What a turn depends on besides the board. -/
structure Conditions where
  policy : Policy
  timeout : Option UInt64
  now : Moment

/-- A call that changes the board. -/
inductive Call
  | register (profile : Profile) (level : Level)
  /-- Registers an application at the level that the policy gives. -/
  | registerDefault (profile : Profile)
  | unregister (app : AppId)
  | setResuming (app : AppId) (resuming : Bool)
  /-- Asks for a regular status; with `activates` the HMI is asked first. -/
  | request (app : AppId) (asked : Status) (activates : Bool)
  /-- Asks for a regular status by its axes. -/
  | requestAxes (app : AppId) (level : Level) (audio : Audio) (video : Video) (context : Context)
  /-- Asks for a level; at `FULL` the HMI is asked first. -/
  | requestLevel (app : AppId) (level : Level)
  | event (e : Event)
  deriving DecidableEq

/-- Whether a fresh correlation number is drawn for the call. It is drawn beforehand, and lost if the
    call then sends no activation request. -/
def Call.drawsId : Call → Bool
  | .request _ _ activates => activates
  | .requestLevel _ level => level = .full
  | .event (.appActivated _) => true
  | _ => false

namespace Board

/-- Registers an application: it comes under the overlays that are on, in the order in which they
    started, and takes its first regular status by arbitration. -/
def register (c : Conditions) (p : Profile) (l : Level) (b : Board) : Turn :=
  if (b.apps.record? p.app).isSome then b.drop (.alreadyRegistered p.app)
  else
    let regular := p.capabilities.statusAt l .main
    match regular.flaw? with
    | some axis => b.drop (.invalidStatus p.app axis)
    | none =>
      let fresh : AppRecord := b.overlays.foldl (fun r k => r.lay k) { profile := p }
      conclude c.policy.attenuates (tryArbitrate p.app regular { b with apps := b.apps.insert fresh })

/-- Forgets an application and its pending activations. -/
def unregister (app : AppId) (b : Board) : Turn :=
  match b.apps.record? app with
  | none => b.drop (.unknownApp app)
  | some _ => keepSilent { b with apps := b.apps.remove app, pending := b.pending.removeApp app }

/-- Opens or closes the resumption window of an application. -/
def setResuming (app : AppId) (resuming : Bool) (b : Board) : Turn :=
  match b.apps.record? app with
  | none => b.drop (.unknownApp app)
  | some _ => keepSilent (b.modify app (·.withResuming resuming))

/-- A request that is carried out at once. An audio application that resumes at `LIMITED` gets the
    audio source back, after everything else. -/
def requestNow (c : Conditions) (r : AppRecord) (asked : Status) (b : Board) : Turn :=
  match b.tryArbitrate r.app asked with
  | .error (f, b) => b.drop f
  | .ok b =>
    let turn := b.settle c.policy.attenuates
    if r.resuming && r.capabilities.isAudio && asked.level = .limited then
      { turn with notices := turn.notices ++ [.resume r.app] }
    else turn

/-- A request that asks the HMI first. -/
def requestActivation (c : Conditions) (r : AppRecord) (asked : Status) (id : CorrelationId)
    (b : Board) : Turn where
  board := { b with pending := b.pending.insert id ⟨r.app, r.profile.hmiApp, asked, c.now⟩ }
  notices := [.activate ⟨id, r.app, r.profile.hmiApp, asked.level⟩]
  reply := .awaiting id

/-- Asks for a regular status: at once, after the HMI's consent under the number `id`, or after the
    blocking overlays that are on, unless the application is resuming. -/
def request (c : Conditions) (app : AppId) (asked : Status) (id : Option CorrelationId) (b : Board) :
    Turn :=
  match asked.flaw?, b.apps.record? app with
  | some axis, _ => b.drop (.invalidStatus app axis)
  | none, none => b.drop (.unknownApp app)
  | none, some r =>
    if b.isBlocked && !r.resuming then
      { board := b.modify app (·.postpone asked), reply := .postponed }
    else match id with
      | none => b.requestNow c r asked
      | some id => b.requestActivation c r asked id

/-- Asks for a level, in the context in which the application is. -/
def requestLevel (c : Conditions) (app : AppId) (l : Level) (id : Option CorrelationId) (b : Board) :
    Turn :=
  match b.apps.record? app with
  | none => b.drop (.unknownApp app)
  | some r => b.request c app (r.capabilities.statusAt l r.regular.context) id

/-- Sends an application that holds the display to the background. -/
def deactivate (c : Conditions) (app : AppId) (b : Board) : Turn :=
  match b.apps.record? app with
  | none => b.drop (.unknownApp app)
  | some r =>
    if (r.effective c.policy.attenuates).level = .full then b.requestLevel c app .background none
    else b.keepSilent

/-- Takes in the HMI's answer to an activation request. -/
def activationAnswered (c : Conditions) (id : CorrelationId) (answer : Answer) (b : Board) : Turn :=
  let resolved := b.pending.resolve id answer c.now c.timeout
  let b := { b with pending := resolved.2 }
  match resolved.1 with
  | .error f => b.drop f
  | .ok a =>
    match b.apps.ofHmiApp? a.hmiApp with
    | none => b.drop (.unknownHmiApp a.hmiApp)
    | some app => conclude c.policy.attenuates (b.tryArbitrate app a.target)

/-- Carries out what was postponed, in the order of the roster, once no blocking overlay is on. A failure
    would end it. -/
def tryPromote (b : Board) : Attempt :=
  if b.isBlocked then .ok b
  else
    let ready := b.apps.filterMap fun r => r.postponed?.map fun s => (r.app, s)
    ready.foldlM (fun b x => b.tryArbitrate x.1 x.2) { b with apps := b.apps.map (·.clearPostponed) }

/-- Starts a global overlay; one that is on already stays where it lies. -/
def startOverlay (c : Conditions) (k : Overlay) (b : Board) : Turn :=
  settle c.policy.attenuates
    { b with
      overlays := if b.overlays.contains k then b.overlays else b.overlays ++ [k]
      apps := b.apps.map (·.lay k) }

/-- Stops a global overlay. -/
def stopOverlay (c : Conditions) (k : Overlay) (b : Board) : Turn :=
  conclude c.policy.attenuates
    (tryPromote { b with overlays := b.overlays.filter (· ≠ k), apps := b.apps.map (·.lift k) })

/-- An application starts to stream. -/
def startStreaming (c : Conditions) (app : AppId) (b : Board) : Turn :=
  match b.apps.record? app with
  | none => b.drop (.unknownApp app)
  | some r => settle c.policy.attenuates (b.modify app (·.lay r.capabilities.streamingOverlay))

/-- An application stops streaming. -/
def stopStreaming (c : Conditions) (app : AppId) (b : Board) : Turn :=
  match b.apps.record? app with
  | none => b.drop (.unknownApp app)
  | some r =>
    conclude c.policy.attenuates (tryPromote (b.modify app (·.lift r.capabilities.streamingOverlay)))

/-- Takes an event in. -/
def handle (c : Conditions) (id : Option CorrelationId) (e : Event) (b : Board) : Turn :=
  match e with
  | .voiceStarted => b.startOverlay c .voiceSession
  | .voiceStopped => b.stopOverlay c .voiceSession
  | .speechStarted => b.startOverlay c .speech
  | .speechStopped => b.stopOverlay c .speech
  | .signalled signal active =>
    match signal.overlay? with
    | none => b.keepSilent
    | some k => if active then b.startOverlay c k else b.stopOverlay c k
  | .streamingStarted app => b.startStreaming c app
  | .streamingStopped app => b.stopStreaming c app
  | .appActivated app => b.requestLevel c app .full id
  | .appDeactivated app => b.deactivate c app
  | .activationAnswered id answer => b.activationAnswered c id answer

/-- Carries a call out; `id` is the number drawn for it, if one was. -/
def perform (c : Conditions) (id : Option CorrelationId) (call : Call) (b : Board) : Turn :=
  match call with
  | .register p l => b.register c p l
  | .registerDefault p => b.register c p c.policy.entryLevel
  | .unregister app => b.unregister app
  | .setResuming app resuming => b.setResuming app resuming
  | .request app asked _ => b.request c app asked id
  | .requestAxes app l a v x => b.request c app ⟨l, a, v, x, .regular⟩ id
  | .requestLevel app l => b.requestLevel c app l id
  | .event e => b.handle c id e

/-- Drops the activations that have outlived the timeout, and tells which. -/
def expire (now : Moment) (timeout : Option UInt64) (b : Board) :
    List (CorrelationId × Activation) × Board :=
  let expired := b.pending.expire now timeout
  (expired.1, { b with pending := expired.2 })

end Board

end HeadUnit
