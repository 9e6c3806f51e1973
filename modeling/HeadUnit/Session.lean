import HeadUnit.Board.Dump
import HeadUnit.Host
import HeadUnit.Outbox

/-! A session: a head unit in the hands of its host. A command does its work on the board, queues what
has to be sent out, and then the outbox is drained into the host. Commands that the host gives from
inside a delivery do their work at once, but what they queue is left to the drain that is under way,
so notices arrive in the order in which they were queued. -/

namespace HeadUnit

/-- A head unit with its settings, and its host. -/
structure Session where
  settings : Settings := {}
  board : Board := {}
  outbox : Outbox Notice := {}
  host : Host := {}

/-- What a delivery can change besides the outbox. -/
structure Scene where
  board : Board
  host : Host

namespace Session

/-! ### Looking at a session -/

/-- The policy in force: that of the host, or else the settings. -/
def policy (s : Session) : Policy := s.host.policy?.getD s.settings.toPolicy

/-- What a turn depends on. -/
def conditions (s : Session) : Conditions where
  policy := s.policy
  timeout := s.settings.timeout
  now := s.host.now

/-- The state of an application as it is shown. -/
def view (app : AppId) (s : Session) : AppView :=
  match s.board.apps.record? app with
  | none => {}
  | some r =>
    { current? := some (r.effective s.policy.attenuates)
      regular? := some r.regular
      postponed? := r.postponed?
      overlays := r.overlays }

/-- Whether a layer is active anywhere: the current and the regular always are. -/
def isActive (l : Layer) (s : Session) : Bool :=
  match l with
  | .current | .regular => true
  | .overlay k => s.board.isUnder k

/-! ### Commands -/

/-- Carries a call out on the board and queues what has to be sent out. -/
def enterCall (c : Call) (s : Session) : Session × Response :=
  let drawn : Option CorrelationId × Host :=
    if c.drawsId then (some s.host.drawId.1, s.host.drawId.2) else (none, s.host)
  let turn := s.board.perform s.conditions drawn.1 c
  ({ s with
      board := turn.board
      outbox := s.outbox.extend turn.notices
      host := drawn.2.noteTurn c turn },
    .reply turn.reply)

/-- Carries a command out, up to the delivery of what it queues. -/
def enter (c : Command) (s : Session) : Session × Response :=
  match c with
  | .call c => s.enterCall c
  | .expire =>
    let expired := s.board.expire s.host.now s.settings.timeout
    ({ s with board := expired.2 }, .count expired.1.length)
  | .isActive l => (s, .flag (s.isActive l))
  | .query app => (s, .view (s.view app))
  | .accept accepts => ({ s with host := { s.host with accepts } }, .done)
  | .queueIds ids =>
    ({ s with host := { s.host with queuedIds := s.host.queuedIds ++ ids } }, .done)
  | .setPolicy p =>
    match s.host.policy? with
    | some _ => ({ s with host := { s.host with policy? := some p } }, .flag true)
    | none => (s, .flag false)
  | .setClock now => ({ s with host := { s.host with now } }, .done)
  | .recall app => (s, .memory (s.host.memory app))
  | .forget =>
    ({ s with host := { s.host with received := [] } }, .count s.host.received.length)
  | .settings => (s, .settings s.settings)
  | .dump => (s, .dump (s.board.dumpWith? s.settings))
  | .mark _ => (s, .done)

/-- Carries out what the host commands from inside a delivery. -/
def enterInside (s : Session) (c : Command) : Session :=
  let entered := s.enter c
  { entered.1 with host := entered.1.host.noteInside c entered.2 }

@[simp] theorem enter_reactions (c : Command) (s : Session) :
    (s.enter c).1.host.reactions = s.host.reactions := by
  cases c with
  | call c =>
    simp only [enter, enterCall, Host.noteTurn]
    split <;> simp
  | setPolicy p =>
    simp only [enter]
    split <;> rfl
  | _ => rfl

theorem foldl_enterInside_reactions (cs : List Command) (s : Session) :
    (cs.foldl enterInside s).host.reactions = s.host.reactions := by
  induction cs generalizing s with
  | nil => rfl
  | cons c cs ih =>
    rw [List.foldl_cons, ih]
    exact enter_reactions c s

/-! ### Delivery -/

/-- Delivers a notice: the host receives it, then carries out its first reaction to it. An activation
    request that could not be sent is pending no longer; whether it could is settled before the
    reaction. -/
def deliver (settings : Settings) (n : Notice) (o : Outbox Notice) (x : Scene) :
    Outbox Notice × Scene :=
  let reaction := Reaction.useFirst n x.host.reactions
  let host := { x.host.receive n with reactions := reaction.2 }
  let s := reaction.1.foldl enterInside { settings, board := x.board, outbox := o, host }
  let board := match n with
    | .activate r =>
      if x.host.sends n then s.board else { s.board with pending := s.board.pending.remove r.id }
    | _ => s.board
  (s.outbox, { board, host := s.host })

/-- The host as a courier: every delivery that queues anything uses up a reaction. -/
def courier (settings : Settings) : Courier Notice Scene where
  deliver := deliver settings
  rank x := Reaction.remaining x.host.reactions
  settles n o x := by
    simp only [deliver, foldl_enterInside_reactions]
    rcases Reaction.useFirst_remaining n x.host.reactions with lt | eq
    · exact Or.inl lt
    · exact Or.inr (by simp [eq])

/-- Drains the outbox into the host. -/
def flush (s : Session) : Session :=
  let drained := s.outbox.drain (courier s.settings) ⟨s.board, s.host⟩
  { s with outbox := drained.1, board := drained.2.board, host := drained.2.host }

/-- Inside a delivery a flush does nothing, so there a command ends with its work on the board. -/
theorem flush_of_draining {s : Session} (h : s.outbox.draining = true) : s.flush = s := by
  simp [flush, Outbox.drain_of_draining h]

/-- Carries a command out and delivers what it queued. The log starts afresh. -/
def run (c : Command) (s : Session) : Session × Response :=
  let entered := enter c { s with host := { s.host with log := [] } }
  (entered.1.flush, entered.2)

end Session

end HeadUnit
