import HeadUnit.Board.Turn

/-! The host: what surrounds a head unit. It receives the notices and remembers them, hands out
correlation numbers, accepts or refuses to send activation requests, holds the clock and perhaps a
policy of its own. It may react to a notice by commands that it gives back to the head unit at once,
while the notice is still being delivered; what it will do so is laid down beforehand as a finite list
of reactions. -/

namespace HeadUnit

/-- What a host, or whoever stands outside, may have done. -/
inductive Command
  /-- A call that changes the board. -/
  | call (c : Call)
  /-- Drops the activations that have outlived the timeout. -/
  | expire
  /-- Asks whether a layer is active anywhere. -/
  | isActive (l : Layer)
  /-- Asks for the state of an application. -/
  | query (app : AppId)
  /-- From now on activation requests can, or cannot, be sent. -/
  | accept (accepts : Bool)
  /-- Numbers to hand out before the counter goes on. -/
  | queueIds (ids : List CorrelationId)
  /-- Changes the host's own policy. -/
  | setPolicy (p : Policy)
  /-- Sets the clock. -/
  | setClock (now : Moment)
  /-- Asks what the host remembers to have received. -/
  | recall (app : AppId)
  /-- Makes the host forget what it received. -/
  | forget
  /-- Asks for the settings. -/
  | settings
  /-- Asks for a dump. -/
  | dump
  /-- Does nothing; it only stands in the log. -/
  | mark (n : Nat)
  deriving DecidableEq

/-- The state of an application as it is shown; of an unknown one there is nothing to show. -/
structure AppView where
  current? : Option Status := none
  regular? : Option Status := none
  postponed? : Option Status := none
  overlays : List Overlay := []
  deriving DecidableEq

/-- What a host remembers: the statuses and the changes of level of one application, and the
    activation requests, resets and resumptions of all. -/
structure Memory where
  statuses : List Status
  changes : List (Level × Level)
  requests : List ActivationRequest
  resets : List AppId
  resumed : List AppId
  deriving DecidableEq

/-- What a command is answered. -/
inductive Response
  | reply (r : Reply)
  | count (n : Nat)
  | flag (b : Bool)
  | view (v : AppView)
  | memory (m : Memory)
  | settings (s : Settings)
  | dump (text : Option String)
  | done
  deriving DecidableEq

/-- What the log holds. -/
inductive LogEntry
  /-- A call had its turn over the board. -/
  | turn (c : Call) (t : Turn)
  /-- A notice was received. -/
  | notice (n : Notice)
  /-- A command was given from inside a delivery, and this was the answer. -/
  | inside (c : Command) (r : Response)
  deriving DecidableEq

/-- A planned reaction: to a notice for which it fires, as often as it has uses. -/
structure Reaction where
  fires : Notice → Bool
  uses : Nat := 1
  commands : List Command

/-- A host. -/
structure Host where
  /-- The host's own policy; without one the settings are the policy. -/
  policy? : Option Policy := none
  now : Moment := 0
  /-- Whether activation requests can be sent. -/
  accepts : Bool := true
  /-- The next number of the counter. -/
  nextId : CorrelationId := ⟨1⟩
  /-- Numbers to hand out before. -/
  queuedIds : List CorrelationId := []
  /-- What was received, the oldest first. -/
  received : List Notice := []
  reactions : List Reaction := []
  /-- What happened during the command under way. -/
  log : List LogEntry := []

/-! ### Triggers -/

/-- The kinds of notice. -/
inductive Topic
  | status | level | reset | resume | activate
  deriving DecidableEq

/-- The kind of a notice. -/
def Notice.topic : Notice → Topic
  | .status .. => .status
  | .level .. => .level
  | .reset _ => .reset
  | .resume _ => .resume
  | .activate _ => .activate

/-- A description of notices: their kind and, where it is given, their application and the level that
    they speak of. -/
structure Trigger where
  topic : Topic
  app? : Option AppId := none
  level? : Option Level := none
  deriving DecidableEq

/-- Whether a notice fits the description. -/
def Trigger.fires (t : Trigger) (n : Notice) : Bool :=
  n.topic = t.topic && t.app?.all (n.app = ·) && t.level?.all (n.level? = some ·)

/-! ### Reactions -/

namespace Reaction

/-- How many reactions are still to come. -/
def remaining : List Reaction → Nat
  | [] => 0
  | r :: rs => r.uses + remaining rs

/-- Uses the first reaction that has uses left and fires: its commands, and the list after it. -/
def useFirst (n : Notice) : List Reaction → List Command × List Reaction
  | [] => ([], [])
  | r :: rs =>
    if 0 < r.uses ∧ r.fires n = true then (r.commands, { r with uses := r.uses - 1 } :: rs)
    else
      let used := useFirst n rs
      (used.1, r :: used.2)

/-- Either a reaction is used up once, or there is nothing to do. -/
theorem useFirst_remaining (n : Notice) (rs : List Reaction) :
    remaining (useFirst n rs).2 < remaining rs ∨ useFirst n rs = ([], rs) := by
  induction rs with
  | nil => exact Or.inr rfl
  | cons r rs ih =>
    unfold useFirst
    split
    · next h =>
      refine Or.inl ?_
      simp only [remaining]
      omega
    · rcases ih with lt | eq
      · refine Or.inl ?_
        simp only [remaining] at lt ⊢
        omega
      · exact Or.inr (by simp [eq])

end Reaction

/-! ### What a host does -/

namespace Host

/-- Receives a notice. -/
def receive (n : Notice) (h : Host) : Host :=
  { h with received := h.received ++ [n], log := h.log ++ [.notice n] }

/-- Whether a notice can be sent on; only activation requests may fail. -/
def sends (n : Notice) (h : Host) : Bool :=
  match n with
  | .activate _ => h.accepts
  | _ => true

/-- Hands out a correlation number: a queued one, or that of the counter, which then goes on. -/
def drawId (h : Host) : CorrelationId × Host :=
  match h.queuedIds with
  | id :: ids => (id, { h with queuedIds := ids })
  | [] => (h.nextId, { h with nextId := h.nextId.next })

/-- Enters a turn in the log. -/
def noteTurn (c : Call) (t : Turn) (h : Host) : Host := { h with log := h.log ++ [.turn c t] }

/-- Enters a command given from inside a delivery in the log. -/
def noteInside (c : Command) (r : Response) (h : Host) : Host :=
  { h with log := h.log ++ [.inside c r] }

/-- What the host remembers. -/
def memory (app : AppId) (h : Host) : Memory where
  statuses := h.received.filterMap fun
    | .status a s => if a = app then some s else none
    | _ => none
  changes := h.received.filterMap fun
    | .level a old new => if a = app then some (old, new) else none
    | _ => none
  requests := h.received.filterMap fun
    | .activate r => some r
    | _ => none
  resets := h.received.filterMap fun
    | .reset a => some a
    | _ => none
  resumed := h.received.filterMap fun
    | .resume a => some a
    | _ => none

@[simp] theorem drawId_reactions (h : Host) : h.drawId.2.reactions = h.reactions := by
  unfold drawId
  split <;> rfl

end Host

end HeadUnit
