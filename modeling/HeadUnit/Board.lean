import HeadUnit.Activation.Pending
import HeadUnit.Contention
import HeadUnit.Notice

/-! The board holds all that the head unit keeps: the registered applications, the overlays that lie
over all of them, and the activations that await an answer. After a change it is settled: every
application whose effective status moved away from what it was last told is told. -/

namespace HeadUnit

namespace AppRecord

/-- What the application is owed. -/
def news (attenuates : Bool) (r : AppRecord) : List Notice :=
  Notice.ofChange r.app r.told (r.effective attenuates)

/-- Whether the application is owed anything. -/
def hasNews (attenuates : Bool) (r : AppRecord) : Bool := !(r.news attenuates).isEmpty

/-- The record once the application was told what it is owed. -/
def informed (attenuates : Bool) (r : AppRecord) : AppRecord :=
  if r.hasNews attenuates then r.withTold (r.effective attenuates) else r

theorem hasNews_iff {a : Bool} {r : AppRecord} :
    r.hasNews a = true ↔ r.told.sameAxes (r.effective a) = false := by
  rw [hasNews, Bool.not_eq_true', List.isEmpty_eq_false_iff, news, ne_eq, Notice.ofChange_eq_nil_iff,
    Bool.not_eq_true]

@[simp] theorem informed_app (a : Bool) (r : AppRecord) : (r.informed a).app = r.app := by
  unfold informed
  split <;> rfl

@[simp] theorem informed_effective (a b : Bool) (r : AppRecord) :
    (r.informed a).effective b = r.effective b := by
  unfold informed
  split <;> rfl

/-- Once told, the application knows its effective status. -/
theorem informed_told (a : Bool) (r : AppRecord) :
    (r.informed a).told.sameAxes (r.effective a) = true := by
  unfold informed
  split
  · exact Status.sameAxes_refl _
  · next h => simpa [hasNews_iff] using h

end AppRecord

/-- All that the head unit keeps. -/
structure Board where
  apps : Roster := []
  /-- The global overlays in the order in which they started. -/
  overlays : List Overlay := []
  pending : Pending := .empty
  deriving DecidableEq

/-- What the head unit did about a request or an event. -/
inductive Reply
  /-- It was carried out, and so many applications were told of a change. -/
  | applied (changed : Nat)
  /-- A blocking overlay is on, and the request waits for its end. -/
  | postponed
  /-- The HMI was asked under this number, and the request waits for its answer. -/
  | awaiting (id : CorrelationId)
  /-- It was dropped. -/
  | dropped (fault : Fault)
  deriving DecidableEq

/-- How many applications a reply reports as told of a change. -/
def Reply.changed : Reply → Nat
  | .applied n => n
  | .postponed | .awaiting _ | .dropped _ => 0

/-- The result of one turn over the board: the board after it, what has to be sent out, and the
    reply. -/
structure Turn where
  board : Board
  notices : List Notice := []
  reply : Reply
  deriving DecidableEq

namespace Board

/-- Whether a blocking overlay is on. -/
def isBlocked (b : Board) : Bool := b.overlays.any Overlay.isBlocking

/-- Whether an overlay of this kind is on, for all applications or for one. -/
def isUnder (k : Overlay) (b : Board) : Bool := b.overlays.contains k || b.apps.any (·.isUnder k)

/-- Drops a request. -/
def drop (f : Fault) (b : Board) : Turn where
  board := b
  reply := .dropped f

/-- Carries a request out that no application gets to see. -/
def keepSilent (b : Board) : Turn where
  board := b
  reply := .applied 0

/-- Tells every application what it is owed, in the order of the roster. -/
def settle (attenuates : Bool) (b : Board) : Turn where
  board := { b with apps := b.apps.map (·.informed attenuates) }
  notices := b.apps.flatMap (·.news attenuates)
  reply := .applied (b.apps.countP (·.hasNews attenuates))

/-- What the steps of a turn have made of a board: the board after them, or the fault of the one that
    failed, with the board as the steps before it left it. -/
abbrev Attempt := Except (Fault × Board) Board

/-- Gives an application the regular status it asks for, at the cost of the others. This fails if the
    application is not registered. -/
def tryArbitrate (app : AppId) (asked : Status) (b : Board) : Attempt :=
  match b.apps.assignments app asked with
  | .ok as => .ok { b with apps := b.apps.assign as }
  | .error f => .error (f, b)

/-- Ends a turn: every application is told what it is owed, unless a step failed. Then the request is
    dropped, and what the steps before had done stays. -/
def conclude (attenuates : Bool) : Attempt → Turn
  | .ok b => b.settle attenuates
  | .error (f, b) => b.drop f

/-- Changes the record of one application. -/
def modify (app : AppId) (f : AppRecord → AppRecord) (b : Board) : Board :=
  { b with apps := b.apps.modify app f }

end Board

end HeadUnit
