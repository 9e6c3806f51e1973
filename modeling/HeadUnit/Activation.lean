import HeadUnit.Status
import HeadUnit.Ident

/-! Activations. To bring an application to the front the HMI is asked first: the request goes out
under a fresh number, and the status asked for waits until the HMI answers under that number. -/

namespace HeadUnit

/-- A moment, in milliseconds since the Unix epoch. -/
abbrev Moment := Int

/-- What the HMI is sent. -/
structure ActivationRequest where
  id : CorrelationId
  app : AppId
  hmiApp : HmiAppId
  level : Level
  deriving DecidableEq

/-- A request that was sent and awaits its answer. -/
structure Activation where
  app : AppId
  /-- The number by which the application is found again when the answer comes. -/
  hmiApp : HmiAppId
  /-- The regular status that a successful answer brings. -/
  target : Status
  askedAt : Moment
  deriving DecidableEq

namespace Activation

/-- The age in whole seconds; the fraction of a second is cut off on either side of zero. -/
def age (now : Moment) (a : Activation) : Int := (now - a.askedAt).tdiv 1000

/-- Whether the request is as old as the timeout, which is in seconds. A request of the future has
    not expired, and without a timeout none ever does. -/
def isExpired (now : Moment) (timeout : Option UInt64) (a : Activation) : Bool :=
  match timeout with
  | none => false
  | some t => decide (0 ≤ a.age now) && decide ((t.toNat : Int) ≤ a.age now)

@[simp] theorem isExpired_none (now : Moment) (a : Activation) : a.isExpired now none = false := rfl

end Activation

end HeadUnit
