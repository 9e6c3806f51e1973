import HeadUnit.Axis
import HeadUnit.Event

/-! Why a request is refused. No fault is fatal. -/

namespace HeadUnit

/-- The cause for which a request is dropped. -/
inductive Fault
  /-- The requested status has an unknown value on this axis, the first such. -/
  | invalidStatus (app : AppId) (axis : Axis)
  | unknownApp (app : AppId)
  /-- No registered application has this number at the HMI. -/
  | unknownHmiApp (hmiApp : HmiAppId)
  /-- No activation is pending under this number. -/
  | unknownCorrelation (id : CorrelationId)
  /-- The HMI answered an activation request with something else than success. -/
  | refused (id : CorrelationId) (answer : Answer)
  /-- The HMI answered too late. -/
  | expired (id : CorrelationId)
  | alreadyRegistered (app : AppId)
  deriving DecidableEq

/-- The coarse classes of faults. -/
inductive FaultFamily
  /-- The request itself was malformed. -/
  | malformed
  /-- The request names something that does not exist. -/
  | unresolvable
  /-- The HMI declined an activation, or did not answer it in time. -/
  | handshake
  /-- The request conflicts with what is there. -/
  | conflict
  deriving DecidableEq

namespace Fault

/-- The class of a fault. -/
def family : Fault → FaultFamily
  | .invalidStatus .. => .malformed
  | .unknownApp _ | .unknownHmiApp _ | .unknownCorrelation _ => .unresolvable
  | .refused .. | .expired _ => .handshake
  | .alreadyRegistered _ => .conflict

/-- The fault in words. -/
def message : Fault → String
  | .invalidStatus app axis => "invalid state requested for app " ++ app.text ++ ": invalid " ++ axis.name
  | .unknownApp app => "app not found: " ++ app.text
  | .unknownHmiApp hmiApp => "no app with hmi id " ++ hmiApp.text
  | .unknownCorrelation id => "unknown correlation id: " ++ id.text
  | .refused id answer => "activation " ++ id.text ++ " rejected by HMI: " ++ answer.title
  | .expired id => "activation " ++ id.text ++ " expired before the HMI responded"
  | .alreadyRegistered app => "app already registered: " ++ app.text

end Fault

end HeadUnit
