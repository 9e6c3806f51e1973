import HeadUnit.Activation

/-! Notices: what leaves the head unit, one side effect each. -/

namespace HeadUnit

/-- One notice to the application manager. -/
inductive Notice
  /-- An application has a new effective status. -/
  | status (app : AppId) (now : Status)
  /-- An application's level changed. -/
  | level (app : AppId) (old new : Level)
  /-- An application fell to `NONE` and loses what it keeps only while visible. -/
  | reset (app : AppId)
  /-- The audio source returns to a resuming application. -/
  | resume (app : AppId)
  /-- The HMI is asked to bring an application to the front. -/
  | activate (request : ActivationRequest)
  deriving DecidableEq

namespace Notice

/-- The application that a notice is about. -/
def app : Notice → AppId
  | .status app _ | .level app _ _ | .reset app | .resume app => app
  | .activate r => r.app

/-- The level that a notice speaks of: the new one of a change. -/
def level? : Notice → Option Level
  | .status _ s => some s.level
  | .level _ _ new => some new
  | .activate r => some r.level
  | .reset _ | .resume _ => none

/-- What an application is owed when its effective status moves from `old` to `new`: nothing if the
    axes agree, else the status, the change of level and, at `NONE`, the reset. -/
def ofChange (app : AppId) (old new : Status) : List Notice :=
  if old.sameAxes new then []
  else [.status app new, .level app old.level new.level] ++
    (if new.level = .absent then [.reset app] else [])

theorem ofChange_eq_nil_iff {app : AppId} {old new : Status} :
    ofChange app old new = [] ↔ old.sameAxes new = true := by
  unfold ofChange
  split <;> simp_all

end Notice

end HeadUnit
