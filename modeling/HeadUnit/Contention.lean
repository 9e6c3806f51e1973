import HeadUnit.Fault
import HeadUnit.Roster

/-! Contention for the display and for audio focus. A request gives its application the status that
it asks for and pushes others back: one application at most holds the display, and in each class one
at most is limited or an audible foreground application. Every other application is judged by its own
regular status and the request alone, so the order of the applications does not matter. -/

namespace HeadUnit

/-- The level that is left to an application at level `held` by a request for level `asked` from an
    application with the capabilities `asker`. Sharing the asker's class, a limited application and an
    audio application in the foreground give way to a foreground request; otherwise only the display
    itself is lost, and audio stays limited. -/
def Level.leftBy (asker : Capabilities) (asked : Level) (c : Capabilities) (held : Level) : Level :=
  if asked.isForeground && asker.sharesClass c &&
      (held = .limited || (asker.isAudio && c.isAudio && held.isForeground)) then .background
  else if asked = .full && held = .full then
    if c.isAudio then .limited else .background
  else held

/-- The status after a demotion: limited, audio is audible and video kept, each if the application
    is capable of it; lower, there is neither. -/
def Status.demotedTo (l : Level) (c : Capabilities) (s : Status) : Status :=
  if l = .limited then
    { s with
      level := l
      audio := if c.isAudio then .audible else .notAudible
      video := if c.isVideo then s.video else .notStreamable }
  else { s with level := l, audio := .notAudible, video := .notStreamable }

/-- What a request leaves to another application, if it takes anything from it. -/
def Status.demotion? (asker : Capabilities) (asked : Status) (c : Capabilities) (held : Status) :
    Option Status :=
  let l := Level.leftBy asker asked.level c held.level
  if l = held.level then none else some (held.demotedTo l c)

/-- A new regular status for an application. -/
abbrev Assignment := AppId × Status

namespace Roster

/-- What a request decides: first the asker gets what it asked for, then each application that is
    demoted its new status, in the order of the roster. -/
def assignments (target : AppId) (asked : Status) (apps : Roster) : Except Fault (List Assignment) :=
  match apps.record? target with
  | none => .error (.unknownApp target)
  | some asker =>
    .ok ((target, asked) :: (apps.filter (·.app ≠ target)).filterMap fun r =>
      (Status.demotion? asker.capabilities asked r.capabilities r.regular).map fun s => (r.app, s))

/-- Carries assignments out, one after the other. -/
def assign (as : List Assignment) (apps : Roster) : Roster :=
  as.foldl (fun apps a => apps.modify a.1 (·.withRegular a.2)) apps

end Roster

end HeadUnit
