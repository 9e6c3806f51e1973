import HeadUnit.Board.Turn

/-! The dump of a whole head unit: its settings and its board, on one line. -/

namespace HeadUnit

/-! ### Shapes -/

namespace Dump

/-- A text between braces. -/
def braced (s : String) : String := "\x7b" ++ s ++ "\x7d"

/-- A record: its name, and its fields between braces. -/
def record (name : String) (fields : List (String × String)) : String :=
  name ++ " " ++ braced (" " ++ ", ".intercalate (fields.map fun f => f.1 ++ ": " ++ f.2) ++ " ")

/-- A list. -/
def list (items : List String) : String := "[" ++ ", ".intercalate items ++ "]"

/-- A map from one text to another. -/
def map (items : List (String × String)) : String :=
  braced (", ".intercalate (items.map fun i => i.1 ++ ": " ++ i.2))

/-- A value that may be missing. -/
def option (s : Option String) : String :=
  match s with
  | none => "None"
  | some s => "Some(" ++ s ++ ")"

/-- A truth value. -/
def bool (b : Bool) : String := if b then "true" else "false"

end Dump

/-! ### Contents -/

/-- A layer in a dump. -/
def Layer.dump : Layer → String
  | .current => "Current"
  | .regular => "Regular"
  | .overlay k => "Overlay(" ++ k.title ++ ")"

/-- A status in a dump. -/
def Status.dump (s : Status) : String :=
  Dump.record "HmiState"
    [("level", s.level.title), ("audio", s.audio.title), ("video", s.video.title),
     ("context", s.context.title), ("kind", s.layer.dump)]

/-- Capabilities in a dump. -/
def Capabilities.dump (c : Capabilities) : String :=
  Dump.record "AppCapabilities"
    [("media", Dump.bool c.media), ("navigation", Dump.bool c.navigation),
     ("projection", Dump.bool c.projection), ("voice_communication", Dump.bool c.voice)]

/-- A profile in a dump. -/
def Profile.dump (p : Profile) : String :=
  Dump.record "AppProfile"
    [("app_id", p.app.dump), ("hmi_app_id", p.hmiApp.dump), ("capabilities", p.capabilities.dump)]

/-- The record of an application in a dump. -/
def AppRecord.dump (r : AppRecord) : String :=
  Dump.record "AppEntry"
    [("profile", r.profile.dump), ("regular", r.regular.dump),
     ("stack", Dump.list (r.overlays.map Overlay.title)),
     ("postponed", Dump.option (r.postponed?.map Status.dump)), ("resuming", Dump.bool r.resuming),
     ("notified", r.told.dump)]

/-- Settings in a dump. -/
def Settings.dump (s : Settings) : String :=
  Dump.record "ControllerConfig"
    [("attenuated_supported", Dump.bool s.attenuates), ("default_hmi_level", s.entryLevel.title),
     ("activation_timeout_seconds", Dump.option (s.timeout.map fun t => toString t.toNat))]

/-- A board in a dump. Activations carry moments of the clock and have no dump, so a board has one
    only while none is pending. -/
def Board.dump? (b : Board) : Option String :=
  if b.pending.isEmpty then
    some (Dump.record "Registry"
      [("apps", Dump.map (b.apps.map fun r => (r.app.dump, r.dump))),
       ("active", Dump.list (b.overlays.map Overlay.title)),
       ("pending", Dump.record "PendingActivations" [("entries", Dump.map [])])])
  else none

/-- The settings and the board in a dump; that there is more, which is not shown, is marked. -/
def Board.dumpWith? (settings : Settings) (b : Board) : Option String :=
  b.dump?.map fun text =>
    "StateController " ++
      Dump.braced (" config: " ++ settings.dump ++ ", registry: " ++ text ++ ", .. ")

end HeadUnit
