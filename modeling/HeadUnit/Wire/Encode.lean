import HeadUnit.Json
import HeadUnit.Profile
import HeadUnit.Settings
import HeadUnit.Wire.Name

/-! The JSON value of each type. -/

namespace HeadUnit

/-- A named value as its name. -/
def Named.toJson {α : Type} [Named α] (a : α) : Json := .ofString (Named.name a)

/-- An identifier as its number. -/
def Ident.toJson {k : IdentKind} (i : Ident k) : Json := .ofNat i.number.toNat

/-- A layer as a name, or as an object that names the overlay. -/
def Layer.toJson : Layer → Json
  | .current => .ofString "current"
  | .regular => .ofString "regular"
  | .overlay k => .ofMembers [("overlay", Named.toJson k)]

/-- A status as an object of its five fields. -/
def Status.toJson (s : Status) : Json :=
  .ofMembers
    [("level", Named.toJson s.level), ("audio", Named.toJson s.audio), ("video", Named.toJson s.video),
     ("context", Named.toJson s.context), ("kind", s.layer.toJson)]

/-- Capabilities as an object of four truth values. -/
def Capabilities.toJson (c : Capabilities) : Json :=
  .ofMembers
    [("media", .bool c.media), ("navigation", .bool c.navigation), ("projection", .bool c.projection),
     ("voice_communication", .bool c.voice)]

/-- A profile as an object. -/
def Profile.toJson (p : Profile) : Json :=
  .ofMembers
    [("app_id", p.app.toJson), ("hmi_app_id", p.hmiApp.toJson), ("capabilities", p.capabilities.toJson)]

/-- Settings as an object; without a timeout there is a null in its place. -/
def Settings.toJson (s : Settings) : Json :=
  .ofMembers
    [("attenuated_supported", .bool s.attenuates), ("default_hmi_level", Named.toJson s.entryLevel),
     ("activation_timeout_seconds", match s.timeout with
      | none => .null
      | some t => .ofNat t.toNat)]

/-- The fields of an event besides its tag. -/
def Event.fields : Event → List (String × Json)
  | .voiceStarted | .voiceStopped | .speechStarted | .speechStopped => []
  | .signalled signal active => [("event", Named.toJson signal), ("is_active", .bool active)]
  | .streamingStarted app | .streamingStopped app | .appActivated app | .appDeactivated app =>
    [("app_id", app.toJson)]
  | .activationAnswered id answer => [("correlation_id", id.toJson), ("result", Named.toJson answer)]

/-- An event as an object of its tag and its fields. -/
def Event.toJson (e : Event) : Json := .ofMembers (("type", .ofString e.tag) :: e.fields)

end HeadUnit
