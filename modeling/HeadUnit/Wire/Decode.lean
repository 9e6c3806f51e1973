import HeadUnit.Json
import HeadUnit.Profile
import HeadUnit.Settings
import HeadUnit.Wire.Name

/-! Reading the types from JSON values. A record is read from an object, in any order of its members
and whatever else there is besides, or from an array of its fields in order; a named value from its
name, or from an object with the name as its only key and nothing under it. What a reader has no use
for it does not look at, except in an event: that is stored before its tag is known. -/

namespace HeadUnit

/-! ### Parts -/

namespace Wire

/-- How a value came to its reader: straight from the text, or out of a stored value. Stored, an empty
    object too counts as nothing. -/
inductive Source
  | text | stored
  deriving DecidableEq

/-- Whether there is nothing under a name. -/
def isUnit : Source → Json → Bool
  | _, .null => true
  | .stored, .object [] => true
  | _, _ => false

/-- The fields of a record, in the order of `names`, each with its value if it is there. No key of the
    record may be given twice, and no array may be longer than the record. -/
def fields? (names : List String) : Json → Option (List (Option Json))
  | .array xs =>
    if xs.length ≤ names.length then
      some (xs.map some ++ List.replicate (names.length - xs.length) none)
    else none
  | .object ms =>
    if (ms.all fun m => m.1.isSome) && names.all (fun n => (ms.countP fun m => m.1 = some n) ≤ 1) then
      some (names.map fun n => (ms.find? fun m => m.1 = some n).map Prod.snd)
    else none
  | _ => none

/-- A field that has a default. -/
def orDefault {α : Type} (default : α) (read? : Json → Option α) : Option Json → Option α
  | none => some default
  | some j => read? j

/-- A truth value. -/
def bool? : Json → Option Bool
  | .bool b => some b
  | _ => none

/-- A natural number not above `bound`. -/
def natural? (bound : Nat) : Json → Option Nat
  | .number n => n.natural?.filter (· ≤ bound)
  | _ => none

end Wire

open Wire

/-! ### Types -/

/-- A named value. -/
def Named.ofJson? {α : Type} [Named α] (source : Source) : Json → Option α
  | .string (some s) => ofName? s
  | .object [(some s, j)] => if isUnit source j then ofName? s else none
  | _ => none

/-- An identifier. -/
def Ident.ofJson? {k : IdentKind} (j : Json) : Option (Ident k) :=
  (natural? (UInt32.size - 1) j).map fun n => ⟨UInt32.ofNat n⟩

/-- A layer. -/
def Layer.ofJson? : Json → Option Layer
  | .string (some "current") => some .current
  | .string (some "regular") => some .regular
  | .object [(some "current", j)] => if isUnit .text j then some .current else none
  | .object [(some "regular", j)] => if isUnit .text j then some .regular else none
  | .object [(some "overlay", j)] => (Named.ofJson? .text j).map .overlay
  | _ => none

/-- A status; it is regular unless it has another layer. -/
def Status.ofJson? (j : Json) : Option Status :=
  match fields? ["level", "audio", "video", "context", "kind"] j with
  | some [some level, some audio, some video, some context, layer] => do
    some
      { level := ← Named.ofJson? .text level
        audio := ← Named.ofJson? .text audio
        video := ← Named.ofJson? .text video
        context := ← Named.ofJson? .text context
        layer := ← orDefault .regular Layer.ofJson? layer }
  | _ => none

/-- Capabilities; those not given are not there. -/
def Capabilities.ofJson? (j : Json) : Option Capabilities :=
  match fields? ["media", "navigation", "projection", "voice_communication"] j with
  | some [media, navigation, projection, voice] => do
    some
      { media := ← orDefault false bool? media
        navigation := ← orDefault false bool? navigation
        projection := ← orDefault false bool? projection
        voice := ← orDefault false bool? voice }
  | _ => none

/-- A profile; without capabilities it has none. -/
def Profile.ofJson? (j : Json) : Option Profile :=
  match fields? ["app_id", "hmi_app_id", "capabilities"] j with
  | some [some app, some hmiApp, capabilities] => do
    some
      { app := ← Ident.ofJson? app
        hmiApp := ← Ident.ofJson? hmiApp
        capabilities := ← orDefault {} Capabilities.ofJson? capabilities }
  | _ => none

/-- A timeout: null is none at all. -/
def Settings.timeoutOfJson? : Json → Option (Option UInt64)
  | .null => some none
  | j => (natural? (UInt64.size - 1) j).map fun n => some (UInt64.ofNat n)

/-- Settings; those not given have their defaults. -/
def Settings.ofJson? (j : Json) : Option Settings :=
  match fields? ["attenuated_supported", "default_hmi_level", "activation_timeout_seconds"] j with
  | some [attenuates, entryLevel, timeout] => do
    some
      { attenuates := ← orDefault false bool? attenuates
        entryLevel := ← orDefault .absent (Named.ofJson? .text) entryLevel
        timeout := ← orDefault (some 10) timeoutOfJson? timeout }
  | _ => none

/-! ### Events -/

namespace Event

/-- An event without fields: an object may hold what it likes, an array nothing. -/
def plain? (e : Event) : Json → Option Event
  | .object _ => some e
  | .array [] => some e
  | _ => none

/-- An event about one application. -/
def ofApp? (e : AppId → Event) (content : Json) : Option Event :=
  match fields? ["app_id"] content with
  | some [some app] => (Ident.ofJson? app).map e
  | _ => none

/-- The event with a given tag, from what there is besides the tag. -/
def ofTag? (tag : String) (content : Json) : Option Event :=
  match tag with
  | "vr_started" => plain? .voiceStarted content
  | "vr_stopped" => plain? .voiceStopped content
  | "tts_started" => plain? .speechStarted content
  | "tts_stopped" => plain? .speechStopped content
  | "event_changed" =>
    match fields? ["event", "is_active"] content with
    | some [some signal, some active] => do
      some (.signalled (← Named.ofJson? .stored signal) (← bool? active))
    | _ => none
  | "streaming_started" => ofApp? .streamingStarted content
  | "streaming_stopped" => ofApp? .streamingStopped content
  | "app_activated" => ofApp? .appActivated content
  | "app_deactivated" => ofApp? .appDeactivated content
  | "activate_app_response" =>
    match fields? ["correlation_id", "result"] content with
    | some [some id, some answer] => do
      some (.activationAnswered (← Ident.ofJson? id) (← Named.ofJson? .stored answer))
    | _ => none
  | _ => none

/-- An event: an object with its tag under the key `type`, given once, or an array that begins with
    the tag. -/
def ofJson? (j : Json) : Option Event :=
  if Json.isStorable Json.depthLimit j then
    match j with
    | .object ms =>
      match ms.filter fun m => m.1 = some "type" with
      | [(_, .string (some tag))] => ofTag? tag (.object (ms.filter fun m => m.1 ≠ some "type"))
      | _ => none
    | .array (.string (some tag) :: content) => ofTag? tag (.array content)
    | _ => none
  else none

end Event

end HeadUnit
