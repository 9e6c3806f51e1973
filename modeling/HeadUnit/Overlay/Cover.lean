import HeadUnit.Profile

/-! What an overlay makes of the status under it. An application's effective status is its regular
one with its overlays laid over it, the oldest lowest; each sees only the layer right under it, and
the system context shows through them all. -/

namespace HeadUnit

namespace Status

/-- Silenced, everything else kept. -/
def muted (s : Status) : Status := { s with audio := .notAudible }

/-- Under speech an audible foreground application with audio is attenuated, if the head unit can;
    any other is silenced. -/
def underSpeech (c : Capabilities) (attenuates : Bool) (s : Status) : Status :=
  { s with
    audio := if attenuates && c.isAudio && s.audio ≠ .notAudible && s.level.isForeground then .attenuated
      else .notAudible }

/-- The level under a phone call: a hidden application stays where it is, navigation and projection
    keep the foreground without the display, media steps back. -/
def levelUnderCall (c : Capabilities) (l : Level) : Level :=
  if l.isHidden then l
  else if c.navigation || c.projection then .limited
  else if c.media then .background
  else l

/-- Under a phone call everything is silent, and what ends up hidden streams no video. -/
def underCall (c : Capabilities) (s : Status) : Status :=
  { s with
    level := levelUnderCall c s.level
    audio := .notAudible
    video := if (levelUnderCall c s.level).isHidden then .notStreamable else s.video }

/-- In safety mode nothing is heard and nothing is streamed. -/
def inSafetyMode (s : Status) : Status := { s with audio := .notAudible, video := .notStreamable }

/-- While it streams, navigation keeps its audio and any other application is attenuated at most;
    video needs the capability for it. -/
def whileStreaming (c : Capabilities) (attenuates : Bool) (s : Status) : Status :=
  { s with
    audio := if c.navigation then s.audio
      else if s.audio ≠ .notAudible && attenuates then .attenuated
      else .notAudible
    video := if c.isVideo then s.video else .notStreamable }

end Status

namespace Overlay

/-- The status that one overlay makes of the layer under it. -/
def cover (k : Overlay) (c : Capabilities) (attenuates : Bool) (s : Status) : Status :=
  let covered := match k with
    | .voiceSession => s.muted
    | .speech => s.underSpeech c attenuates
    | .phoneCall => s.underCall c
    | .safetyMode => s.inSafetyMode
    | .naviStreaming | .videoStreaming => s.whileStreaming c attenuates
  covered.onLayer (.overlay k)

/-- The status that a stack of overlays, the lowest first, makes of a regular status. -/
def coverAll (stack : List Overlay) (c : Capabilities) (attenuates : Bool) (regular : Status) : Status :=
  stack.foldl (fun s k => k.cover c attenuates s) (regular.onLayer .regular)

@[simp] theorem cover_context (k : Overlay) (c : Capabilities) (a : Bool) (s : Status) :
    (k.cover c a s).context = s.context := by cases k <;> rfl

/-- The last overlay of a stack lies on top. -/
theorem coverAll_append (stack : List Overlay) (k : Overlay) (c : Capabilities) (a : Bool) (s : Status) :
    coverAll (stack ++ [k]) c a s = k.cover c a (coverAll stack c a s) := by
  simp [coverAll, List.foldl_append]

end Overlay

end HeadUnit
