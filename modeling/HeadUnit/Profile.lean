import HeadUnit.Ident
import HeadUnit.Status

/-! What an application declares when it registers, and what arbitration wants to know of it. -/

namespace HeadUnit

/-- The capabilities that an application declares. -/
structure Capabilities where
  media : Bool := false
  navigation : Bool := false
  /-- Projects the screen of a mobile device. -/
  projection : Bool := false
  voice : Bool := false
  deriving DecidableEq

/-- A registration: both numbers of the application and its capabilities. -/
structure Profile where
  app : AppId
  hmiApp : HmiAppId
  capabilities : Capabilities := {}
  deriving DecidableEq

namespace Capabilities

/-- Uses the audio output. -/
def isAudio (c : Capabilities) : Bool := c.media || c.navigation || c.voice

/-- May stream video to the head unit. -/
def isVideo (c : Capabilities) : Bool := c.navigation || c.projection

/-- Whether two applications compete for the same audio focus: both are without audio, or they have
    one of media, navigation and voice in common. -/
def sharesClass (c d : Capabilities) : Bool :=
  (!c.isAudio && !d.isAudio) || (c.media && d.media) || (c.navigation && d.navigation) ||
    (c.voice && d.voice)

/-- The overlay that lies over the application while it streams. -/
def streamingOverlay (c : Capabilities) : Overlay :=
  if c.navigation then .naviStreaming else .videoStreaming

/-- The regular status of an application at a level: in the foreground an audio application is
    audible and a video application streamable. -/
def statusAt (c : Capabilities) (l : Level) (x : Context) : Status where
  level := l
  audio := if l.isForeground && c.isAudio then .audible else .notAudible
  video := if l.isForeground && c.isVideo then .streamable else .notStreamable
  context := x

theorem sharesClass_comm (c d : Capabilities) : c.sharesClass d = d.sharesClass c := by
  simp only [sharesClass, Bool.and_comm]

/-- Only applications that both have audio, or both have none, share a class. -/
theorem isAudio_eq_of_sharesClass {c d : Capabilities} (h : c.sharesClass d = true) :
    c.isAudio = d.isAudio := by
  obtain ⟨m, n, _, v⟩ := c
  obtain ⟨m', n', _, v'⟩ := d
  simp only [sharesClass, isAudio] at h ⊢
  revert m n v m' n' v'
  decide

end Capabilities

end HeadUnit
