/-! Overlays: conditions of the head unit or of one application that lie over an application's
regular status while they last. -/

namespace HeadUnit

/-- The kinds of overlay. -/
inductive Overlay
  /-- A voice recognition session. -/
  | voiceSession
  /-- Text is being spoken. -/
  | speech
  | phoneCall
  /-- An emergency put the head unit into safety mode. -/
  | safetyMode
  /-- A navigation application streams. -/
  | naviStreaming
  /-- Another application streams. -/
  | videoStreaming
  deriving DecidableEq

namespace Overlay

/-- Every kind once. -/
def all : List Overlay :=
  [.voiceSession, .speech, .phoneCall, .safetyMode, .naviStreaming, .videoStreaming]

/-- A blocking overlay defers the regular requests made while it lasts. -/
def isBlocking : Overlay → Bool
  | .voiceSession | .speech | .safetyMode => true
  | .phoneCall | .naviStreaming | .videoStreaming => false

/-- A global overlay lies over every application, a streaming one over the application that streams. -/
def isGlobal : Overlay → Bool
  | .voiceSession | .speech | .phoneCall | .safetyMode => true
  | .naviStreaming | .videoStreaming => false

/-- The spelling on the wire. -/
def wireName : Overlay → String
  | .voiceSession => "VR_SESSION"
  | .speech => "TTS_SESSION"
  | .phoneCall => "PHONE_CALL"
  | .safetyMode => "SAFETY_MODE"
  | .naviStreaming => "NAVI_STREAMING"
  | .videoStreaming => "VIDEO_STREAMING"

/-- The spelling in dumps. -/
def title : Overlay → String
  | .voiceSession => "VrSession"
  | .speech => "TtsSession"
  | .phoneCall => "PhoneCall"
  | .safetyMode => "SafetyMode"
  | .naviStreaming => "NaviStreaming"
  | .videoStreaming => "VideoStreaming"

end Overlay

end HeadUnit
