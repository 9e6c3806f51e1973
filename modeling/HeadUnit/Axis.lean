/-! The four axes of a status: display level, audio, video and system context. Each has a marker for
a value that nobody knows, so that a malformed request can be held, looked at and refused. -/

namespace HeadUnit

/-- How much of the head unit's focus an application holds. -/
inductive Level
  /-- No presence at all. -/
  | absent
  /-- Registered but not visible. -/
  | background
  /-- Visible or audible without holding the display. -/
  | limited
  /-- Owns the display. -/
  | full
  /-- Not a known level. -/
  | invalid
  deriving DecidableEq

/-- Whether an application's sound may be heard. -/
inductive Audio
  | notAudible
  /-- Heard quietly under another source. -/
  | attenuated
  | audible
  /-- Not a known audio mode. -/
  | invalid
  deriving DecidableEq

/-- Whether an application may stream video. -/
inductive Video
  | notStreamable
  | streamable
  /-- Not a known video mode. -/
  | invalid
  deriving DecidableEq

/-- What the head unit shows on top of the application. -/
inductive Context
  /-- The application's own screen. -/
  | main
  | voiceSession
  | menu
  /-- Another element of the HMI hides the application. -/
  | obscured
  | alert
  /-- Not a known context. -/
  | invalid
  deriving DecidableEq

/-- The axes themselves, in the order in which a status is checked. -/
inductive Axis
  | level | audio | video | context
  deriving DecidableEq

/-- The name of an axis in messages. -/
def Axis.name : Axis → String
  | .level => "hmi_level"
  | .audio => "audio_streaming_state"
  | .video => "video_streaming_state"
  | .context => "system_context"

namespace Level

/-- `FULL` and `LIMITED` are the foreground. -/
def isForeground : Level → Bool
  | .full | .limited => true
  | .absent | .background | .invalid => false

/-- `NONE` and `BACKGROUND` are hidden; an unknown level is neither hidden nor in the foreground. -/
def isHidden : Level → Bool
  | .absent | .background => true
  | .limited | .full | .invalid => false

/-- Whether this is a known level. -/
def isValid (l : Level) : Bool := l ≠ .invalid

/-- The spelling on the wire. -/
def wireName : Level → String
  | .absent => "NONE"
  | .background => "BACKGROUND"
  | .limited => "LIMITED"
  | .full => "FULL"
  | .invalid => "INVALID"

/-- The spelling in dumps. -/
def title : Level → String
  | .absent => "None"
  | .background => "Background"
  | .limited => "Limited"
  | .full => "Full"
  | .invalid => "Invalid"

end Level

namespace Audio

/-- Whether this is a known audio mode. -/
def isValid (a : Audio) : Bool := a ≠ .invalid

/-- The spelling on the wire. -/
def wireName : Audio → String
  | .notAudible => "NOT_AUDIBLE"
  | .attenuated => "ATTENUATED"
  | .audible => "AUDIBLE"
  | .invalid => "INVALID"

/-- The spelling in dumps. -/
def title : Audio → String
  | .notAudible => "NotAudible"
  | .attenuated => "Attenuated"
  | .audible => "Audible"
  | .invalid => "Invalid"

end Audio

namespace Video

/-- Whether this is a known video mode. -/
def isValid (v : Video) : Bool := v ≠ .invalid

/-- The spelling on the wire. -/
def wireName : Video → String
  | .notStreamable => "NOT_STREAMABLE"
  | .streamable => "STREAMABLE"
  | .invalid => "INVALID"

/-- The spelling in dumps. -/
def title : Video → String
  | .notStreamable => "NotStreamable"
  | .streamable => "Streamable"
  | .invalid => "Invalid"

end Video

namespace Context

/-- Whether this is a known context. -/
def isValid (c : Context) : Bool := c ≠ .invalid

/-- The spelling on the wire. -/
def wireName : Context → String
  | .main => "SYSCTXT_MAIN"
  | .voiceSession => "SYSCTXT_VRSESSION"
  | .menu => "SYSCTXT_MENU"
  | .obscured => "SYSCTXT_HMI_OBSCURED"
  | .alert => "SYSCTXT_ALERT"
  | .invalid => "Invalid"

/-- The spelling in dumps. -/
def title : Context → String
  | .main => "Main"
  | .voiceSession => "VrSession"
  | .menu => "Menu"
  | .obscured => "HmiObscured"
  | .alert => "Alert"
  | .invalid => "Invalid"

end Context

end HeadUnit
