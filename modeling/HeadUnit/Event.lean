import HeadUnit.Ident
import HeadUnit.Overlay

/-! What comes in from the HMI and from mobile devices: a closed set of events. Names inside them
that mean nothing here are still read, and then ignored. -/

namespace HeadUnit

/-- What a general signal of the HMI is about. -/
inductive Signal
  | phoneCall
  | emergency
  | audioSource
  | embeddedNavi
  | hmiDeactivated
  /-- Any other name. -/
  | other
  deriving DecidableEq

/-- How the HMI answered a request. -/
inductive Answer
  | success | aborted | applicationNotRegistered | charLimitExceeded | dataNotAvailable | disallowed
  | duplicateName | genericError | ignored | invalidData | invalidEnum | invalidId | inUse
  | noAppsRegistered | noDevicesConnected | outOfMemory | rejected | retry | timedOut
  | tooManyPendingRequests | truncatedData | unsupportedRequest | unsupportedResource
  | userDisallowed | warnings | wrongLanguage
  /-- Any other code. -/
  | unknown
  deriving DecidableEq

/-- An event. -/
inductive Event
  | voiceStarted
  | voiceStopped
  | speechStarted
  | speechStopped
  /-- Something became active or ceased to be. -/
  | signalled (signal : Signal) (active : Bool)
  | streamingStarted (app : AppId)
  | streamingStopped (app : AppId)
  /-- The user brought an application to the front. -/
  | appActivated (app : AppId)
  /-- An application was sent away from the front. -/
  | appDeactivated (app : AppId)
  /-- The HMI answered an activation request. -/
  | activationAnswered (id : CorrelationId) (answer : Answer)
  deriving DecidableEq

namespace Signal

/-- The global overlay that the signal starts and stops. -/
def overlay? : Signal → Option Overlay
  | .phoneCall => some .phoneCall
  | .emergency => some .safetyMode
  | .audioSource | .embeddedNavi | .hmiDeactivated | .other => none

/-- The spelling on the wire. -/
def wireName : Signal → String
  | .phoneCall => "PHONE_CALL"
  | .emergency => "EMERGENCY_EVENT"
  | .audioSource => "AUDIO_SOURCE"
  | .embeddedNavi => "EMBEDDED_NAVI"
  | .hmiDeactivated => "DEACTIVATE_HMI"
  | .other => "OTHER"

/-- A signal toggles global overlays only. -/
theorem isGlobal_of_overlay? {s : Signal} {k : Overlay} (h : s.overlay? = some k) :
    k.isGlobal = true := by
  cases s <;> cases h <;> rfl

end Signal

namespace Answer

/-- Whether the HMI did what it was asked. -/
def isSuccess (a : Answer) : Bool := a = .success

/-- Every code once. -/
def all : List Answer :=
  [.success, .aborted, .applicationNotRegistered, .charLimitExceeded, .dataNotAvailable, .disallowed,
   .duplicateName, .genericError, .ignored, .invalidData, .invalidEnum, .invalidId, .inUse,
   .noAppsRegistered, .noDevicesConnected, .outOfMemory, .rejected, .retry, .timedOut,
   .tooManyPendingRequests, .truncatedData, .unsupportedRequest, .unsupportedResource,
   .userDisallowed, .warnings, .wrongLanguage, .unknown]

/-- The spelling on the wire. -/
def wireName : Answer → String
  | .success => "SUCCESS"
  | .aborted => "ABORTED"
  | .applicationNotRegistered => "APPLICATION_NOT_REGISTERED"
  | .charLimitExceeded => "CHAR_LIMIT_EXCEEDED"
  | .dataNotAvailable => "DATA_NOT_AVAILABLE"
  | .disallowed => "DISALLOWED"
  | .duplicateName => "DUPLICATE_NAME"
  | .genericError => "GENERIC_ERROR"
  | .ignored => "IGNORED"
  | .invalidData => "INVALID_DATA"
  | .invalidEnum => "INVALID_ENUM"
  | .invalidId => "INVALID_ID"
  | .inUse => "IN_USE"
  | .noAppsRegistered => "NO_APPS_REGISTERED"
  | .noDevicesConnected => "NO_DEVICES_CONNECTED"
  | .outOfMemory => "OUT_OF_MEMORY"
  | .rejected => "REJECTED"
  | .retry => "RETRY"
  | .timedOut => "TIMED_OUT"
  | .tooManyPendingRequests => "TOO_MANY_PENDING_REQUESTS"
  | .truncatedData => "TRUNCATED_DATA"
  | .unsupportedRequest => "UNSUPPORTED_REQUEST"
  | .unsupportedResource => "UNSUPPORTED_RESOURCE"
  | .userDisallowed => "USER_DISALLOWED"
  | .warnings => "WARNINGS"
  | .wrongLanguage => "WRONG_LANGUAGE"
  | .unknown => "UNKNOWN"

/-- The spelling in messages and dumps. -/
def title : Answer → String
  | .success => "Success"
  | .aborted => "Aborted"
  | .applicationNotRegistered => "ApplicationNotRegistered"
  | .charLimitExceeded => "CharLimitExceeded"
  | .dataNotAvailable => "DataNotAvailable"
  | .disallowed => "Disallowed"
  | .duplicateName => "DuplicateName"
  | .genericError => "GenericError"
  | .ignored => "Ignored"
  | .invalidData => "InvalidData"
  | .invalidEnum => "InvalidEnum"
  | .invalidId => "InvalidId"
  | .inUse => "InUse"
  | .noAppsRegistered => "NoAppsRegistered"
  | .noDevicesConnected => "NoDevicesConnected"
  | .outOfMemory => "OutOfMemory"
  | .rejected => "Rejected"
  | .retry => "Retry"
  | .timedOut => "TimedOut"
  | .tooManyPendingRequests => "TooManyPendingRequests"
  | .truncatedData => "TruncatedData"
  | .unsupportedRequest => "UnsupportedRequest"
  | .unsupportedResource => "UnsupportedResource"
  | .userDisallowed => "UserDisallowed"
  | .warnings => "Warnings"
  | .wrongLanguage => "WrongLanguage"
  | .unknown => "Unknown"

end Answer

/-- The tag that names the kind of an event. -/
def Event.tag : Event → String
  | .voiceStarted => "vr_started"
  | .voiceStopped => "vr_stopped"
  | .speechStarted => "tts_started"
  | .speechStopped => "tts_stopped"
  | .signalled .. => "event_changed"
  | .streamingStarted _ => "streaming_started"
  | .streamingStopped _ => "streaming_stopped"
  | .appActivated _ => "app_activated"
  | .appDeactivated _ => "app_deactivated"
  | .activationAnswered .. => "activate_app_response"

end HeadUnit
