import HeadUnit.Event
import HeadUnit.Status

/-! Names on the wire. The values of a plain type travel as names; some types have a marker that
stands for every name nobody knows. -/

namespace HeadUnit

/-- A type whose values have names on the wire. -/
class Named (α : Type) where
  /-- Every value once. -/
  values : List α
  name : α → String
  /-- What an unknown name stands for; without it, such a name is refused. -/
  unknown? : Option α

namespace Named

/-- The value that a name stands for. Names are compared letter by letter. -/
def ofName? {α : Type} [Named α] (s : String) : Option α :=
  ((values (α := α)).find? fun a => name a = s).or unknown?

end Named

instance : Named Level where
  values := [.absent, .background, .limited, .full, .invalid]
  name := Level.wireName
  unknown? := some .invalid

instance : Named Audio where
  values := [.notAudible, .attenuated, .audible, .invalid]
  name := Audio.wireName
  unknown? := some .invalid

instance : Named Video where
  values := [.notStreamable, .streamable, .invalid]
  name := Video.wireName
  unknown? := some .invalid

instance : Named Context where
  values := [.main, .voiceSession, .menu, .obscured, .alert, .invalid]
  name := Context.wireName
  unknown? := some .invalid

instance : Named Overlay where
  values := Overlay.all
  name := Overlay.wireName
  unknown? := none

instance : Named Signal where
  values := [.phoneCall, .emergency, .audioSource, .embeddedNavi, .hmiDeactivated, .other]
  name := Signal.wireName
  unknown? := some .other

instance : Named Answer where
  values := Answer.all
  name := Answer.wireName
  unknown? := some .unknown

end HeadUnit
