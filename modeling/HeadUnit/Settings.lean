import HeadUnit.Axis
import HeadUnit.Text.Blank
import HeadUnit.Text.Numeral

/-! Settings, and how they are read from a look-up of texts by key. A text that cannot be read leaves
the default in place. -/

namespace HeadUnit

/-- What the policy answers. -/
structure Policy where
  /-- The head unit can attenuate audio. -/
  attenuates : Bool := false
  /-- The level at which an application starts that is registered without one. It is asked for with the
      profile at hand, but need not depend on it: the host may change its policy before every call, and a
      call without a level is a call with this one, so every profile can still get a level of its own. -/
  entryLevel : Level := .absent
  deriving DecidableEq

/-- The settings: a policy, and how many seconds an activation may wait for its answer; without a
    timeout it waits for ever. -/
structure Settings extends Policy where
  timeout : Option UInt64 := some 10
  deriving DecidableEq

/-- The level that a text names, whatever its case and the blanks around it. Unknown texts and the
    marker `INVALID` name none. -/
def Level.ofText? (s : String) : Option Level :=
  match String.ofList ((Text.trim s.toList).map Char.toUpper) with
  | "NONE" => some .absent
  | "BACKGROUND" => some .background
  | "LIMITED" => some .limited
  | "FULL" => some .full
  | _ => none

namespace Settings

/-- The switch that a text names. Only ASCII letters have to be made small: no other character has a
    small form that occurs in one of these words. -/
def switch? (s : String) : Option Bool :=
  match String.ofList ((Text.trim s.toList).map Char.toLower) with
  | "true" | "1" | "yes" => some true
  | "false" | "0" | "no" => some false
  | _ => none

/-- The timeout that a text names: `none` in any case, or an unsigned 64-bit numeral. -/
def timeout? (s : String) : Option (Option UInt64) :=
  let cs := Text.trim s.toList
  if cs.map Char.toLower = "none".toList then some none
  else (Text.numeral? (UInt64.size - 1) cs).map fun n => some (UInt64.ofNat n)

/-- The key of the attenuation switch. -/
def attenuatesKey : String := "HMI_ATTENUATED_SUPPORTED"

/-- The key of the level at which applications start. -/
def entryLevelKey : String := "HMI_DEFAULT_LEVEL"

/-- The key of the timeout. -/
def timeoutKey : String := "HMI_ACTIVATION_TIMEOUT_SECS"

/-- The settings that a look-up gives. Each field depends on its own key alone. -/
def ofLookup (lookup : String → Option String) : Settings where
  attenuates := ((lookup attenuatesKey).bind switch?).getD false
  entryLevel := ((lookup entryLevelKey).bind Level.ofText?).getD .absent
  timeout := ((lookup timeoutKey).bind timeout?).getD (some 10)

end Settings

end HeadUnit
