import HeadUnit.Text.Numeral

/-! JSON values as they are written: numbers stay literals, and the members of an object stay in
order, repeated keys included. A string whose escapes leave a surrogate without its partner denotes no
text, but it is still a string of the grammar. -/

namespace HeadUnit

namespace Json

/-- A number as it is written. -/
structure Number where
  negative : Bool := false
  /-- The digits before the point. -/
  whole : List Char
  /-- The digits after the point, where there is one. -/
  fraction? : Option (List Char) := none
  /-- The exponent: whether it is negative, and its digits. -/
  exponent? : Option (Bool × List Char) := none
  deriving DecidableEq

/-- A string: its text, if it denotes one. -/
abbrev Str := Option String

end Json

/-- A JSON value. -/
inductive Json
  | null
  | bool (b : Bool)
  | number (n : Json.Number)
  | string (s : Json.Str)
  | array (items : List Json)
  | object (members : List (Json.Str × Json))

namespace Json

/-- A text as a value. -/
def ofString (s : String) : Json := .string (some s)

/-- A natural number as a value. -/
def ofNat (n : Nat) : Json := .number { whole := Nat.toDigits 10 n }

/-- An object with these members. -/
def ofMembers (ms : List (String × Json)) : Json := .object (ms.map fun m => (some m.1, m.2))

namespace Number

/-- The natural number that is written without sign, point and exponent. -/
def natural? (n : Number) : Option Nat :=
  if n.negative = false ∧ n.fraction? = none ∧ n.exponent? = none then some (Text.digitsValue n.whole)
  else none

/-- The integer that is written without point and exponent. There is no negative zero among the
    integers. -/
def integer? (n : Number) : Option Int :=
  if n.fraction? = none ∧ n.exponent? = none then
    let v := Text.digitsValue n.whole
    if n.negative then (if v = 0 then none else some (-(v : Int))) else some (v : Int)
  else none

/-! ### Magnitude -/

/-- Takes digits into a significand as long as it stays within 64 bits; also the digits left over. -/
def gather : Nat → List Char → Nat × List Char
  | s, [] => (s, [])
  | s, d :: ds =>
    let s' := 10 * s + (d.toNat - '0'.toNat)
    if s' < UInt64.size then gather s' ds else (s, d :: ds)

/-- The nearest number with a significand of 53 bits; of two that are equally near, the even one. -/
def round53 (n : Nat) : Nat :=
  let unit := Nat.pow 2 (n.log2 + 1 - 53)
  let q := n / unit
  let r := n % unit
  (if 2 * r > unit ∨ (2 * r = unit ∧ q % 2 = 1) then q + 1 else q) * unit

/-- The least number that rounds to infinity: halfway between the largest finite one, with 53 bits up
    to the place 1023, and the next that would follow it. -/
def infinite : Nat := Nat.pow 2 1024 - Nat.pow 2 970

/-- Whether the number stays finite when it is held as a 64-bit significand times a power of ten, both
    rounded to 53 bits and multiplied. Digits before the point that do not fit raise the exponent,
    those after it are dropped. -/
def isFinite (n : Number) : Bool :=
  let fraction := n.fraction?.getD []
  let w := gather 0 n.whole
  let f := gather w.1 fraction
  let written : Int := match n.exponent? with
    | none => 0
    | some (negative, ds) => if negative then -(Text.digitsValue ds : Int) else Text.digitsValue ds
  let exponent : Int := written + w.2.length - (fraction.length - f.2.length : Nat)
  f.1 = 0 || exponent < 0 ||
    (exponent ≤ 308 && round53 f.1 * round53 (Nat.pow 10 exponent.toNat) < infinite)

end Number

/-- How deep arrays and objects may lie in each other in a value that is stored. -/
def depthLimit : Nat := 127

/-- Whether a value can be stored, and not only skipped: every string denotes a text, every number is
    finite, and arrays and objects lie in each other at most `depth` deep. -/
def isStorable : Nat → Json → Bool
  | _, .null | _, .bool _ => true
  | _, .number n => n.isFinite
  | _, .string s => s.isSome
  | 0, .array _ | 0, .object _ => false
  | depth + 1, .array xs => xs.all fun x => isStorable depth x
  | depth + 1, .object ms => ms.all fun m => m.1.isSome && isStorable depth m.2

end Json

end HeadUnit
