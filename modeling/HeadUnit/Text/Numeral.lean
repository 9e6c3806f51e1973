/-! Unsigned decimal numerals with a bound, as settings and identifiers are written. -/

namespace HeadUnit.Text

/-- The number that a run of decimal digits denotes, the most significant digit first. -/
def digitsValue (ds : List Char) : Nat :=
  ds.foldl (fun n d => 10 * n + (d.toNat - '0'.toNat)) 0

/-- The text without one leading plus sign. -/
def unsigned : List Char → List Char
  | '+' :: r => r
  | cs => cs

/-- The number that the text denotes: at most one plus sign, then at least one ASCII digit and
    nothing else, of a value not above `bound`. Leading zeros do not count towards the bound. -/
def numeral? (bound : Nat) (cs : List Char) : Option Nat :=
  let ds := unsigned cs
  if ds ≠ [] ∧ ds.all Char.isDigit = true ∧ digitsValue ds ≤ bound then some (digitsValue ds) else none

end HeadUnit.Text
