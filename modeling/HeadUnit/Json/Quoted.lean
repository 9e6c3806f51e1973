import HeadUnit.Json

/-! What stands between the quotes of a JSON string. -/

namespace HeadUnit.Json

/-- The value of a hexadecimal digit. -/
def hexDigit? (c : Char) : Option Nat :=
  if '0' ≤ c ∧ c ≤ '9' then some (c.toNat - '0'.toNat)
  else if 'a' ≤ c ∧ c ≤ 'f' then some (c.toNat - 'a'.toNat + 10)
  else if 'A' ≤ c ∧ c ≤ 'F' then some (c.toNat - 'A'.toNat + 10)
  else none

/-- The code that four hexadecimal digits write. -/
def hexCode? (a b c d : Char) : Option Nat :=
  match hexDigit? a, hexDigit? b, hexDigit? c, hexDigit? d with
  | some a, some b, some c, some d => some (((a * 16 + b) * 16 + c) * 16 + d)
  | _, _, _, _ => none

/-- The code that a character stands for after a backslash. -/
def shortEscape? : Char → Option Nat
  | '"' => some 0x22
  | '\\' => some 0x5C
  | '/' => some 0x2F
  | 'b' => some 0x08
  | 'f' => some 0x0C
  | 'n' => some 0x0A
  | 'r' => some 0x0D
  | 't' => some 0x09
  | _ => none

/-- The codes that a quoted text stands for, in front of which `seen` stands reversed: a character
    for its code point, a numbered escape for its 16-bit unit. Unknown escapes are refused. -/
def codes? (seen : List Nat) : List Char → Option (List Nat)
  | [] => some seen.reverse
  | '\\' :: 'u' :: a :: b :: c :: d :: r =>
    match hexCode? a b c d with
    | some n => codes? (n :: seen) r
    | none => none
  | '\\' :: e :: r =>
    match shortEscape? e with
    | some n => codes? (n :: seen) r
    | none => none
  | c :: r => if c = '\\' then none else codes? (c.toNat :: seen) r

/-- The first half of a surrogate pair. -/
def isHigh (n : Nat) : Bool := 0xD800 ≤ n && n < 0xDC00

/-- The second half of a surrogate pair. -/
def isLow (n : Nat) : Bool := 0xDC00 ≤ n && n < 0xE000

/-- The text that codes denote, in front of which `seen` stands reversed: two halves of a surrogate
    pair are one character, and a half alone denotes none. -/
def textOfCodes? (seen : List Char) : List Nat → Option (List Char)
  | [] => some seen.reverse
  | [n] => if isHigh n || isLow n then none else some (Char.ofNat n :: seen).reverse
  | n :: m :: r =>
    if isHigh n && isLow m then
      textOfCodes? (Char.ofNat (0x10000 + (n - 0xD800) * 0x400 + (m - 0xDC00)) :: seen) r
    else if isHigh n || isLow n then none
    else textOfCodes? (Char.ofNat n :: seen) (m :: r)

/-- Reads what stands between two quotes; refused are unknown escapes only. -/
def unquote? (cs : List Char) : Option Str :=
  (codes? [] cs).map fun ns => (textOfCodes? [] ns).map String.ofList

/-- The last two hexadecimal digits of a code below 256. -/
def hexPair (n : Nat) : List Char := [Nat.digitChar (n / 16 % 16), Nat.digitChar (n % 16)]

/-- A character as it is written between quotes. -/
def quoteChar (c : Char) : List Char :=
  if c = '"' then ['\\', '"']
  else if c = '\\' then ['\\', '\\']
  else if c < ' ' then ['\\', 'u', '0', '0'] ++ hexPair c.toNat
  else [c]

/-- A string with its quotes. What denotes no text is written as a lone surrogate. -/
def quote : Str → String
  | some s => String.ofList ('"' :: s.toList.flatMap quoteChar ++ ['"'])
  | none => "\"\\ud800\""

end HeadUnit.Json
