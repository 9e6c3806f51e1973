import HeadUnit.Text.Blank
import HeadUnit.Text.Numeral

/-! Identifiers. An application is known under two numbers, one given by the middleware when it
registers and one that the HMI uses in its own messages; an activation request and its answer are
paired by a third. All three are 32-bit words of one shape, told apart by their kind. -/

namespace HeadUnit

/-- What an identifier names. -/
inductive IdentKind
  | app | hmiApp | correlation
  deriving DecidableEq

/-- A 32-bit identifier of one kind. -/
structure Ident (k : IdentKind) where
  number : UInt32
  deriving DecidableEq

/-- The middleware's number of an application. -/
abbrev AppId := Ident .app

/-- The HMI's number of an application. -/
abbrev HmiAppId := Ident .hmiApp

/-- The number that pairs an activation request with its answer. -/
abbrev CorrelationId := Ident .correlation

/-- Why a text is no identifier. -/
inductive IdentFault
  /-- There is nothing but blanks. -/
  | blank
  /-- The text, trimmed, is no unsigned 32-bit number. -/
  | notNumeric (text : String)
  deriving DecidableEq

/-- The fault in words. -/
def IdentFault.message : IdentFault → String
  | .blank => "identifier is empty"
  | .notNumeric text => "identifier is not a u32: " ++ text

/-- The fault in words, where it stands for a broken value of any type. -/
def IdentFault.valueMessage (f : IdentFault) : String := "invalid identifier: " ++ f.message

/-- The name of the identifier type in dumps. -/
def IdentKind.title : IdentKind → String
  | .app => "AppId"
  | .hmiApp => "HmiAppId"
  | .correlation => "CorrelationId"

namespace Ident
variable {k : IdentKind}

/-- The decimal form. -/
def text (i : Ident k) : String := toString i.number.toNat

/-- The form used in dumps: the type's name around the decimal form. -/
def dump (i : Ident k) : String := k.title ++ "(" ++ i.text ++ ")"

/-- The identifier written in a text: an unsigned 32-bit numeral between blanks. -/
def ofText (s : String) : Except IdentFault (Ident k) :=
  match Text.trim s.toList with
  | [] => .error .blank
  | c :: cs =>
    match Text.numeral? (UInt32.size - 1) (c :: cs) with
    | some n => .ok ⟨UInt32.ofNat n⟩
    | none => .error (.notNumeric (String.ofList (c :: cs)))

/-- The identifier after this one; the last one is followed by zero. -/
def next (i : Ident k) : Ident k := ⟨i.number + 1⟩

end Ident

end HeadUnit
