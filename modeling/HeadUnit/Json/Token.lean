import HeadUnit.Json.Quoted

/-! The tokens of a JSON text. The text is cut character by character into punctuation, strings and
words; a word is a run of all other characters between blanks, and has to be a number or a name. -/

namespace HeadUnit.Json

/-- A token. -/
inductive Token
  | openArray | closeArray | openObject | closeObject | comma | colon
  | null
  | bool (b : Bool)
  | number (n : Number)
  | string (s : Str)

/-- The digits at the front of a text, at least one, and the rest. -/
def takeDigits? (cs : List Char) : Option (List Char × List Char) :=
  if (cs.takeWhile Char.isDigit).isEmpty then none
  else some (cs.takeWhile Char.isDigit, cs.dropWhile Char.isDigit)

/-- The digits before the point: a zero alone, or no zero in front. -/
def takeWhole? (cs : List Char) : Option (List Char × List Char) :=
  match takeDigits? cs with
  | some ('0' :: _ :: _, _) => none
  | r => r

/-- The fraction at the front of a text, if one begins there. -/
def takeFraction? : List Char → Option (Option (List Char) × List Char)
  | '.' :: r => (takeDigits? r).map fun p => (some p.1, p.2)
  | cs => some (none, cs)

/-- The exponent at the front of a text, if one begins there. -/
def takeExponent? : List Char → Option (Option (Bool × List Char) × List Char)
  | [] => some (none, [])
  | c :: r =>
    if c = 'e' ∨ c = 'E' then
      let signed : Bool × List Char := match r with
        | '-' :: r => (true, r)
        | '+' :: r => (false, r)
        | r => (false, r)
      (takeDigits? signed.2).map fun p => (some (signed.1, p.1), p.2)
    else some (none, c :: r)

/-- The number that a word writes. -/
def Number.ofWord? (cs : List Char) : Option Number := do
  let signed : Bool × List Char := match cs with
    | '-' :: r => (true, r)
    | cs => (false, cs)
  let (whole, r) ← takeWhole? signed.2
  let (fraction?, r) ← takeFraction? r
  let (exponent?, r) ← takeExponent? r
  if r.isEmpty then some { negative := signed.1, whole, fraction?, exponent? } else none

namespace Token

/-- The token of a punctuation character. -/
def ofPunctuation? : Char → Option Token
  | '[' => some .openArray
  | ']' => some .closeArray
  | '\x7b' => some .openObject
  | '\x7d' => some .closeObject
  | ',' => some .comma
  | ':' => some .colon
  | _ => none

/-- The token of a word. -/
def ofWord? (cs : List Char) : Option Token :=
  if cs = "null".toList then some .null
  else if cs = "true".toList then some (.bool true)
  else if cs = "false".toList then some (.bool false)
  else (Number.ofWord? cs).map .number

end Token

/-- The blanks of JSON: only four characters. -/
def isSpace (c : Char) : Bool := c = ' ' || c = '\n' || c = '\t' || c = '\r'

/-- What a scanner is in the middle of; texts are reversed. -/
inductive Scanning
  | between
  | word (seen : List Char)
  | quoted (seen : List Char)
  /-- Right after a backslash. -/
  | escaped (seen : List Char)

/-- A scanner: what it is in the middle of, and the tokens before, reversed. -/
structure Scanner where
  state : Scanning := .between
  tokens : List Token := []

namespace Scanner

/-- Ends the word that the scanner is in, if it is in one. -/
def endWord? (s : Scanner) : Option Scanner :=
  match s.state with
  | .word seen => (Token.ofWord? seen.reverse).map fun t => { tokens := t :: s.tokens }
  | _ => some s

/-- Takes a character outside of strings. -/
def stepOutside? (s : Scanner) (c : Char) : Option Scanner :=
  if isSpace c then s.endWord?
  else if c = '"' then s.endWord?.map fun s => { s with state := .quoted [] }
  else match Token.ofPunctuation? c with
    | some t => s.endWord?.map fun s => { s with tokens := t :: s.tokens }
    | none =>
      match s.state with
      | .word seen => some { s with state := .word (c :: seen) }
      | _ => some { s with state := .word [c] }

/-- Takes a character. Inside a string control characters are refused. -/
def step? (s : Scanner) (c : Char) : Option Scanner :=
  match s.state with
  | .quoted seen =>
    if c = '"' then (unquote? seen.reverse).map fun t => { tokens := .string t :: s.tokens }
    else if c = '\\' then some { s with state := .escaped seen }
    else if c < ' ' then none
    else some { s with state := .quoted (c :: seen) }
  | .escaped seen => some { s with state := .quoted (c :: '\\' :: seen) }
  | .between | .word _ => s.stepOutside? c

/-- The tokens, when the text is at its end; it must not end inside a string. -/
def finish? (s : Scanner) : Option (List Token) :=
  match s.state with
  | .between | .word _ => s.endWord?.map fun s => s.tokens.reverse
  | .quoted _ | .escaped _ => none

end Scanner

/-- The tokens of a text. -/
def tokens? (cs : List Char) : Option (List Token) :=
  (cs.foldlM Scanner.step? {}).bind Scanner.finish?

end HeadUnit.Json
