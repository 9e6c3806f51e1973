import HeadUnit.Json.Token

/-! Reading JSON: a machine over the tokens that keeps what is open on a stack. It is strict; after
the value nothing may follow. -/

namespace HeadUnit.Json

/-- An array or object that is still open, with what it holds so far, reversed. -/
inductive Frame
  | array (items : List Json)
  /-- An object, and the key whose value is being read. -/
  | member (members : List (Str × Json)) (key : Str)

/-- Where the machine is; `up` is what is open around that place, the innermost first. -/
inductive Machine
  /-- A value is due. -/
  | value (up : List Frame)
  /-- An array was opened. -/
  | firstItem (up : List Frame)
  /-- An object was opened. -/
  | firstKey (up : List Frame)
  /-- Another key of an object is due. -/
  | key (members : List (Str × Json)) (up : List Frame)
  /-- The colon after a key is due. -/
  | colon (members : List (Str × Json)) (key : Str) (up : List Frame)
  /-- A value was read. -/
  | after (v : Json) (up : List Frame)

namespace Machine

/-- Takes the first token of a value. -/
def startValue? (up : List Frame) : Token → Option Machine
  | .null => some (.after .null up)
  | .bool b => some (.after (.bool b) up)
  | .number n => some (.after (.number n) up)
  | .string s => some (.after (.string s) up)
  | .openArray => some (.firstItem up)
  | .openObject => some (.firstKey up)
  | .closeArray | .closeObject | .comma | .colon => none

/-- Takes a token. -/
def step? (m : Machine) (t : Token) : Option Machine :=
  match m, t with
  | .value up, t => startValue? up t
  | .firstItem up, .closeArray => some (.after (.array []) up)
  | .firstItem up, t => startValue? (.array [] :: up) t
  | .firstKey up, .closeObject => some (.after (.object []) up)
  | .firstKey up, .string k => some (.colon [] k up)
  | .key ms up, .string k => some (.colon ms k up)
  | .colon ms k up, .colon => some (.value (.member ms k :: up))
  | .after v (.array xs :: up), .comma => some (.value (.array (v :: xs) :: up))
  | .after v (.array xs :: up), .closeArray => some (.after (.array (v :: xs).reverse) up)
  | .after v (.member ms k :: up), .comma => some (.key ((k, v) :: ms) up)
  | .after v (.member ms k :: up), .closeObject => some (.after (.object ((k, v) :: ms).reverse) up)
  | _, _ => none

/-- The value, when the tokens are at their end and nothing is open. -/
def finish? : Machine → Option Json
  | .after v [] => some v
  | _ => none

end Machine

/-- The value that a text writes. -/
def read? (text : String) : Option Json :=
  (tokens? text.toList).bind fun ts => (ts.foldlM Machine.step? (.value [])).bind Machine.finish?

end HeadUnit.Json
