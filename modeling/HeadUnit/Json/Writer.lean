import HeadUnit.Json.Quoted

/-! Writing JSON, without any blanks. -/

namespace HeadUnit.Json

/-- A number as it is written. -/
def Number.render (n : Number) : String :=
  String.ofList ((if n.negative then ['-'] else []) ++ n.whole ++
    (match n.fraction? with
      | none => []
      | some ds => '.' :: ds) ++
    (match n.exponent? with
      | none => []
      | some (negative, ds) => 'e' :: (if negative then ['-'] else []) ++ ds))

mutual

/-- A value as a text. -/
def render : Json → String
  | .null => "null"
  | .bool b => if b then "true" else "false"
  | .number n => n.render
  | .string s => quote s
  | .array xs => "[" ++ ",".intercalate (renderItems xs) ++ "]"
  | .object ms => "\x7b" ++ ",".intercalate (renderMembers ms) ++ "\x7d"

/-- The items of an array as texts. -/
def renderItems : List Json → List String
  | [] => []
  | x :: xs => render x :: renderItems xs

/-- The members of an object as texts. -/
def renderMembers : List (Str × Json) → List String
  | [] => []
  | m :: ms => renderMember m :: renderMembers ms

/-- A member of an object as a text. -/
def renderMember : Str × Json → String
  | (k, v) => quote k ++ ":" ++ render v

end

end HeadUnit.Json
