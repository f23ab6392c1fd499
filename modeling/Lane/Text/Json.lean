import Lane.Text.Quoted

set_option relaxedAutoImplicit false
set_option autoImplicit false

/-!
# JSON

Values of the JSON format and their text on several lines.

## Main definitions

* `Lane.Text.Json`: the values.
* `Lane.Text.Json.text`: a value as text.
-/

namespace Lane.Text

/-- The values of JSON. A number is kept as it is written. -/
inductive Json where
  | null
  | bool (b : Bool)
  | number (digits : String)
  | string (s : String)
  | list (items : List Json)
  | object (fields : List (String × Json))
  deriving Repr, Inhabited

namespace Json

/-- A natural number. -/
def nat (n : Nat) : Json := .number (toString n)

/-- A list, or nothing if it is empty. -/
def listOrNull (items : List Json) : Json := if items.isEmpty then .null else .list items

/-- A character of a string. Besides what the format requires, characters with a meaning in markup
and the line separators are escaped. -/
def escapeChar (c : Char) : String :=
  if c = '"' then "\\\""
  else if c = '\\' then "\\\\"
  else if c = '\n' then "\\n"
  else if c = '\r' then "\\r"
  else if c = '\t' then "\\t"
  else if c.toNat = 8 then "\\b"
  else if c.toNat = 12 then "\\f"
  else if c.toNat < 0x20 ∨ c = '<' ∨ c = '>' ∨ c = '&' ∨ c.toNat = 0x2028 ∨ c.toNat = 0x2029 then
    "\\u" ++ hex 4 c.toNat
  else c.toString

/-- A string between quotes. -/
def quote (s : String) : String := "\"" ++ String.join (s.toList.map escapeChar) ++ "\""

/-- The start of a line at a depth. -/
def newline (depth : Nat) : String := "\n" ++ String.ofList (List.replicate (2 * depth) ' ')

mutual

/-- A value as text, its further lines at a depth. -/
def write (depth : Nat) : Json → String
  | .null => "null"
  | .bool b => toString b
  | .number digits => digits
  | .string s => quote s
  | .list [] => "[]"
  | .list (x :: xs) =>
    "[" ++ newline (depth + 1) ++ write (depth + 1) x ++ writeItems (depth + 1) xs ++ newline depth
      ++ "]"
  | .object [] => "\x7b\x7d"
  | .object ((k, v) :: rest) =>
    "\x7b" ++ newline (depth + 1) ++ quote k ++ ": " ++ write (depth + 1) v
      ++ writeFields (depth + 1) rest ++ newline depth ++ "\x7d"

/-- Further items of a list. -/
def writeItems (depth : Nat) : List Json → String
  | [] => ""
  | x :: xs => "," ++ newline depth ++ write depth x ++ writeItems depth xs

/-- Further fields of an object. -/
def writeFields (depth : Nat) : List (String × Json) → String
  | [] => ""
  | (k, v) :: rest =>
    "," ++ newline depth ++ quote k ++ ": " ++ write depth v ++ writeFields depth rest

end

mutual

/-- The first number in a value that the format cannot write, such as an infinity. -/
def unwritable? : Json → Option String
  | .number digits => if digits.toList.getLast?.any Char.isDigit then none else some digits
  | .list items => unwritableIn? items
  | .object fields => unwritableField? fields
  | _ => none

/-- The first number in a list of values that the format cannot write. -/
def unwritableIn? : List Json → Option String
  | [] => none
  | x :: xs => unwritable? x <|> unwritableIn? xs

/-- The first number in a list of fields that the format cannot write. -/
def unwritableField? : List (String × Json) → Option String
  | [] => none
  | (_, v) :: rest => unwritable? v <|> unwritableField? rest

end

/-- A value as text on several lines. -/
def text (j : Json) : String := write 0 j

end Json

end Lane.Text
