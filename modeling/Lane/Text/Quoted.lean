import Lane.Text.Printable

set_option relaxedAutoImplicit false
set_option autoImplicit false

/-!
# Quoted text

Messages show a piece of text between double quotes. Printable characters stand for themselves, the
quote and the backslash are escaped, and every other character is written by a short escape or by
its code point in hexadecimal.

## Main definitions

* `Lane.Text.hex`: a number in hexadecimal, padded with zeros.
* `Lane.Text.quote`: the quoted form of a text.
-/

namespace Lane.Text

/-- The lower-case hexadecimal digits of `n`. -/
def hexDigits (n : Nat) : String := String.ofList (Nat.toDigits 16 n)

/-- The text `s` with zeros before it up to `width` characters. -/
def padZeros (width : Nat) (s : String) : String :=
  String.ofList (List.replicate (width - s.length) '0') ++ s

/-- The lower-case hexadecimal digits of `n`, at least `width` of them. -/
def hex (width n : Nat) : String := padZeros width (hexDigits n)

/-- The escape of a character that has a short one. -/
def shortEscape? (c : Char) : Option String :=
  match c.toNat with
  | 7 => some "\\a"
  | 8 => some "\\b"
  | 9 => some "\\t"
  | 10 => some "\\n"
  | 11 => some "\\v"
  | 12 => some "\\f"
  | 13 => some "\\r"
  | _ => none

/-- How a character is written between quotes. -/
def quoteChar (c : Char) : String :=
  if c = '"' then "\\\""
  else if c = '\\' then "\\\\"
  else if isPrintable c then c.toString
  else match shortEscape? c with
    | some s => s
    | none =>
      if c.toNat < 0x20 ∨ c.toNat = 0x7F then "\\x" ++ hex 2 c.toNat
      else if c.toNat < 0x10000 then "\\u" ++ hex 4 c.toNat
      else "\\U" ++ hex 8 c.toNat

/-- A text between double quotes. -/
def quote (s : String) : String :=
  "\"" ++ String.join (s.toList.map quoteChar) ++ "\""

end Lane.Text
