import Lane.Number.Integer
import Lane.Text.RawText
import Lane.Yaml.Node
import Lane.Yaml.Time

set_option relaxedAutoImplicit false
set_option autoImplicit false

/-!
# The values of YAML scalars

A scalar without quotes stands for nothing, a truth value, a number or a time if it is written like
one, and for its text otherwise. A tag may ask for one of these.

## Main definitions

* `Lane.Text.base64?`: the bytes of a text.
* `Lane.Text.base64`: the text of some bytes.
* `Lane.Yaml.Value`: the values of scalars.
* `Lane.Yaml.Value.ofPlain`: the value of a text without quotes.
* `Lane.Yaml.Value.ofScalar`: the value of a scalar.
-/

/-! ## Base64

Bytes in text: four characters stand for three bytes, and the last group is filled up with `=`. Line
breaks do not count. -/

namespace Lane.Text

/-- The value of a character, which is six bits. -/
def sixBits? (c : Char) : Option Nat :=
  if 'A' ≤ c ∧ c ≤ 'Z' then some (c.toNat - 65)
  else if 'a' ≤ c ∧ c ≤ 'z' then some (c.toNat - 71)
  else if c.isDigit then some (c.toNat + 4)
  else if c = '+' then some 62
  else if c = '/' then some 63
  else none

/-- The bytes of groups of four characters. -/
def base64Groups? : List Char → Option (List UInt8)
  | [] => some []
  | [a, b, '=', '='] => do
    let n := 64 * (← sixBits? a) + (← sixBits? b)
    return [UInt8.ofNat (n / 16)]
  | [a, b, c, '='] => do
    let n := 4096 * (← sixBits? a) + 64 * (← sixBits? b) + (← sixBits? c)
    return [UInt8.ofNat (n / 1024), UInt8.ofNat (n / 4)]
  | a :: b :: c :: d :: rest => do
    let n := 4096 * (← sixBits? a) + 64 * (← sixBits? b) + (← sixBits? c)
    let m := 64 * n + (← sixBits? d)
    let more ← base64Groups? rest
    return UInt8.ofNat (m / 65536) :: UInt8.ofNat (m / 256) :: UInt8.ofNat m :: more
  | _ => none

/-- The bytes of a text. -/
def base64? (s : String) : Option (List UInt8) :=
  base64Groups? (s.toList.filter fun c => c ≠ '\n' ∧ c ≠ '\r')

/-- The character of a number below sixty-four. -/
def sixBitChar (n : Nat) : Char :=
  if n < 26 then Char.ofNat (n + 65)
  else if n < 52 then Char.ofNat (n + 71)
  else if n < 62 then Char.ofNat (n - 4)
  else if n = 62 then '+' else '/'

/-- The characters of some bytes. -/
def base64Chars : List UInt8 → List Char
  | [] => []
  | [a] =>
    let n := a.toNat * 16
    [sixBitChar (n / 64), sixBitChar (n % 64), '=', '=']
  | [a, b] =>
    let n := (256 * a.toNat + b.toNat) * 4
    [sixBitChar (n / 4096), sixBitChar (n / 64 % 64), sixBitChar (n % 64), '=']
  | a :: b :: c :: rest =>
    let n := 65536 * a.toNat + 256 * b.toNat + c.toNat
    sixBitChar (n / 262144) :: sixBitChar (n / 4096 % 64) :: sixBitChar (n / 64 % 64)
      :: sixBitChar (n % 64) :: base64Chars rest

/-- The text of some bytes. -/
def base64 (bytes : List UInt8) : String := String.ofList (base64Chars bytes)

end Lane.Text

namespace Lane.Yaml

/-- The values of scalars. -/
inductive Value where
  | null
  | bool (b : Bool)
  | int (n : Int)
  | float (x : Binary64)
  | time (t : Time)
  | text (s : RawText)
  deriving DecidableEq, Repr, Inhabited

/-- The tag of a value. -/
def Value.tag : Value → String
  | .null => "!!null"
  | .bool _ => "!!bool"
  | .int _ => "!!int"
  | .float _ => "!!float"
  | .time _ => "!!timestamp"
  | .text _ => "!!str"

/-! ## Numbers -/

/-- Whether a text is a decimal number: digits with a point among or around them, and perhaps an
exponent. -/
def isDecimal (s : String) : Bool :=
  let cs := s.toList
  let cs := if cs.head? = some '-' ∨ cs.head? = some '+' then cs.tail else cs
  (Decimal.ofDigits? cs).isSome

/-- The finite number of a text. -/
def decimal? (s : String) : Option Value :=
  match Binary64.ofText? s with
  | some x => if isDecimal s ∧ !x.isInfinite then some (.float x) else none
  | none => none

/-- A text without its underscores. -/
def withoutUnderscores (s : String) : String := String.ofList (s.toList.filter (· ≠ '_'))

/-- The finite number of a text where underscores may stand between digits. -/
def dividedDecimal? (s : String) : Option Value :=
  if Integer.underscoresOk s.toList then decimal? (withoutUnderscores s) else none

/-- The integer of a text after the mark of a base, where a sign may follow the mark. -/
def marked? (s : String) : Option Int :=
  match s.toList with
  | '0' :: 'b' :: rest => (Integer.signed (some 2) rest).toOption
  | '0' :: 'o' :: rest => (Integer.signed (some 8) rest).toOption
  | _ => none

/-- The number of a text without underscores. -/
def number? (s : String) : Option Value :=
  match Integer.signed none s.toList, Integer.unsigned none s.toList with
  | .ok n, _ => some (.int n)
  | .error _, .ok n => some (.int n)
  | .error _, .error _ => decimal? s <|> (marked? s).map .int

/-- The value of a word that has one. -/
def word? (s : String) : Option Value :=
  if ["", "~", "null", "Null", "NULL"].contains s then some .null
  else if ["true", "True", "TRUE"].contains s then some (.bool true)
  else if ["false", "False", "FALSE"].contains s then some (.bool false)
  else if [".nan", ".NaN", ".NAN"].contains s then some (.float .nan)
  else if [".inf", ".Inf", ".INF", "+.inf", "+.Inf", "+.INF"].contains s then
    some (.float (.infinity false))
  else if ["-.inf", "-.Inf", "-.INF"].contains s then some (.float (.infinity true))
  else none

namespace Value

/-- The value of a text without quotes. Times are known only if no tag but that of times is
there. -/
def ofPlain (s : String) (timesKnown : Bool) : Value :=
  match word? s with
  | some v => v
  | none =>
    match s.toList.head? with
    | some c =>
      if c = '.' then (dividedDecimal? s).getD (.text s)
      else if c.isDigit || c = '-' || c = '+' then
        match if timesKnown then Time.ofText? s else none with
        | some t => .time t
        | none => (number? (withoutUnderscores s)).getD (.text s)
      else .text s
    | none => .text s

/-- The double nearest to an integer. -/
def floatOfInt (n : Int) : Binary64 := Binary64.ofFraction (n < 0) ⟨n.natAbs, 1⟩

/-- The text of bytes in base64. -/
def ofBinary (s : String) : Except Failure Value :=
  match Text.base64? s with
  | some bytes => .ok (.text (.ofBytes bytes))
  | none => .error .notBinary

/-- The tags of the values that have a form of their own. -/
def formTags : List String := ["", "!!bool", "!!int", "!!float", "!!null", "!!timestamp"]

/-- The value of a scalar with a tag, which may be empty. Tags that ask for no form make it a
text. An integer is a float too if it fits into a signed word. -/
def ofTagged (tag s : String) : Except Failure Value :=
  if tag = "!!binary" then ofBinary s
  else if tag ∉ formTags then .ok (.text s)
  else
    let v := ofPlain s (tag = "" || tag = "!!timestamp")
    if tag = "" ∨ tag = v.tag then .ok v
    else match tag, v with
      | "!!float", .int n =>
        if n < Integer.signedBound then .ok (.float (floatOfInt n))
        else .error (.wrongTag v.tag s tag)
      | _, _ => .error (.wrongTag v.tag s tag)

/-- The tag of a scalar: the one that is written, or the one of its form. Quotes and blocks make it
a text, and `<<` alone is the mark of a merge. -/
def tagOf (tag s : String) (style : Style) : String :=
  if tag ≠ "" then tag
  else if style ≠ .plain then "!!str"
  else if s = "<<" then "!!merge"
  else (ofPlain s true).tag

/-- The value of a scalar. -/
def ofScalar (tag s : String) (style : Style) : Except Failure Value :=
  ofTagged (tagOf tag s style) s

end Value

end Lane.Yaml
