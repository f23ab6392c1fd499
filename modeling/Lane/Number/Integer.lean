set_option relaxedAutoImplicit false
set_option autoImplicit false

/-!
# Written integers

Integers in text: a sign, perhaps the mark of a base, and digits, which single underscores may
divide. The value has to fit into a word of 64 bits.

## Main definitions

* `Lane.Integer.unsigned`: the natural number of a text.
* `Lane.Integer.signed`: the integer of a text.
-/

namespace Lane

/-- Why a text stands for no integer. -/
inductive IntegerError where
  | malformed
  | outOfRange
  deriving DecidableEq, Repr, Inhabited

namespace Integer

/-- The power of two that the integers of a signed word stay below. -/
def signedBound : Nat := 0x8000000000000000

/-- The value of a digit. -/
def digit? (c : Char) : Option Nat :=
  if c.isDigit then some (c.toNat - 48)
  else if 'a' ≤ c ∧ c ≤ 'z' then some (c.toNat - 87)
  else if 'A' ≤ c ∧ c ≤ 'Z' then some (c.toNat - 55)
  else none

/-- The base that the mark at the start of a text gives, and the digits after it. -/
def splitBase : List Char → Nat × List Char
  | '0' :: c :: d :: rest =>
    if c.toLower = 'b' then (2, d :: rest)
    else if c.toLower = 'o' then (8, d :: rest)
    else if c.toLower = 'x' then (16, d :: rest)
    else (8, c :: d :: rest)
  | '0' :: rest => (8, rest)
  | cs => (10, cs)

/-- Whether every underscore stands between two digits; `after` tells whether it may stand here. -/
def dividesDigits (isHex : Bool) : Bool → List Char → Bool
  | _, [] => true
  | after, c :: rest =>
    if c = '_' then
      after && rest.head? ≠ none && rest.head?.all isDigit && dividesDigits isHex false rest
    else dividesDigits isHex (isDigit c) rest
where
  /-- Whether a character counts as a digit. -/
  isDigit (c : Char) : Bool :=
    c.isDigit || (isHex && ('a' ≤ c.toLower && c.toLower ≤ 'f'))

/-- Whether the underscores of a text that may have the mark of a base stand well. -/
def underscoresOk : List Char → Bool
  | '0' :: c :: rest =>
    if ['b', 'o', 'x'].contains c.toLower then dividesDigits (c.toLower = 'x') true rest
    else dividesDigits false false ('0' :: c :: rest)
  | cs => dividesDigits false false cs

/-- The value of digits in a base after the value `n`. -/
def digits (base : Nat) (divided : Bool) : List Char → Nat → Except IntegerError Nat
  | [], n => .ok n
  | c :: rest, n =>
    if divided ∧ c = '_' then digits base divided rest n
    else match digit? c with
      | none => .error .malformed
      | some d =>
        if base ≤ d then .error .malformed
        else if UInt64.size ≤ base * n + d then .error .outOfRange
        else digits base divided rest (base * n + d)

/-- The natural number of a text. Without a fixed base the text may have the mark of one, and
underscores. -/
def unsigned (base : Option Nat) (cs : List Char) : Except IntegerError Nat :=
  if cs = [] then .error .malformed
  else match base with
    | some b => digits b false cs 0
    | none => do
      let (b, rest) := splitBase cs
      let n ← digits b true rest 0
      if underscoresOk cs then return n else throw .malformed

/-- The integer of a text, which may have a sign. -/
def signed (base : Option Nat) (cs : List Char) : Except IntegerError Int :=
  let (negative, rest) := match cs with
    | '-' :: rest => (true, rest)
    | '+' :: rest => (false, rest)
    | _ => (false, cs)
  match unsigned base rest with
  | .error e => .error e
  | .ok n =>
    if negative then if n ≤ signedBound then .ok (-n) else .error .outOfRange
    else if n < signedBound then .ok n else .error .outOfRange

end Integer

end Lane
