import Lane.Number.Binary

set_option relaxedAutoImplicit false
set_option autoImplicit false

/-!
# Decimals

A decimal is a natural number of digits and a power of ten. This module reads decimals, finds the
shortest one that stands for a binary number, and writes decimals with or without an exponent.

## Main definitions

* `Lane.Decimal`: digits and an exponent.
* `Lane.Decimal.ofDigits?`: read a number with an optional point and exponent.
* `Lane.BinaryFormat.shortest`: the decimal with the fewest digits that reads back.
* `Lane.Binary64.ofText?`: read a number with a sign.
* `Lane.NumberStyle`: when an exponent is written, and how.
-/

namespace Lane

/-- The number `digits * 10 ^ exponent`. -/
structure Decimal where
  digits : Nat
  exponent : Int
  deriving DecidableEq, Repr, Inhabited

/-- The number that a sequence of decimal digits stands for. -/
def digitsValue (cs : List Char) : Nat :=
  cs.foldl (fun n c => 10 * n + (c.toNat - '0'.toNat)) 0

namespace Decimal

/-- The value as a fraction. -/
def toFraction (d : Decimal) : Fraction := .scaled d.digits 10 d.exponent

/-- Written exponents stop growing at the first value that is not below this. -/
def exponentLimit : Nat := 10000

/-- The value of a written exponent, which stops growing at the limit. -/
def exponentValue (cs : List Char) : Nat :=
  cs.foldl (fun n c => if n < exponentLimit then 10 * n + (c.toNat - '0'.toNat) else n) 0

/-- The exponent after the mark `e`, if the text ends with it. -/
def exponentPart? : List Char → Option Int
  | [] => some 0
  | c :: rest =>
    if c == 'e' || c == 'E' then
      let (sign, ds) : Int × List Char := match rest with
        | '-' :: ds => (-1, ds)
        | '+' :: ds => (1, ds)
        | ds => (1, ds)
      if ds.isEmpty || !ds.all Char.isDigit then none else some (sign * exponentValue ds)
    else none

/-- Read an unsigned number: digits with an optional point among or around them, and an optional
exponent. -/
def ofDigits? (cs : List Char) : Option Decimal :=
  let whole := cs.takeWhile Char.isDigit
  let (frac, rest) := match cs.dropWhile Char.isDigit with
    | '.' :: more => (more.takeWhile Char.isDigit, more.dropWhile Char.isDigit)
    | more => ([], more)
  if whole.isEmpty && frac.isEmpty then none
  else (exponentPart? rest).map fun e => ⟨digitsValue (whole ++ frac), e - frac.length⟩

/-- The double nearest to a decimal with a sign. -/
def toBinary64 (negative : Bool) (d : Decimal) : Binary64 :=
  Binary64.ofFraction negative (if d.digits = 0 then ⟨0, 1⟩ else d.toFraction)

/-- Leave out zeros at the end of the digits. -/
def strip (d : Decimal) : Decimal :=
  let rec go : Nat → Nat → Int → Decimal
    | 0, n, e => ⟨n, e⟩
    | fuel + 1, n, e => if n ≠ 0 ∧ n % 10 = 0 then go fuel (n / 10) (e + 1) else ⟨n, e⟩
  go (Nat.toDigits 10 d.digits).length d.digits d.exponent

/-- The exponent of the first digit. -/
def leading (d : Decimal) : Int :=
  if d.digits = 0 then 0 else d.exponent + (Nat.toDigits 10 d.digits).length - 1

end Decimal

namespace BinaryFormat

/-- The exponent of ten of the first digit of a positive fraction. -/
def leadingPower (x : Fraction) : Int :=
  if x.num ≥ x.den then (Nat.toDigits 10 (x.num / x.den)).length - 1
  else
    let k := (Nat.toDigits 10 (x.den / x.num)).length
    if x.num * Nat.pow 10 (k - 1) ≥ x.den then -((k : Int) - 1) else -(k : Int)

/-- The reals that round to a number, as fractions, and whether the ends are among them. -/
structure Interval where
  low : Fraction
  high : Fraction
  closed : Bool

/-- The reals that round to `m * 2 ^ e`. -/
def interval (f : BinaryFormat) (m : Nat) (e : Int) : Interval :=
  let narrow := m = Nat.pow 2 f.fractionBits ∧ e > f.leastExponent
  let low := if narrow then Fraction.scaled (4 * m - 1) 2 (e - 2) else .scaled (2 * m - 1) 2 (e - 1)
  ⟨low, .scaled (2 * m + 1) 2 (e - 1), m % 2 = 0⟩

/-- Whether a fraction lies in an interval. -/
def Interval.contains (i : Interval) (x : Fraction) : Bool :=
  let below := i.low.num * x.den
  let here := x.num * i.low.den
  let above := i.high.num * x.den
  let here' := x.num * i.high.den
  if i.closed then decide (below ≤ here) && decide (here' ≤ above)
  else decide (below < here) && decide (here' < above)

/-- The nearest decimal with that many digits that lies in the interval of a fraction; halfway
between two of them, the one whose last digit is even. -/
def decimalWith? (x : Fraction) (i : Interval) (power : Int) (digits : Nat) : Option Decimal :=
  let e := power - digits + 1
  let scaledBy : Fraction :=
    if 0 ≤ e then ⟨x.num, x.den * Nat.pow 10 e.toNat⟩
    else ⟨x.num * Nat.pow 10 (-e).toNat, x.den⟩
  let d := scaledBy.num / scaledBy.den
  let r := scaledBy.num % scaledBy.den
  let down : Decimal := ⟨d, e⟩
  let up : Decimal := ⟨d + 1, e⟩
  match d != 0 && i.contains down.toFraction, i.contains up.toFraction with
  | true, true =>
    some (if 2 * r < scaledBy.den ∨ 2 * r = scaledBy.den ∧ d % 2 = 0 then down else up)
  | true, false => some down
  | false, true => some up
  | false, false => none

/-- The decimal with the fewest digits that rounds to the positive number `m * 2 ^ e`; of several,
the nearest to it. -/
def shortest (f : BinaryFormat) (m : Nat) (e : Int) : Decimal :=
  if m = 0 then ⟨0, 0⟩
  else
    let x := Fraction.scaled m 2 e
    let i := f.interval m e
    let power := leadingPower x
    (((List.range 17).findSome? fun n => decimalWith? x i power (n + 1)).getD ⟨m, e⟩).strip

end BinaryFormat

/-- How numbers are written: the exponents of the first digit written without an exponent, and the
least number of digits of a written exponent. -/
structure NumberStyle where
  least : Int
  bound : Int
  exponentWidth : Nat

namespace NumberStyle

/-- Text of a natural number of at least `width` digits. -/
def padded (width n : Nat) : String :=
  let ds := Nat.toDigits 10 n
  String.ofList (List.replicate (width - ds.length) '0' ++ ds)

/-- A decimal with an exponent: one digit, a point, the other digits, and the power of ten. -/
def scientific (width : Nat) (d : Decimal) : String :=
  let ds := Nat.toDigits 10 d.digits
  let x := d.leading
  let mantissa := match ds with
    | c :: rest => if rest.isEmpty then [c] else c :: '.' :: rest
    | [] => []
  String.ofList mantissa ++ (if x < 0 then "e-" else "e+") ++ padded width x.natAbs

/-- A decimal without an exponent. -/
def positional (d : Decimal) : String :=
  let ds := Nat.toDigits 10 d.digits
  if 0 ≤ d.exponent then String.ofList (ds ++ List.replicate d.exponent.toNat '0')
  else
    let places := (-d.exponent).toNat
    let full := List.replicate (places + 1 - ds.length) '0' ++ ds
    String.ofList (full.take (full.length - places) ++ '.' :: full.drop (full.length - places))

/-- A decimal in a style. -/
def write (style : NumberStyle) (d : Decimal) : String :=
  let x := d.leading
  if x < style.least ∨ x ≥ style.bound then scientific style.exponentWidth d else positional d

end NumberStyle

namespace Binary64

/-- Read a number: a decimal with an optional sign, an infinity, or no number. -/
def ofText? (s : String) : Option Binary64 :=
  let (negative, cs) : Bool × List Char := match s.toList with
    | '-' :: cs => (true, cs)
    | '+' :: cs => (false, cs)
    | cs => (false, cs)
  match (String.ofList cs).toLower with
  | "inf" | "infinity" => some (infinity negative)
  | "nan" => if cs.length = s.length then some nan else none
  | _ => (Decimal.ofDigits? cs).map (Decimal.toBinary64 negative)

/-- Write a number, the finite ones by `finite`. -/
def writeWith (finite : Decimal → String) (x : Binary64) : String :=
  match x.magnitude with
  | .nan => "NaN"
  | .infinite => if x.isNegative then "-Inf" else "+Inf"
  | .finite m e =>
    (if x.isNegative then "-" else "") ++ finite (BinaryFormat.double.shortest m e)

/-- Write a number with an exponent of at least two digits. -/
def scientific (x : Binary64) : String := x.writeWith (NumberStyle.scientific 2)

/-- Numbers from a ten-thousandth up to a million are written without an exponent. -/
def generalStyle : NumberStyle := ⟨-4, 6, 2⟩

/-- Write a number with an exponent where it is small or large. -/
def general (x : Binary64) : String := x.writeWith generalStyle.write

end Binary64

end Lane
