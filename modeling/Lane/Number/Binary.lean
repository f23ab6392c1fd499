set_option relaxedAutoImplicit false
set_option autoImplicit false

/-!
# Binary floating point

Reals are kept as words of a binary format. Rounding a fraction to a format is exact arithmetic on
natural numbers, to the nearest value and on a tie to the even one.

## Main definitions

* `Lane.BinaryFormat`: a binary interchange format.
* `Lane.BinaryFormat.nearest`: the word nearest to a fraction.
* `Lane.Magnitude`: the absolute value that a word stands for.
* `Lane.Binary64`: double precision.
-/

namespace Lane

/-- A binary interchange format: the bits of a significand and of an exponent. -/
structure BinaryFormat where
  precision : Nat
  exponentBits : Nat
  deriving DecidableEq, Repr

/-- The absolute value of a word. -/
inductive Magnitude where
  /-- The value `m * 2 ^ e`. -/
  | finite (m : Nat) (e : Int)
  | infinite
  | nan
  deriving DecidableEq, Repr

/-- A fraction of natural numbers. -/
structure Fraction where
  num : Nat
  den : Nat
  deriving DecidableEq, Repr

namespace Fraction

/-- The fraction `n * b ^ e`. -/
def scaled (n b : Nat) (e : Int) : Fraction :=
  if 0 ≤ e then ⟨n * Nat.pow b e.toNat, 1⟩ else ⟨n, Nat.pow b (-e).toNat⟩

/-- Equality of values. -/
def eq (a b : Fraction) : Bool := a.num * b.den == b.num * a.den

end Fraction

namespace BinaryFormat

/-- Double precision. -/
def double : BinaryFormat := ⟨53, 11⟩

/-- Single precision. -/
def single : BinaryFormat := ⟨24, 8⟩

/-- The exponent of the last place of the smallest numbers. -/
def leastExponent (f : BinaryFormat) : Int :=
  3 - (Nat.pow 2 (f.exponentBits - 1) : Nat) - f.precision

/-- The number of fraction bits in a word. -/
def fractionBits (f : BinaryFormat) : Nat := f.precision - 1

/-- The word of positive infinity. -/
def infinity (f : BinaryFormat) : Nat :=
  (Nat.pow 2 f.exponentBits - 1) * Nat.pow 2 f.fractionBits

/-- The word of the sign alone. -/
def signWord (f : BinaryFormat) : Nat := Nat.pow 2 (f.exponentBits + f.fractionBits)

/-- The quotient nearest to `num / den`, the even one of two equally near. -/
def divideEven (num den : Nat) : Nat :=
  let q := num / den
  let twice := 2 * (num % den)
  if twice > den ∨ (twice = den ∧ q % 2 = 1) then q + 1 else q

/-- The quotient of a fraction and a power of two. -/
def overPower (x : Fraction) (e : Int) : Fraction :=
  if 0 ≤ e then ⟨x.num, x.den * Nat.pow 2 e.toNat⟩ else ⟨x.num * Nat.pow 2 (-e).toNat, x.den⟩

/-- The exponent of the last place with which a fraction is written. -/
def exponentFor (f : BinaryFormat) (x : Fraction) : Int :=
  let guess : Int := (Nat.log2 x.num : Int) - Nat.log2 x.den - f.fractionBits
  let y := overPower x guess
  let e := if y.num / y.den < Nat.pow 2 f.fractionBits then guess - 1 else guess
  max e f.leastExponent

/-- The word of `q * 2 ^ e`, a significand that rounding carried over included. -/
def pack (f : BinaryFormat) (q : Nat) (e : Int) : Nat :=
  let unit := Nat.pow 2 f.fractionBits
  if q < unit then q else (e - f.leastExponent + 1).toNat * unit + (q - unit)

/-- The word nearest to a fraction, infinity where it is too large. -/
def nearest (f : BinaryFormat) (x : Fraction) : Nat :=
  if x.num = 0 then 0
  else
    let e := f.exponentFor x
    let y := overPower x e
    min (f.pack (divideEven y.num y.den) e) f.infinity

/-- Whether a word has its sign bit set. -/
def isNegative (f : BinaryFormat) (word : Nat) : Bool := word ≥ f.signWord

/-- The absolute value of a word. -/
def magnitude (f : BinaryFormat) (word : Nat) : Magnitude :=
  let w := word % f.signWord
  let unit := Nat.pow 2 f.fractionBits
  if w > f.infinity then .nan
  else if w = f.infinity then .infinite
  else if w < unit then .finite w f.leastExponent
  else .finite (w % unit + unit) (f.leastExponent + (w / unit : Nat) - 1)

end BinaryFormat

/-- A number of double precision, as its word. -/
structure Binary64 where
  bits : UInt64
  deriving DecidableEq, Repr, Inhabited

namespace Binary64

/-- Positive zero. -/
def zero : Binary64 := ⟨0⟩

/-- The number with a sign and an unsigned word. -/
def ofWord (negative : Bool) (word : Nat) : Binary64 :=
  ⟨UInt64.ofNat ((if negative then BinaryFormat.double.signWord else 0) + word)⟩

/-- The number nearest to a fraction with a sign. -/
def ofFraction (negative : Bool) (x : Fraction) : Binary64 :=
  ofWord negative (BinaryFormat.double.nearest x)

/-- Infinity with a sign. -/
def infinity (negative : Bool) : Binary64 := ofWord negative BinaryFormat.double.infinity

/-- The number that stands for no number. -/
def nan : Binary64 := ⟨0x7FF8000000000001⟩

/-- Whether the sign bit is set. -/
def isNegative (x : Binary64) : Bool := BinaryFormat.double.isNegative x.bits.toNat

/-- The absolute value. -/
def magnitude (x : Binary64) : Magnitude := BinaryFormat.double.magnitude x.bits.toNat

/-- Whether the number is infinite. -/
def isInfinite (x : Binary64) : Bool := x.magnitude = .infinite

/-- Whether the number is zero of either sign. -/
def isZero (x : Binary64) : Bool :=
  match x.magnitude with
  | .finite m _ => m == 0
  | _ => false

/-- Whether this is no number. -/
def isNan (x : Binary64) : Bool := x.magnitude = .nan

/-- The place of a number in the order of all numbers: what is no number comes first, and the two
zeros have one place. -/
def rank (x : Binary64) : Int :=
  let sign := BinaryFormat.double.signWord
  let word : Int := x.bits.toNat % sign
  if x.isNan then -sign else if x.isNegative then -word else word

/-- The number with the other sign. -/
def neg (x : Binary64) : Binary64 := ⟨x.bits ^^^ 0x8000000000000000⟩

/-- The unsigned word of the nearest number of single precision. -/
def toSingle (x : Binary64) : Nat :=
  let f := BinaryFormat.single
  match x.magnitude with
  | .finite m e => f.nearest (.scaled m 2 e)
  | .infinite => f.infinity
  | .nan => f.infinity + Nat.pow 2 (f.fractionBits - 1)

end Binary64

end Lane
