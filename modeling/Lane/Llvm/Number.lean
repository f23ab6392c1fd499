import Lane.Number.Decimal
import Lane.Text.Quoted

set_option relaxedAutoImplicit false
set_option autoImplicit false

/-!
# Numbers in LLVM text

Integers are written in decimal, or in hexadecimal where that shows far fewer different digits.
Reals are written in decimal if that is exact, and otherwise as the bits of a double.

## Main definitions

* `Lane.Llvm.integerText`: an integer as text.
* `Lane.Llvm.realText`: a real as text.
-/

namespace Lane.Llvm

/-! ## Integers -/

/-- The number of different elements of a list. -/
def distinct (cs : List Char) : Nat := cs.eraseDups.length

/-- The double nearest to a fraction, as a word; words of such doubles are in the order of their
values. -/
def doubleWord (x : Fraction) : Nat := BinaryFormat.double.nearest x

/-- How varied digits are: the share of different ones among as many digits as there are or as the
base has, in double precision. -/
def variety (base : Nat) (cs : List Char) : Nat :=
  doubleWord ⟨distinct cs, min cs.length base⟩

/-- The value of the double with a word. -/
def wordFraction (word : Nat) : Fraction :=
  match BinaryFormat.double.magnitude word with
  | .finite m e => .scaled m 2 e
  | _ => ⟨0, 1⟩

/-- The sum of two doubles. -/
def addWords (a b : Nat) : Nat :=
  let x := wordFraction a
  let y := wordFraction b
  doubleWord ⟨x.num * y.den + y.num * x.den, x.den * y.den⟩

/-- The number of different hexadecimal digits up to which a number of that many digits counts as
regular. -/
def regularDigits (length : Nat) : Nat :=
  if length < 4 then 0 else if length < 7 then 2 else if length < 11 then 3 else 4

/-- Whether a number is written in hexadecimal: it has at least four hexadecimal digits, few of
which differ, and its decimal digits are more varied by at least a fifth. -/
def isRegular (n : Nat) : Bool :=
  let hex := Nat.toDigits 16 n
  n ≥ 0x1000 && distinct hex ≤ regularDigits hex.length &&
    addWords (variety 16 hex) (doubleWord ⟨1, 5⟩) ≤ variety 10 (Nat.toDigits 10 n)

/-- An integer as text. -/
def integerText (x : Int) : String :=
  match x with
  | .ofNat n =>
    if isRegular n then "u0x" ++ (String.ofList (Nat.toDigits 16 n)).toUpper else toString n
  | x => toString x

/-! ## Reals -/

/-- The bits of a double in hexadecimal, without leading zeros. -/
def bitsText (n : Nat) : String := "0x" ++ (String.ofList (Nat.toDigits 16 n)).toUpper

/-- A text with `.0` put before the exponent or at the end, unless it has a point. -/
def withPoint (s : String) : String :=
  if s.contains '.' then s
  else
    let cs := s.toList
    let (mantissa, exponent) := (cs.takeWhile (· ≠ 'e'), cs.dropWhile (· ≠ 'e'))
    String.ofList mantissa ++ ".0" ++ String.ofList exponent

/-- The bits of a double, those that a number of single precision has no room for cleared. -/
def realBits (isSingle : Bool) (x : Binary64) : Nat :=
  if isSingle then x.bits.toNat / 0x20000000 * 0x20000000 else x.bits.toNat

/-- Whether the shortest decimal of a finite real in its format is the real itself. -/
def isExact (isSingle : Bool) (x : Binary64) (m : Nat) (e : Int) : Bool :=
  let value := Fraction.scaled m 2 e
  if isSingle then
    match BinaryFormat.single.magnitude x.toSingle with
    | .finite m' e' =>
      (Fraction.scaled m' 2 e').eq value &&
        (BinaryFormat.single.shortest m' e').toFraction.eq value
    | _ => false
  else (BinaryFormat.double.shortest m e).toFraction.eq value

/-- A real as text, in single or in double precision. -/
def realText (isSingle : Bool) (x : Binary64) : String :=
  match x.magnitude with
  | .nan => "0x7FF8000000000000"
  | .infinite => bitsText x.bits.toNat
  | .finite m e =>
    if isExact isSingle x m e then withPoint x.general else bitsText (realBits isSingle x)

end Lane.Llvm
