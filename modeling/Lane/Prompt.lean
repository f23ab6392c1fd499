import Lane.Host.Basic

set_option relaxedAutoImplicit false
set_option autoImplicit false

/-!
# Questions

A command may ask its user. Each question has a default, which an empty answer and a closed input
stand for.

## Main definitions

* `Lane.Text.isBlank`: whether a character is white space.
* `Lane.Text.trim`: a text without white space at its ends.
* `Lane.Prompt.askText`: ask for a text.
* `Lane.Prompt.askYesNo`: ask for a yes or no.
-/

/-! ## Blank characters

The characters with the White_Space property of Unicode, and texts without them at their ends. -/

namespace Lane.Text

/-- The ranges of the White_Space property. -/
def blankRanges : List (Nat × Nat) :=
  [(0x09, 0x0D), (0x20, 0x20), (0x85, 0x85), (0xA0, 0xA0), (0x1680, 0x1680), (0x2000, 0x200A),
    (0x2028, 0x2029), (0x202F, 0x202F), (0x205F, 0x205F), (0x3000, 0x3000)]

/-- Whether a character is white space. -/
def isBlank (c : Char) : Bool := blankRanges.any fun (lo, hi) => lo ≤ c.toNat && c.toNat ≤ hi

/-- A text without white space at its ends. -/
def trim (s : String) : String :=
  String.ofList ((s.toList.dropWhile isBlank).reverse.dropWhile isBlank).reverse

/-- The White_Space property has twenty-five characters. -/
example : ((blankRanges.map fun (lo, hi) => hi + 1 - lo).sum) = 25 := by decide

end Lane.Text

namespace Lane.Prompt

variable {m : Type → Type} [Monad m] [Host m]

/-- Ask a question and read a line without the blanks around it; nothing if the input has ended. -/
def ask (question : String) : m String := do
  Host.print ("? " ++ question)
  match ← Host.readLine with
  | some line => return Text.trim line
  | none =>
    Host.print "\n"
    return ""

/-- Ask for a text. -/
def askText (question default : String) : m String := do
  let answer ← ask (question ++ " (" ++ default ++ "): ")
  return if answer = "" then default else answer

/-- What an answer to a yes-no question means. All that is not a yes is a no. -/
def yesNo (default : Bool) (answer : String) : Bool :=
  let word := answer.toLower
  if word = "" then default else word = "y" || word = "yes"

/-- Ask for a yes or no. -/
def askYesNo (question : String) (default : Bool) : m Bool := do
  let hint := if default then "(Y/n)" else "(y/N)"
  return yesNo default (← ask (question ++ " " ++ hint ++ ": "))

end Lane.Prompt
