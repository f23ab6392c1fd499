import Lane.Text.Quoted
import Lane.Token.Basic

set_option relaxedAutoImplicit false
set_option autoImplicit false

/-!
# Scanning

A scanner recognises a piece at the start of a text. The classes of tokens are tried in a fixed
order and the first whose scanner succeeds wins, even where a later one would reach further.

## Main definitions

* `Lane.Scanner`: a recogniser of pieces.
* `Lane.TokenClass.scanner`: the shape of each class.
* `Lane.Token.scan`: the tokens of a text, up to the first place where no class fits.
-/

namespace Lane

/-- A recogniser: the piece at the start of a text and the rest, or nothing. -/
abbrev Scanner := List Rune → Option (List Rune × List Rune)

namespace Scanner

/-- One character of a set. -/
def one (p : Char → Bool) : Scanner
  | r :: rest => if p r.char then some ([r], rest) else none
  | [] => none

/-- As many characters of a set as there are, perhaps none. -/
def many (p : Char → Bool) : Scanner := fun rs =>
  some (rs.takeWhile fun r => p r.char, rs.dropWhile fun r => p r.char)

/-- One piece and then another. -/
def andThen (a b : Scanner) : Scanner := fun rs => do
  let (x, rest) ← a rs
  let (y, rest) ← b rest
  return (x ++ y, rest)

/-- At least one character of a set. -/
def atLeastOne (p : Char → Bool) : Scanner := andThen (one p) (many p)

/-- A piece or nothing. -/
def optional (a : Scanner) : Scanner := fun rs => a rs <|> pure ([], rs)

/-- The given characters. -/
def exactly : List Char → Scanner
  | [] => fun rs => pure ([], rs)
  | c :: cs => andThen (one (· == c)) (exactly cs)

/-- The given text. -/
def word (s : String) : Scanner := exactly s.toList

/-- The first alternative that succeeds. -/
def firstOf : List Scanner → Scanner
  | [] => fun _ => none
  | a :: as => fun rs => a rs <|> firstOf as rs

end Scanner

/-- The characters that may start an identifier. -/
def isIdentStart (c : Char) : Bool := c.isAlpha || c == '_'

/-- The characters that may continue an identifier. -/
def isIdentRest (c : Char) : Bool := c.isAlphanum || c == '_'

/-- The suffixes of integer literals, in the order in which they are tried. -/
def intSuffixes : List String := ["ub", "us", "ul", "x", "b", "s", "l", "u"]

/-- The operators, in the order in which they are tried. -/
def operators : List String :=
  ["::", "->", "==", "!=", "<=", ">=", "-", "+", "*", "/", "%", "<", ">", "=", "^"]

namespace TokenClass

open Scanner

/-- The order in which the classes are tried. -/
def order : List TokenClass := [.comment, .whitespace, .real, .int, .ident, .op, .punct]

/-- The shape of the words of a class. -/
def scanner : TokenClass → Scanner
  | .comment => andThen (word "//") (many (· != '\n'))
  | .whitespace => atLeastOne fun c => c == ' ' || c == '\t' || c == '\r' || c == '\n'
  | .real =>
    let exponent :=
      andThen (one fun c => c == 'e' || c == 'E')
        (andThen (optional (one fun c => c == '-' || c == '+')) (atLeastOne Char.isDigit))
    andThen (atLeastOne Char.isDigit) (andThen (word ".") (andThen (atLeastOne Char.isDigit)
      (andThen (optional exponent) (optional (word "r32")))))
  | .int => andThen (atLeastOne Char.isDigit) (optional (firstOf (intSuffixes.map word)))
  | .ident => andThen (one isIdentStart) (many isIdentRest)
  | .op => firstOf (operators.map word)
  | .punct => one fun c => "()\x7b\x7d,;:.[]".toList.contains c
  | .eof => fun _ => none

end TokenClass

namespace Token

/-- The word at the start of a text: its class, its runes and the rest. -/
def next? (rs : List Rune) : Option (TokenClass × List Rune × List Rune) :=
  TokenClass.order.findSome? fun c => (c.scanner rs).map fun (word, rest) => (c, word, rest)

/-- A place where no class of words fits. -/
structure Unreadable where
  pos : Position
  rest : List Rune
  deriving Repr, DecidableEq

namespace Unreadable

/-- How many characters of the unreadable text a message shows. -/
def shownLength : Nat := 16

/-- The message about an unreadable text, which shows its start. -/
def message (u : Unreadable) : String :=
  let shown :=
    if u.rest.length ≤ shownLength then Rune.text u.rest
    else Rune.text (u.rest.take shownLength) ++ "..."
  "invalid input text " ++ Text.quote shown

/-- The message with its place. -/
def located (u : Unreadable) : String := u.pos.located ++ ": " ++ u.message

end Unreadable

/-- The tokens of a text from a place on, with fuel for each of its runes. -/
def scanFrom : Nat → Position → List Rune → List Token × Option Unreadable
  | _, pos, [] => ([⟨.eof, "", pos⟩], none)
  | 0, pos, rest => ([], some ⟨pos, rest⟩)
  | fuel + 1, pos, rs =>
    match next? rs with
    | none => ([], some ⟨pos, rs⟩)
    | some (c, word, rest) =>
      let (tokens, stuck) := scanFrom fuel (pos.advance word) rest
      (⟨c, Rune.text word, pos⟩ :: tokens, stuck)

/-- The tokens of a text, ended by `eof` unless a part of the text is unreadable. -/
def scan (file : String) (rs : List Rune) : List Token × Option Unreadable :=
  scanFrom rs.length (.start file) rs

end Token

end Lane
