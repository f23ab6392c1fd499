import Lane.Position

set_option relaxedAutoImplicit false
set_option autoImplicit false

/-!
# Tokens

The words of a source text. Keywords are plain identifiers: the grammar tells them apart by their
text.

## Main definitions

* `Lane.TokenClass`: the kinds of words.
* `Lane.Token`: a word with its class and place.
-/

namespace Lane

/-- The kinds of words, `eof` for the end of the text. -/
inductive TokenClass where
  | comment
  | whitespace
  | real
  | int
  | ident
  | op
  | punct
  | eof
  deriving DecidableEq, Repr, Inhabited

namespace TokenClass

/-- The name of a class. -/
def name : TokenClass → String
  | .comment => "Comment"
  | .whitespace => "Whitespace"
  | .real => "Real"
  | .int => "Int"
  | .ident => "Ident"
  | .op => "Op"
  | .punct => "Punct"
  | .eof => "EOF"

/-- Whether words of the class never reach the grammar. -/
def isElided : TokenClass → Bool
  | .comment | .whitespace => true
  | _ => false

end TokenClass

/-- A word of a source text. -/
structure Token where
  cls : TokenClass
  text : String
  pos : Position
  deriving DecidableEq, Repr, Inhabited

/-- How a message names the token: by its text, or by a mark at the end of the text. -/
def Token.shown (t : Token) : String :=
  if t.cls = .eof then "<EOF>" else t.text

end Lane
