import Lane.Yaml.Problem

set_option relaxedAutoImplicit false
set_option autoImplicit false

/-!
# YAML tokens

The words and marks of a text, where indentation is made explicit by tokens that open and close
block collections.

## Main definitions

* `Lane.Yaml.Style`: how a scalar is written.
* `Lane.Yaml.Token`, `Lane.Yaml.PlacedToken`: tokens, and tokens with their places.
-/

namespace Lane.Yaml

/-- How a scalar is written. -/
inductive Style where
  | plain
  | single
  | double
  | literal
  | folded
  deriving DecidableEq, Repr, Inhabited

/-- Tokens. -/
inductive Token where
  | streamStart
  | streamEnd
  | version (major minor : Nat)
  | tagDirective (handle text : String)
  | documentStart
  | documentEnd
  | blockSequence
  | blockMapping
  | blockEnd
  | flowSequence
  | flowSequenceEnd
  | flowMapping
  | flowMappingEnd
  | blockEntry
  | flowEntry
  | key
  | value
  | alias (name : String)
  | anchor (name : String)
  | tag (handle suffix : String)
  | scalar (text : String) (style : Style)
  deriving DecidableEq, Repr, Inhabited

/-- A token with the places where it starts and ends. -/
structure PlacedToken where
  token : Token
  start : Mark
  stop : Mark
  deriving DecidableEq, Repr, Inhabited

end Lane.Yaml
