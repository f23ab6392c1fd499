set_option relaxedAutoImplicit false
set_option autoImplicit false

/-!
# Faults of YAML texts

Reading a text fails with a problem and the line that the message names.

## Main definitions

* `Lane.Yaml.Mark`: a place in a text.
* `Lane.Yaml.Problem`: what is wrong with a text.
* `Lane.Yaml.ReadError`: a problem and the line that its message names.
-/

namespace Lane.Yaml

/-- A place in a text; all counts start at zero. -/
structure Mark where
  index : Nat := 0
  line : Nat := 0
  column : Nat := 0
  deriving DecidableEq, Repr, Inhabited

/-- Why a text cannot be read. -/
inductive Problem where
  | controlCharacter
  | noToken
  | mappingValue
  | mappingKey
  | sequenceEntry
  | missingColon
  | documentMarkInQuotes
  | endInQuotes
  | unknownEscape
  | escapeDigits
  | escapeRange
  | plainTab
  | blockIndentZero
  | blockHeader
  | blockTab
  | anchorName
  | tagClose
  | tagEnd
  | tagMark
  | tagUri
  | uriEscape
  | uriLeadingByte
  | uriTrailingByte
  | directiveName
  | directiveCharacter
  | directiveUnknown
  | directiveEnd
  | versionNumber
  | versionLong
  | versionDot
  | tagSpace
  | tagPrefixEnd
  | duplicateVersion
  | otherVersion
  | duplicateTag
  | documentStart
  | undefinedTag
  | nodeContent
  | sequenceDash
  | mappingKeyMissing
  | flowSequenceEnd
  | flowMappingEnd
  | tooDeep
  deriving DecidableEq, Repr, Inhabited

/-- The number of collections that may be open within each other. -/
def depthLimit : Nat := 10000

/-- A problem in words. -/
def Problem.text : Problem → String
  | .controlCharacter => "control characters are not allowed"
  | .noToken => "found character that cannot start any token"
  | .mappingValue => "mapping values are not allowed in this context"
  | .mappingKey => "mapping keys are not allowed in this context"
  | .sequenceEntry => "block sequence entries are not allowed in this context"
  | .missingColon => "could not find expected ':'"
  | .documentMarkInQuotes => "found unexpected document indicator"
  | .endInQuotes => "found unexpected end of stream"
  | .unknownEscape => "found unknown escape character"
  | .escapeDigits => "did not find expected hexdecimal number"
  | .escapeRange => "found invalid Unicode character escape code"
  | .plainTab => "found a tab character that violates indentation"
  | .blockIndentZero => "found an indentation indicator equal to 0"
  | .blockHeader => "did not find expected comment or line break"
  | .blockTab => "found a tab character where an indentation space is expected"
  | .anchorName => "did not find expected alphabetic or numeric character"
  | .tagClose => "did not find the expected '>'"
  | .tagEnd => "did not find expected whitespace or line break"
  | .tagMark => "did not find expected '!'"
  | .tagUri => "did not find expected tag URI"
  | .uriEscape => "did not find URI escaped octet"
  | .uriLeadingByte => "found an incorrect leading UTF-8 octet"
  | .uriTrailingByte => "found an incorrect trailing UTF-8 octet"
  | .directiveName => "could not find expected directive name"
  | .directiveCharacter => "found unexpected non-alphabetical character"
  | .directiveUnknown => "found unknown directive name"
  | .directiveEnd => "did not find expected comment or line break"
  | .versionNumber => "did not find expected version number"
  | .versionLong => "found extremely long version number"
  | .versionDot => "did not find expected digit or '.' character"
  | .tagSpace => "did not find expected whitespace"
  | .tagPrefixEnd => "did not find expected whitespace or line break"
  | .duplicateVersion => "found duplicate %YAML directive"
  | .otherVersion => "found incompatible YAML document"
  | .duplicateTag => "found duplicate %TAG directive"
  | .documentStart => "did not find expected <document start>"
  | .undefinedTag => "found undefined tag handle"
  | .nodeContent => "did not find expected node content"
  | .sequenceDash => "did not find expected '-' indicator"
  | .mappingKeyMissing => "did not find expected key"
  | .flowSequenceEnd => "did not find expected ',' or ']'"
  | .flowMappingEnd => "did not find expected ',' or '\x7d'"
  | .tooDeep => "exceeded max depth of " ++ toString depthLimit

/-- A problem, and the line that its message names. -/
structure ReadError where
  problem : Problem
  line : Option Nat := none
  deriving DecidableEq, Repr, Inhabited

namespace ReadError

/-- The message of an error. -/
def message (e : ReadError) : String :=
  match e.line with
  | some n => s!"line {n}: " ++ e.problem.text
  | none => e.problem.text

/-- An error in the characters at `here`, in something that starts at `start`. The message names the
line of the start, and no line at all where both are in the first one. -/
def inText (problem : Problem) (start here : Mark) : ReadError :=
  ⟨problem,
    if start.line ≠ 0 then some (start.line + 1)
    else if here.line ≠ 0 then some (here.line + 1) else none⟩

/-- An error in the order of tokens, in something that starts at `start`. The message names the line
before the start. -/
def inTokens (problem : Problem) (start here : Mark) : ReadError :=
  ⟨problem, if start.line ≠ 0 then some start.line
    else if here.line ≠ 0 then some here.line else none⟩

end ReadError

end Lane.Yaml
