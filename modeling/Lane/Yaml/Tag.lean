import Lane.Text.Rune
import Lane.Yaml.Scalar
import Lane.Yaml.Token

set_option relaxedAutoImplicit false
set_option autoImplicit false

/-!
# Names, tags and directives of YAML

Each reader here starts at the indicator of its token and ends behind it.

## Main definitions

* `Lane.Yaml.readAnchor`: anchors and aliases.
* `Lane.Yaml.readTag`: tags.
* `Lane.Yaml.readDirective`: directives.
-/

namespace Lane.Yaml

open Reader

/-- The name of an anchor or alias. -/
def readAnchor : Reader String := do
  let start ← here
  skip
  let name ← run isWordChar
  let ends ← isEndOr fun x =>
    isSpace x || ['?', ':', ',', ']', '\x7d', '%', '@', Char.ofNat 0x60].contains x
  if name = [] ∨ !ends then fail .anchorName start
  return String.ofList name

/-- The characters of a tag. -/
def isUriChar (c : Char) : Bool :=
  isWordChar c || [';', '/', '?', ':', '@', '&', '=', '+', '$', '.', ',', '!', '~', '*', '\'', '(',
    ')', '[', ']', '%'].contains c

/-- The number of bytes in the sequence that a byte starts. -/
def sequenceWidth? (b : Nat) : Option Nat :=
  if b < 0x80 then some 1
  else if 0xC0 ≤ b ∧ b < 0xE0 then some 2
  else if 0xE0 ≤ b ∧ b < 0xF0 then some 3
  else if 0xF0 ≤ b ∧ b < 0xF8 then some 4
  else none

/-- The byte of an escape that is next. -/
def readOctet (start : Mark) : Reader Nat := do
  need 3
  match (← get).rest with
  | '%' :: a :: b :: _ =>
    match hexNumber? [a, b] with
    | some n => return n
    | none => fail .uriEscape start
  | _ => fail .uriEscape start

/-- Further bytes of an escaped character. -/
def readOctets (start : Mark) : Nat → Reader (List UInt8)
  | 0 => return []
  | n + 1 => do
    let b ← readOctet start
    if b / 64 ≠ 2 then fail .uriTrailingByte start
    skips 3
    return UInt8.ofNat b :: (← readOctets start n)

/-- An escaped character that is next. -/
def readUriEscape (start : Mark) : Reader (List Char) := do
  let b ← readOctet start
  match sequenceWidth? b with
  | none => fail .uriLeadingByte start
  | some width =>
    skips 3
    let bs ← readOctets start (width - 1)
    return (Rune.decode (UInt8.ofNat b :: bs)).map Rune.char

/-- At most `n` characters of a tag, with escapes resolved. -/
def uriRun (start : Mark) : Nat → Reader (List Char)
  | 0 => return []
  | n + 1 => do
    need 1
    match (← get).head? with
    | some x =>
      if x = '%' then
        let cs ← readUriEscape start
        return cs ++ (← uriRun start n)
      else if isUriChar x then
        skip
        return x :: (← uriRun start n)
      else return []
    | none => return []

/-- The characters of a tag after `lead`, of which the first character is dropped. -/
def readUri (start : Mark) (lead : List Char) : Reader (List Char) := do
  let c ← get
  let text ← uriRun start (c.size + 1)
  if lead = [] ∧ (← here) = c.mark then fail .tagUri start
  return lead.drop 1 ++ text

/-- A handle. In a directive it is `!` or ends so. -/
def readHandle (isDirective : Bool) (start : Mark) : Reader (List Char) := do
  need 1
  if !(← isAt '!') then fail .tagMark start
  skip
  let name ← run isWordChar
  if ← isAt '!' then
    skip
    return '!' :: name ++ ['!']
  if isDirective ∧ name ≠ [] then fail .tagMark start
  return '!' :: name

/-- The handle and the rest of a tag without angle brackets. -/
def readShortTag (start : Mark) : Reader (List Char × List Char) := do
  let handle ← readHandle false start
  if handle.length > 1 ∧ handle.getLast? = some '!' then return (handle, ← readUri start [])
  let suffix ← readUri start handle
  return if suffix = [] then ([], ['!']) else (['!'], suffix)

/-- The handle and the rest of a tag; between angle brackets there is no handle. -/
def readTag : Reader (String × String) := do
  let start ← here
  need 2
  let (handle, suffix) ←
    if (← get).rest[1]? = some '<' then do
      skips 2
      let suffix ← readUri start []
      if !(← isAt '>') then fail .tagClose start
      skip
      pure (([] : List Char), suffix)
    else readShortTag start
  need 1
  if !(← isEndOr isSpace) then fail .tagEnd start
  return (String.ofList handle, String.ofList suffix)

/-- The number of digits that a number of a version may have. -/
def versionDigits : Nat := 2

/-- A number of a version. -/
def readVersionNumber (start : Mark) : Reader Nat := do
  let digits ← atMost Char.isDigit versionDigits
  need 1
  if ← isIn Char.isDigit then fail .versionLong start
  if digits = [] then fail .versionNumber start
  return digits.foldl (fun n d => 10 * n + (d.toNat - 48)) 0

/-- What follows the name of a version directive. -/
def readVersionDirective (start : Mark) : Reader Token := do
  skipRun isBlank
  let major ← readVersionNumber start
  if !(← isAt '.') then fail .versionDot start
  skip
  let minor ← readVersionNumber start
  return .version major minor

/-- What follows the name of a tag directive. -/
def readTagDirective (start : Mark) : Reader Token := do
  skipRun isBlank
  let handle ← readHandle true start
  need 1
  if !(← isIn isBlank) then fail .tagSpace start
  skipRun isBlank
  let text ← readUri start []
  need 1
  if !(← isEndOr isSpace) then fail .tagPrefixEnd start
  return .tagDirective (String.ofList handle) (String.ofList text)

/-- A directive, up to the start of the next line, and the place where its content ends. -/
def readDirective : Reader (Token × Mark) := do
  let start ← here
  skip
  let name ← run isWordChar
  if name = [] then fail .directiveName start
  if !(← isEndOr isSpace) then fail .directiveCharacter start
  let token ←
    if name = "YAML".toList then readVersionDirective start
    else if name = "TAG".toList then readTagDirective start
    else fail .directiveUnknown start
  let stop ← here
  skipRun isBlank
  if ← isAt '#' then skipRun (!isBreak ·)
  if !(← isEndOr isBreak) then fail .directiveEnd start
  if ← isIn isBreak then discard lineBreak
  return (token, stop)

end Lane.Yaml
