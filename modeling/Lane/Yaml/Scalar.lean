import Lane.Yaml.Cursor

set_option relaxedAutoImplicit false
set_option autoImplicit false

/-!
# Scalars of YAML

A scalar is written plainly, between quotes, or as a block of lines. Each reader here starts at the
first character of a scalar and ends behind its last.

## Main definitions

* `Lane.Yaml.readPlain`: scalars without quotes.
* `Lane.Yaml.readQuoted`: scalars between quotes.
* `Lane.Yaml.readBlock`: scalars that are blocks of lines.
-/

namespace Lane.Yaml

open Reader

/-! ## Plain scalars -/

/-- The characters that end a plain scalar inside brackets. -/
def isFlowIndicator (c : Char) : Bool := [',', '?', '[', ']', '\x7b', '\x7d'].contains c

/-- Whether a plain scalar ends before a text. -/
def endsPlain (inFlow : Bool) : List Char → Bool
  | [] => true
  | c :: rest => isSpace c || (c = ':' && spaceAt rest 0) || (inFlow && isFlowIndicator c)

/-- At most `n` characters of a plain scalar, up to a blank, a line break or an indicator that ends
it. -/
def plainRun (inFlow : Bool) : Nat → Reader (List Char)
  | 0 => return []
  | n + 1 => do
    let c ← get
    if endsPlain inFlow c.rest then return []
    skip
    need 2
    return c.rest.take 1 ++ (← plainRun inFlow n)

/-- The rest of a plain scalar after a gap, which belongs to it if more follows. The second
component of the answer says whether a line break follows the scalar. -/
def plainFrom (inFlow : Bool) (indent : Nat) (start : Mark) :
    Nat → Gap → Reader (List Char × Bool)
  | 0, gap => return ([], gap.broken)
  | n + 1, gap => do
    need 4
    let c ← get
    if c.isAtDocument || c.isAt '#' then return ([], gap.broken)
    let taken ← plainRun inFlow (c.size + 1)
    let (text, gap) : List Char × Gap :=
      if taken = [] then ([], gap) else (gap.folded ++ taken, {})
    if !(← isIn isSpace) then return (text, gap.broken)
    let gap ← gap.read start indent (c.size + 1)
    if !inFlow && (← here).column < indent then return (text, gap.broken)
    let (more, broken) ← plainFrom inFlow indent start n gap
    return (text ++ more, broken)

/-- A plain scalar whose further lines are indented by at least `indent`, and whether a line break
follows it. -/
def readPlain (inFlow : Bool) (indent : Nat) : Reader (String × Bool) := do
  let c ← get
  let (text, broken) ← plainFrom inFlow indent c.mark (c.size + 1) {}
  return (String.ofList text, broken)

/-! ## Quoted scalars -/

/-- The value of a hexadecimal digit. -/
def hexValue? (c : Char) : Option Nat :=
  if c.isDigit then some (c.toNat - 48)
  else if 'a' ≤ c ∧ c ≤ 'f' then some (c.toNat - 87)
  else if 'A' ≤ c ∧ c ≤ 'F' then some (c.toNat - 55)
  else none

/-- The value of some hexadecimal digits. -/
def hexNumber? (cs : List Char) : Option Nat :=
  cs.foldlM (fun n c => (hexValue? c).map (16 * n + ·)) 0

/-- The code point of an escape of one character. -/
def shortEscape? : Char → Option Nat
  | '0' => some 0
  | 'a' => some 7
  | 'b' => some 8
  | 't' | '\t' => some 9
  | 'n' => some 10
  | 'v' => some 11
  | 'f' => some 12
  | 'r' => some 13
  | 'e' => some 0x1B
  | ' ' => some 0x20
  | '"' => some 0x22
  | '\'' => some 0x27
  | '\\' => some 0x5C
  | 'N' => some 0x85
  | '_' => some 0xA0
  | 'L' => some 0x2028
  | 'P' => some 0x2029
  | _ => none

/-- The number of digits that follow an escape. -/
def escapeDigits : Char → Nat
  | 'x' => 2
  | 'u' => 4
  | 'U' => 8
  | _ => 0

/-- The character of an escape whose backslash is next. -/
def readEscape (start : Mark) : Reader Char := do
  match (← get).rest[1]? with
  | none => fail .unknownEscape start
  | some x =>
    match shortEscape? x with
    | some n =>
      skips 2
      return Char.ofNat n
    | none =>
      let width := escapeDigits x
      if width = 0 then fail .unknownEscape start
      skips 2
      need width
      let digits := (← get).rest.take width
      match if digits.length = width then hexNumber? digits else none with
      | none => fail .escapeDigits start
      | some n =>
        if (0xD800 ≤ n ∧ n ≤ 0xDFFF) ∨ n > 0x10FFFF then fail .escapeRange start
        skips width
        return Char.ofNat n

/-- At most `n` characters up to a blank, a line break or the closing quote. An escaped line break
ends them too; the second component of the answer tells. -/
def quotedRun (isSingle : Bool) (start : Mark) : Nat → Reader (List Char × Bool)
  | 0 => return ([], false)
  | n + 1 => do
    match (← get).rest with
    | [] => return ([], false)
    | x :: rest =>
      let isDoubled := isSingle && x = '\'' && rest.head? = some '\''
      let isEscape := !isSingle && x = '\\'
      if isSpace x || (x = (if isSingle then '\'' else '"') && !isDoubled) then return ([], false)
      if isEscape && rest.head?.any isBreak then
        need 3
        skip
        let _ ← lineBreak
        return ([], true)
      let y ←
        if isEscape then readEscape start
        else do
          skips (if isDoubled then 2 else 1)
          pure x
      need 2
      let (text, escaped) ← quotedRun isSingle start n
      return (y :: text, escaped)

/-- The rest of a quoted scalar. -/
def quotedFrom (isSingle : Bool) (start : Mark) : Nat → Reader (List Char)
  | 0 => fail .endInQuotes start
  | n + 1 => do
    need 4
    let c ← get
    if c.isAtDocument then fail .documentMarkInQuotes start
    if c.rest.isEmpty then fail .endInQuotes start
    let (taken, escaped) ← quotedRun isSingle start (c.size + 1)
    need 1
    if ← isAt (if isSingle then '\'' else '"') then
      skip
      return taken
    let gap ← Gap.read start 0 (c.size + 1) { broken := escaped }
    return taken ++ gap.folded ++ (← quotedFrom isSingle start n)

/-- A scalar between quotes, from its opening quote on. -/
def readQuoted (isSingle : Bool) : Reader String := do
  let c ← get
  skip
  return String.ofList (← quotedFrom isSingle c.mark (c.size + 1))

/-! ## Block scalars -/

/-- What happens to the line breaks at the end of a block. -/
inductive Chomping where
  | clip
  | strip
  | keep
  deriving DecidableEq, Repr, Inhabited

/-- The chomping mark that is next. -/
def readChomping : Reader (Option Chomping) := do
  need 1
  if ← isAt '+' then
    skip
    return some .keep
  else if ← isAt '-' then
    skip
    return some .strip
  else return none

/-- The indentation digit that is next; zero if there is none. -/
def readIncrement (start : Mark) : Reader Nat := do
  need 1
  match (← get).head? with
  | some x =>
    if x = '0' then fail .blockIndentZero start
    if !x.isDigit then return 0
    skip
    return x.toNat - 48
  | none => return 0

/-- The chomping and indentation marks of a block, in either order. -/
def readHeader (start : Mark) : Reader (Chomping × Nat) := do
  match ← readChomping with
  | some chomping => return (chomping, ← readIncrement start)
  | none =>
    let increment ← readIncrement start
    let chomping ← if increment = 0 then pure none else readChomping
    return (chomping.getD .clip, increment)

/-- The empty lines that are next, and the deepest indentation among them and after them. With
`indent` zero the indentation is still to be found. -/
def blockBreaks (start : Mark) (indent : Nat) : Nat → Nat → Reader (List Char × Nat)
  | 0, deepest => return ([], deepest)
  | n + 1, deepest => do
    let c ← get
    let _ ← atMost (· = ' ') (if indent = 0 then c.size + 1 else indent - c.mark.column)
    need 1
    let column := (← here).column
    if (indent = 0 || column < indent) && (← isAt '\t') then fail .blockTab start
    if ← isIn isBreak then
      let b ← lineBreak
      let (breaks, deepest) ← blockBreaks start indent n (max deepest column)
      return (b ++ breaks, deepest)
    else return ([], max deepest column)

/-- What is known of a block while its lines are read. -/
structure BlockText where
  /-- The text up to the last line, the last character first. -/
  text : List Char := []
  /-- The line break after the last line. -/
  lineEnd : List Char := []
  /-- The empty lines after it. -/
  breaks : List Char := []
  /-- Whether the last line starts with a blank. -/
  blank : Bool := false
  deriving Repr, Inhabited

/-- What stands between the last line and one that starts with `blank` or not. A folded block joins
two lines that start with no blank. -/
def BlockText.joint (b : BlockText) (isLiteral blank : Bool) : List Char :=
  if !isLiteral && !b.blank && !blank && b.lineEnd.head? = some '\n' then
    if b.breaks = [] then [' '] else b.breaks
  else b.lineEnd ++ b.breaks

/-- The lines of a block with a known indentation. -/
def blockLines (isLiteral : Bool) (start : Mark) (indent : Nat) :
    Nat → BlockText → Reader BlockText
  | 0, b => return b
  | n + 1, b => do
    need 1
    let c ← get
    if c.mark.column ≠ indent ∨ c.rest.isEmpty then return b
    let blank := c.isIn isBlank
    let line ← run (!isBreak ·)
    let lineEnd ← lineBreak
    let (breaks, _) ← blockBreaks start indent (c.size + 1) 0
    let text := (b.joint isLiteral blank ++ line).reverse ++ b.text
    blockLines isLiteral start indent n { text, lineEnd, breaks, blank }

/-- A block, from its indicator on, in a collection that is indented by `level`. -/
def readBlock (isLiteral : Bool) (level : Int) : Reader String := do
  let c ← get
  let start := c.mark
  skip
  let (chomping, increment) ← readHeader start
  skipRun isBlank
  if ← isAt '#' then
    lineComment
    skipRun (!isBreak ·)
  if !(← isEndOr isBreak) then fail .blockHeader start
  if ← isIn isBreak then discard lineBreak
  let given := if increment = 0 then 0 else (max level 0).toNat + increment
  let (breaks, deepest) ← blockBreaks start given (c.size + 1) 0
  let indent := if given = 0 then max (max deepest (level + 1).toNat) 1 else given
  let b ← blockLines isLiteral start indent (c.size + 1) { breaks }
  let text := b.text.reverse ++ (if chomping = .strip then [] else b.lineEnd)
    ++ (if chomping = .keep then b.breaks else [])
  return String.ofList text

end Lane.Yaml
