import Lane.Yaml.Problem

set_option relaxedAutoImplicit false
set_option autoImplicit false

/-!
# Reading YAML text

A cursor is what remains of a text together with its place. The text arrives in portions, and only
as far as it is asked for: a character that may not stand in a text is met when the portion that
holds it is asked for, and never if nothing asks for it.

## Main definitions

* `Lane.Yaml.Cursor`: the rest of a text at its place, and how much of it has arrived.
* `Lane.Yaml.Reader`: computations that read a text.
* `Lane.Yaml.Reader.need`: ask for characters.
* `Lane.Yaml.Gap`: the blanks and line breaks between two words, and what they are folded to.
-/

namespace Lane.Yaml

/-! ## Characters -/

/-- Whether a character ends a line. -/
def isBreak (c : Char) : Bool :=
  c = '\r' || c = '\n' || c.toNat = 0x85 || c.toNat = 0x2028 || c.toNat = 0x2029

/-- Whether a character is a blank within a line. -/
def isBlank (c : Char) : Bool := c = ' ' || c = '\t'

/-- Whether a character divides words. -/
def isSpace (c : Char) : Bool := isBlank c || isBreak c

/-- Whether a character can be part of a name. -/
def isWordChar (c : Char) : Bool := c.isAlphanum || c = '_' || c = '-'

/-- Whether a character may stand in a text. -/
def isAllowed (c : Char) : Bool :=
  let n := c.toNat
  n = 0x09 || n = 0x0A || n = 0x0D || (0x20 ≤ n && n ≤ 0x7E) || n = 0x85
    || (0xA0 ≤ n && n ≤ 0xFFFD) || 0x10000 ≤ n

/-- The byte order mark. -/
def byteOrderMark : Char := Char.ofNat 0xFEFF

/-- Whether the `n`-th character of a text is missing or divides words. -/
def spaceAt (cs : List Char) (n : Nat) : Bool :=
  match cs[n]? with
  | none => true
  | some c => isSpace c

/-! ## Portions -/

/-- The number of bytes that a portion of a text has at most. -/
def portionSize : Nat := 512

/-- The indices where the portions of a text end, from an index on in a portion with room for some
bytes. A character is never divided. -/
def portionEnds : Nat → Nat → List Char → List Nat
  | index, _, [] => [index]
  | index, room, c :: cs =>
    if c.utf8Size ≤ room then portionEnds (index + 1) (room - c.utf8Size) cs
    else index :: portionEnds (index + 1) (portionSize - c.utf8Size) cs

/-- What follows the portions of a text that can be read. -/
inductive Ending where
  /-- The text is complete. -/
  | complete
  /-- The next portion has a character that may not stand in a text, at an index. -/
  | spoilt (index : Nat)
  deriving DecidableEq, Repr, Inhabited

namespace Ending

/-- Take portions, given by the indices of their ends, until an index is reached. The answer tells
whether it could be done, how far the text has arrived then, and which portions are left. At the end
of a complete text every request makes up one more character. -/
def arrive (ending : Ending) (goal : Nat) : Nat → List Nat → Bool × Nat × List Nat
  | known, [] =>
    match ending with
    | .complete => (true, known + 1, [])
    | .spoilt index => (false, max known index, [])
  | _, stop :: rest => if goal ≤ stop then (true, stop, rest) else arrive ending goal stop rest

end Ending

/-! ## Cursors -/

/-- The rest of a text at its place, and how much of it has arrived. -/
structure Cursor where
  rest : List Char
  mark : Mark := {}
  /-- The number of line breaks since the last character that is no blank. -/
  breaks : Nat := 0
  /-- The index up to which the text has arrived. -/
  known : Nat := 0
  /-- The indices where the further portions end. -/
  portions : List Nat := []
  ending : Ending := .complete
  /-- Whether the last portion was asked for at a byte order mark. -/
  marked : Bool := false
  /-- Whether a comment was looked for in a portion that cannot be read. -/
  overdue : Bool := false
  /-- The number of characters of the whole text. -/
  size : Nat := 0
  deriving Repr, Inhabited

namespace Cursor

/-- The start of a text. A byte order mark there counts for the first portion only. -/
def ofText (text : List Char) : Cursor :=
  let isMarked := text.head? = some byteOrderMark
  let rest := if isMarked then text.tail else text
  let ends := portionEnds 0 (if isMarked then portionSize - byteOrderMark.utf8Size else portionSize)
    rest
  match rest.findIdx? (!isAllowed ·) with
  | none => { rest, portions := ends, size := text.length }
  | some index =>
    { rest, portions := ends.takeWhile (· ≤ index), ending := .spoilt index, size := text.length }

/-- The next character. -/
def head? (c : Cursor) : Option Char := c.rest.head?

/-- Whether the next character is `x`. -/
def isAt (c : Cursor) (x : Char) : Bool := c.head? = some x

/-- Whether the next character is in a class. -/
def isIn (c : Cursor) (p : Char → Bool) : Bool := c.head?.any p

/-- Whether the text ends here or the next character is in a class. -/
def isEndOr (c : Cursor) (p : Char → Bool) : Bool := c.head?.all p

/-- Whether three given characters stand alone at the start of this line. -/
def isDocumentMark (c : Cursor) (x : Char) : Bool :=
  c.mark.column = 0 && c.rest.take 3 = [x, x, x] && spaceAt c.rest 3

/-- Whether a document starts or ends on this line. -/
def isAtDocument (c : Cursor) : Bool := c.isDocumentMark '-' || c.isDocumentMark '.'

/-- Step over a character of a line. -/
def skip (c : Cursor) : Cursor :=
  { c with
    rest := c.rest.tail
    mark := { c.mark with index := c.mark.index + 1, column := c.mark.column + 1 }
    breaks := if c.isIn isBlank then c.breaks else 0 }

/-- The cursor on the next line, behind a line break of some characters. -/
def nextLine (c : Cursor) (width : Nat) : Cursor :=
  { c with
    rest := c.rest.drop width
    mark := ⟨c.mark.index + width, c.mark.line + 1, 0⟩
    breaks := c.breaks + 1 }

/-- The line break here as it counts in a scalar, and the cursor on the next line. Nothing if there
is no line break. -/
def lineBreak (c : Cursor) : List Char × Cursor :=
  match c.rest with
  | '\r' :: '\n' :: _ => (['\n'], c.nextLine 2)
  | x :: _ =>
    if x.toNat = 0x2028 ∨ x.toNat = 0x2029 then ([x], c.nextLine 1)
    else if isBreak x then (['\n'], c.nextLine 1)
    else ([], c)
  | [] => ([], c)

/-- Ask for the next `n` characters. The answer tells whether they could arrive. -/
def supply (c : Cursor) (n : Nat) : Bool × Cursor :=
  let goal := c.mark.index + n
  if goal ≤ c.known then (true, c)
  else
    let (ok, known, portions) := c.ending.arrive goal c.known c.portions
    (ok, { c with known, portions, marked := c.isAt byteOrderMark })

end Cursor

/-! ## Readers -/

/-- Computations that read a text. -/
abbrev Reader := StateT Cursor (Except ReadError)

namespace Reader

/-- The error of a text with a character that may not stand there. -/
def spoiltError : ReadError := ⟨.controlCharacter, none⟩

/-- Ask for the next `n` characters. -/
def need (n : Nat) : Reader Unit := do
  let (ok, c) := (← get).supply n
  if ok then set c else throw spoiltError

/-- Ask for the next `n` characters, where it is no error yet that they cannot arrive. -/
def lookAhead (n : Nat) : Reader Bool := do
  let (ok, c) := (← get).supply n
  set { c with overdue := c.overdue || !ok }
  return ok

/-- Fail here, in something that starts at `start`. -/
def fail {α : Type} (problem : Problem) (start : Mark) : Reader α := do
  throw (.inText problem start (← get).mark)

/-- The place of the reader. -/
def here : Reader Mark := return (← get).mark

/-- Whether the next character is `x`. -/
def isAt (x : Char) : Reader Bool := return (← get).isAt x

/-- Whether the next character is in a class. -/
def isIn (p : Char → Bool) : Reader Bool := return (← get).isIn p

/-- Whether the text ends here or the next character is in a class. -/
def isEndOr (p : Char → Bool) : Reader Bool := return (← get).isEndOr p

/-- Step over a character. -/
def skip : Reader Unit := modify Cursor.skip

/-- Step over `n` characters. -/
def skips : Nat → Reader Unit
  | 0 => pure ()
  | n + 1 => do
    skip
    skips n

/-- Read the line break here; nothing if there is none. -/
def lineBreak : Reader (List Char) := do
  need 2
  let (b, c) := (← get).lineBreak
  set c
  return b

/-- At most `n` characters that are in a class. -/
def atMost (p : Char → Bool) : Nat → Reader (List Char)
  | 0 => return []
  | n + 1 => do
    need 1
    match (← get).head? with
    | some x =>
      if p x then
        skip
        return x :: (← atMost p n)
      else return []
    | none => return []

/-- The run of characters in a class, which has no line breaks. -/
def run (p : Char → Bool) : Reader (List Char) := do atMost p ((← get).size + 1)

/-- Step over a run of characters in a class, which has no line breaks. -/
def skipRun (p : Char → Bool) : Reader Unit := discard (run p)

/-! ## Comments -/

/-- The number of characters within which a comment is looked for. -/
def commentReach : Nat := 512

/-- Look at the place `ahead` characters from here and find no comment there. -/
def noComment (ahead : Nat) : Reader (Option Nat) := do
  if ahead < commentReach then discard (lookAhead (ahead + 1))
  return none

/-- The number of characters before the comment that ends this line; nothing if there is none. The
text starts `ahead` characters from here. -/
def commentBehind (ahead : Nat) : List Char → Reader (Option Nat)
  | [] => noComment ahead
  | x :: text => do
    if commentReach ≤ ahead then return none
    if !(← lookAhead (ahead + 1)) then return none
    if isBlank x then commentBehind (ahead + 1) text
    else return if x = '#' then some ahead else none

/-- The number of characters before the next comment, if only blanks and line breaks are there. The
text starts `ahead` characters from here. Nothing is found behind a line break of several bytes. -/
def commentBelow (ahead : Nat) : List Char → Reader (Option Nat)
  | [] => noComment ahead
  | x :: text => do
    if commentReach ≤ ahead then return none
    if !(← lookAhead (ahead + 1)) then return none
    if isBlank x then commentBelow (ahead + 1) text
    else if isBreak x then
      if x.utf8Size = 1 then commentBelow (ahead + 1) text else noComment (ahead + 1)
    else return if x = '#' then some ahead else none

/-- Step over a comment that starts at an index, up to the end of its line. At most `n` characters
are stepped over. -/
def skipComment (start : Nat) : Nat → Reader Unit
  | 0 => pure ()
  | n + 1 => do
    need 1
    let c ← get
    if c.isEndOr isBreak then
      if c.mark.index < start then
        discard lineBreak
        skipComment start n
    else
      skip
      skipComment start n

/-- Step over the comment that ends this line, unless a line break came last. -/
def lineComment : Reader Unit := do
  let c ← get
  if c.breaks = 0 then
    match ← commentBehind 0 c.rest with
    | some ahead => skipComment (c.mark.index + ahead) (c.size + 1)
    | none => pure ()

/-- Step over the comment that starts `ahead` characters from here, and over further comments on the
lines below it, at most `n` in all. -/
def comments : Nat → Nat → Reader Unit
  | 0, _ => pure ()
  | n + 1, ahead => do
    skipComment ((← here).index + ahead) ((← get).size + 1)
    let c ← get
    let next ←
      if c.isIn fun x => x.utf8Size > 1 then noComment 1 else commentBelow 1 (c.rest.drop 1)
    match next with
    | some ahead => comments n ahead
    | none => pure ()

end Reader

/-! ## Gaps -/

/-- The blanks and line breaks between two words. -/
structure Gap where
  /-- The blanks before a line break, the last first. -/
  blanks : List Char := []
  /-- Whether a line break was met. -/
  broken : Bool := false
  first : List Char := []
  /-- The line breaks after the first one, the last first. -/
  more : List Char := []
  deriving Repr, Inhabited

namespace Gap

/-- What a gap is folded to: a single line break becomes a space, and of several the first is
dropped. -/
def folded (g : Gap) : List Char :=
  if g.broken then
    if g.first.head? = some '\n' then if g.more = [] then [' '] else g.more.reverse
    else g.first ++ g.more.reverse
  else g.blanks.reverse

/-- Read on while there are blanks and line breaks. Within the first `tabLimit` columns of a new
line a tab is an error. -/
def read (start : Mark) (tabLimit : Nat) : Nat → Gap → Reader Gap
  | 0, g => return g
  | n + 1, g => do
    Reader.need 1
    let c ← get
    match c.head? with
    | none => return g
    | some x =>
      if isBlank x then
        if g.broken ∧ c.mark.column < tabLimit ∧ x = '\t' then Reader.fail .plainTab start
        Reader.skip
        read start tabLimit n (if g.broken then g else { g with blanks := x :: g.blanks })
      else if isBreak x then
        let b ← Reader.lineBreak
        read start tabLimit n
          (if g.broken then { g with more := b ++ g.more } else { broken := true, first := b })
      else return g

end Gap

end Lane.Yaml
