import Lane.Yaml.Tag

set_option relaxedAutoImplicit false
set_option autoImplicit false

/-!
# From YAML text to tokens

The indentation of lines opens and closes block collections. Whether a word is a key is known only
at the colon behind it, so a scanner keeps the last place of each bracket level where a key may
start and puts the token for the key there later. Tokens are made only as far as they are asked for:
a token is shown once the two tokens after it are made and it is decided whether it is a key.

## Main definitions

* `Lane.Yaml.KeyPlace`: a place where a key may start.
* `Lane.Yaml.Scanner`: the state of a scanner.
* `Lane.Yaml.Scan`: computations of a scanner.
* `Lane.Yaml.Scan.peek`, `Lane.Yaml.Scan.advance`: the next token, and the step over it.
-/

namespace Lane.Yaml

/-- A place where a key may start. -/
structure KeyPlace where
  /-- Whether a key may still start here. -/
  possible : Bool := false
  /-- Whether a key has to stand here. -/
  required : Bool := false
  /-- The number of the token that would be the key. -/
  number : Nat := 0
  mark : Mark := {}
  deriving DecidableEq, Repr, Inhabited

/-- The number of characters within which the colon of a key has to follow. -/
def keyLimit : Nat := 1024

/-- Whether a key that starts at a place can still end at `mark`. -/
def KeyPlace.reaches (k : KeyPlace) (mark : Mark) : Bool :=
  mark.line ≤ k.mark.line && mark.index ≤ k.mark.index + keyLimit

/-- The state of a scanner. -/
structure Scanner where
  cursor : Cursor
  /-- The tokens that have been made. -/
  tokens : Array PlacedToken := #[]
  /-- The number of tokens that have been stepped over. -/
  next : Nat := 0
  /-- The column of the innermost block collection; negative outside all. -/
  indent : Int := -1
  /-- The columns of the collections around it. -/
  indents : List Int := []
  /-- The number of collections around it. -/
  depth : Nat := 0
  /-- For each bracket level, the innermost last, the place where a key may start. -/
  keys : Array KeyPlace := #[{}]
  /-- The numbers of tokens that are not shown while a key may start on a level, with the level. -/
  awaited : List (Nat × Nat) := []
  /-- Whether a key may start here. -/
  keyAllowed : Bool := true
  deriving Repr, Inhabited

namespace Scanner

/-- Whether a bracket is open. -/
def inFlow (s : Scanner) : Bool := s.keys.size > 1

/-- The place where a key of this level may start. -/
def key (s : Scanner) : KeyPlace := s.keys.back?.getD {}

/-- Set the place where a key of this level may start. -/
def setKey (s : Scanner) (k : KeyPlace) : Scanner := { s with keys := s.keys.pop.push k }

/-- Show the token with a number although it may be a key. -/
def release (s : Scanner) (number : Nat) : Scanner :=
  { s with awaited := s.awaited.filter fun a => a.1 ≠ number }

/-- The place where the scanner is. -/
def mark (s : Scanner) : Mark := s.cursor.mark

/-- Add a token. -/
def push (s : Scanner) (token : Token) (start stop : Mark) : Scanner :=
  { s with tokens := s.tokens.push ⟨token, start, stop⟩ }

/-- Add a token at a number, or at the end if the token with that number has been stepped over. -/
def insert (s : Scanner) (number : Nat) (token : Token) (mark : Mark) : Scanner :=
  if number < s.next then s.push token mark mark
  else { s with tokens :=
      s.tokens.extract 0 number ++ #[⟨token, mark, mark⟩] ++ s.tokens.extract number s.tokens.size }

end Scanner

/-- Computations of a scanner. -/
abbrev Scan := StateT Scanner (Except ReadError)

namespace Scan

/-- Read from the text of a scanner. -/
def read {α : Type} (r : Reader α) : Scan α := do
  let c := (← get).cursor
  let (a, cursor) ← (StateT.run r c : Except ReadError (α × Cursor))
  modify fun s => { s with cursor }
  return a

/-- The place where the scanner is. -/
def here : Scan Mark := return (← get).mark

/-- Fail where the scanner is, in something that starts at `start`. -/
def fail {α : Type} (problem : Problem) (start : Mark) : Scan α := do
  throw (.inText problem start (← here))

/-- Say whether a key may start here. -/
def allowKey (b : Bool) : Scan Unit := modify fun s => { s with keyAllowed := b }

/-- Add a token that starts at `start` and ends here. -/
def push (token : Token) (start : Mark) : Scan Unit := modify fun s => s.push token start s.mark

/-- Add a token of `n` characters. -/
def pushMark (token : Token) (n : Nat) : Scan Unit := do
  let start ← here
  read (Reader.skips n)
  push token start

/-! ## Keys -/

/-- Set the place where a key of this level may start. -/
def setKey (k : KeyPlace) : Scan Unit := modify fun s => s.setKey k

/-- Give up the place where a key may start. -/
def giveUpKey : Scan Unit :=
  modify fun s => (s.setKey { s.key with possible := false }).release s.key.number

/-- Give up the place where a key may start, if it need not. -/
def dropKey : Scan Unit := do
  let k := (← get).key
  if k.possible then
    if k.required then fail .missingColon k.mark
    giveUpKey

/-- A key may start here. In a block it has to, on the column of the collection. -/
def saveKey : Scan Unit := do
  let s ← get
  if s.keyAllowed then
    dropKey
    setKey
      { possible := true
        required := !s.inFlow && s.indent = s.mark.column
        number := s.tokens.size
        mark := s.mark }
    modify fun s => { s with awaited := (s.key.number, s.keys.size - 1) :: s.awaited }

/-- A place where a key may start, given up if the key cannot end here. -/
def checked (k : KeyPlace) : Scan KeyPlace := do
  if k.possible && !k.reaches (← here) then
    if k.required then fail .missingColon k.mark
    return { k with possible := false }
  return k

/-! ## Indentation -/

/-- Open a block collection at a column, unless one is open there. -/
def openBlock (column : Nat) (number : Nat) (token : Token) (mark : Mark) : Scan Unit := do
  let s ← get
  if !s.inFlow && s.indent < column then
    if depthLimit ≤ s.depth then fail .tooDeep s.key.mark
    modify fun s =>
      { s.insert number token mark with
        indent := column, indents := s.indent :: s.indents, depth := s.depth + 1 }

/-- Open a block collection here. -/
def openBlockHere (token : Token) : Scan Unit := do
  let s ← get
  openBlock s.mark.column s.tokens.size token s.mark

/-- Close the block collections that are indented by more than `column`. -/
def closeBlocks (column : Int) (mark : Mark) : Scan Unit := do
  let s ← get
  if !s.inFlow then
    let levels := s.indent :: s.indents
    let closed := levels.takeWhile (column < ·)
    let left := levels.drop closed.length
    let tokens := closed.map fun _ => (⟨.blockEnd, mark, mark⟩ : PlacedToken)
    modify fun s =>
      { s with
        tokens := s.tokens ++ tokens.toArray
        indent := left.head?.getD (-1)
        indents := left.tail
        depth := s.depth - closed.length }

/-- Close all block collections, and expect no key any more. -/
def closeAll : Scan Unit := do
  closeBlocks (-1) (← here)
  dropKey
  allowKey false

/-! ## Between tokens -/

/-- Move to the next token, over at most `n` line breaks. Tabs do not count as indentation. A
character at the start of a line is passed over while the last portion of the text was asked for at
a byte order mark. -/
def toToken : Nat → Scan Unit
  | 0 => pure ()
  | n + 1 => do
    let s ← get
    read do
      Reader.need 1
      let c ← get
      if c.mark.column = 0 ∧ c.marked then Reader.skip
      Reader.skipRun fun x => x = ' ' || (x = '\t' && (s.inFlow || !s.keyAllowed))
      if ← Reader.isAt '#' then Reader.comments (c.size + 1) 0
    if (← get).cursor.isIn isBreak then
      let _ ← read Reader.lineBreak
      if !s.inFlow then allowKey true
      toToken n

/-! ## Tokens -/

/-- The end of the text. -/
def fetchEnd : Scan Unit := do
  let mark ← here
  let mark := if mark.column = 0 then mark else { mark with line := mark.line + 1, column := 0 }
  modify fun s => { s with cursor := { s.cursor with mark } }
  closeAll
  push .streamEnd mark

/-- A directive. -/
def fetchDirective : Scan Unit := do
  closeAll
  let start ← here
  let (token, stop) ← read readDirective
  modify fun s => s.push token start stop

/-- The start or end of a document. -/
def fetchDocument (token : Token) : Scan Unit := do
  closeAll
  pushMark token 3

/-- An opening bracket. -/
def fetchOpen (token : Token) : Scan Unit := do
  saveKey
  let s ← get
  if depthLimit < s.keys.size then fail .tooDeep s.mark
  modify fun s => { s with keys := s.keys.push { number := s.tokens.size, mark := s.mark } }
  allowKey true
  pushMark token 1

/-- A closing bracket. If no key could start behind the opening bracket, the bracket itself is shown
before it is decided whether it starts a key. -/
def fetchClose (token : Token) : Scan Unit := do
  dropKey
  if (← get).inFlow then
    modify fun s => { s.release s.key.number with keys := s.keys.pop }
  allowKey false
  pushMark token 1

/-- A comma in brackets. -/
def fetchFlowEntry : Scan Unit := do
  dropKey
  allowKey true
  pushMark .flowEntry 1

/-- Open a block collection for an entry or a key that may stand here. -/
def openEntry (problem : Problem) (collection : Token) : Scan Unit := do
  let s ← get
  if !s.inFlow then
    if !s.keyAllowed then fail problem s.mark
    openBlockHere collection

/-- A dash. -/
def fetchBlockEntry : Scan Unit := do
  openEntry .sequenceEntry .blockSequence
  dropKey
  allowKey true
  pushMark .blockEntry 1

/-- A question mark before a key. -/
def fetchKey : Scan Unit := do
  openEntry .mappingKey .blockMapping
  dropKey
  allowKey (!(← get).inFlow)
  pushMark .key 1

/-- A colon. If a key may have started before it on its line, it has. -/
def fetchValue : Scan Unit := do
  let k ← checked (← get).key
  setKey k
  if k.possible then
    modify fun s => s.insert k.number .key k.mark
    openBlock k.mark.column k.number .blockMapping k.mark
    giveUpKey
    allowKey false
  else
    openEntry .mappingValue .blockMapping
    allowKey (!(← get).inFlow)
  pushMark .value 1

/-- An anchor or alias. -/
def fetchAnchor (token : String → Token) : Scan Unit := do
  saveKey
  allowKey false
  let start ← here
  push (token (← read readAnchor)) start

/-- A tag. -/
def fetchTag : Scan Unit := do
  saveKey
  allowKey false
  let start ← here
  let (handle, suffix) ← read readTag
  push (.tag handle suffix) start

/-- A scalar that is a block of lines. -/
def fetchBlock (isLiteral : Bool) : Scan Unit := do
  dropKey
  allowKey true
  let start ← here
  let text ← read (readBlock isLiteral (← get).indent)
  push (.scalar text (if isLiteral then .literal else .folded)) start

/-- A scalar between quotes. -/
def fetchQuoted (isSingle : Bool) : Scan Unit := do
  saveKey
  allowKey false
  let start ← here
  let text ← read (readQuoted isSingle)
  push (.scalar text (if isSingle then .single else .double)) start

/-- A plain scalar. -/
def fetchPlain : Scan Unit := do
  saveKey
  let s ← get
  let (text, broken) ← read (readPlain s.inFlow (s.indent + 1).toNat)
  allowKey broken
  push (.scalar text .plain) s.mark

/-- The characters that start no plain scalar, whatever follows them. -/
def isIndicator (c : Char) : Bool :=
  [',', '[', ']', '\x7b', '\x7d', '#', '&', '*', '!', '|', '>', '\'', '"', '%', '@',
    Char.ofNat 0x60].contains c

/-- Whether a plain scalar starts with the character `x`, which is the next one. -/
def startsPlain (s : Scanner) (x : Char) : Bool :=
  if x = '-' then !(s.cursor.rest[1]?).any isBlank
  else if x = '?' ∨ x = ':' then !s.inFlow && !spaceAt s.cursor.rest 1
  else !(isSpace x || isIndicator x)

/-- The token of a node or a pair that starts with the character `x`. -/
def fetchPart (x : Char) : Scan Unit := do
  let s ← get
  let alone := spaceAt s.cursor.rest 1
  if x = '[' then fetchOpen .flowSequence
  else if x = '\x7b' then fetchOpen .flowMapping
  else if x = ']' then fetchClose .flowSequenceEnd
  else if x = '\x7d' then fetchClose .flowMappingEnd
  else if x = ',' then fetchFlowEntry
  else if x = '-' ∧ alone then fetchBlockEntry
  else if x = '?' ∧ (s.inFlow ∨ alone) then fetchKey
  else if x = ':' ∧ (s.inFlow ∨ alone) then fetchValue
  else if x = '*' then fetchAnchor .alias
  else if x = '&' then fetchAnchor .anchor
  else if x = '!' then fetchTag
  else if x = '|' ∧ !s.inFlow then fetchBlock true
  else if x = '>' ∧ !s.inFlow then fetchBlock false
  else if x = '\'' then fetchQuoted true
  else if x = '"' then fetchQuoted false
  else if startsPlain s x then fetchPlain
  else fail .noToken s.mark

/-- The next token. A comment may end its line, except behind a dash. -/
def fetch : Scan Unit := do
  read (Reader.need 1)
  let before ← here
  toToken ((← get).cursor.size + 2)
  closeBlocks (← here).column before
  read (Reader.need 4)
  let c := (← get).cursor
  match c.head? with
  | none => fetchEnd
  | some x =>
    if c.mark.column = 0 ∧ x = '%' then fetchDirective
    else if c.isDocumentMark '-' then fetchDocument .documentStart
    else if c.isDocumentMark '.' then fetchDocument .documentEnd
    else
      fetchPart x
      if !(← get).tokens.back?.any (·.token = .blockEntry) then read Reader.lineComment

/-- Whether the next token is not shown yet because a key may start. -/
def isUndecided : Scan Bool := do
  let s ← get
  match s.awaited.lookup s.next with
  | some level =>
    let k ← checked (s.keys.getD level {})
    modify fun s => { s with keys := s.keys.setIfInBounds level k }
    return k.possible
  | none => return false

/-- Make at most `n` tokens, until the next one can be shown. -/
def fetchMore : Nat → Scan Unit
  | 0 => pure ()
  | n + 1 => do
    let s ← get
    let isWanting ← if s.tokens.size ≤ s.next + 2 then pure true else isUndecided
    if isWanting then
      fetch
      fetchMore n

/-- The next token. -/
def peek : Scan PlacedToken := do
  fetchMore ((← get).cursor.size + 8)
  let s ← get
  return s.tokens.getD s.next default

/-- Step over the next token. -/
def advance : Scan Unit := modify fun s => { s with next := s.next + 1 }

end Scan

/-- A scanner at the start of a text, before the token for the start. -/
def Scanner.ofText (text : List Char) : Scanner :=
  { cursor := .ofText text, tokens := #[⟨.streamStart, {}, {}⟩] }

end Lane.Yaml
