import Lane.Fault
import Lane.Yaml.Scan

set_option relaxedAutoImplicit false
set_option autoImplicit false

/-!
# YAML documents

A document is a tree of scalars, sequences and mappings, in which an alias refers to a node that was
named before it. The node may hold the alias itself, so the nodes with names are kept in a table
beside the tree, and an alias has the number of its node there.

## Main definitions

* `Lane.Yaml.Node`, `Lane.Yaml.Document`: the trees, and a tree with the nodes that have names.
* `Lane.Yaml.Failure`: why a text gives no document or a document no value.
* `Lane.Yaml.Document.ofText`: the first document of a text.
-/

namespace Lane.Yaml

/-- The trees of documents. Each node has the number of its line. -/
inductive Node where
  /-- A scalar; its tag is empty if none is written. -/
  | scalar (line : Nat) (tag text : String) (style : Style)
  | sequence (line : Nat) (tag : String) (items : List Node)
  | mapping (line : Nat) (tag : String) (pairs : List (Node × Node))
  /-- A name at a place of the text, and the number of the node that it stands for. -/
  | alias (line : Nat) (place : Nat) (name : String) (target : Nat)
  deriving Repr, Inhabited

/-- The line of a node. -/
def Node.line : Node → Nat
  | .scalar n _ _ _ | .sequence n _ _ | .mapping n _ _ | .alias n _ _ _ => n

/-- Whether a node is a mapping. -/
def Node.isMapping : Node → Bool
  | .mapping .. => true
  | _ => false

/-- A tree, and the nodes of it that have names in the order in which they start. -/
structure Document where
  root : Node
  named : Array Node := #[]
  deriving Repr, Inhabited

/-- Why a text gives no document or a document no value. -/
inductive Failure where
  | unreadable (e : ReadError)
  | unknownAnchor (name : String)
  /-- A node stands for a tree that it is part of. -/
  | selfAnchor (name : String)
  /-- Too much of a document comes from its aliases. -/
  | aliases
  /-- What is merged into a mapping is none. -/
  | mergeValue
  /-- A scalar does not have the type that its tag asks for. -/
  | wrongTag (found text asked : String)
  /-- A scalar that should be bytes is not. -/
  | notBinary
  /-- A collection is a key. -/
  | collectionKey (shown : String)
  /-- The decoder does what it must not. -/
  | fault (f : Fault)
  /-- Values of the wrong form, a line for each. -/
  | mismatches (lines : List String)
  deriving DecidableEq, Repr, Inhabited

/-- The message of a failure. -/
def Failure.message : Failure → String
  | .unreadable e => "yaml: " ++ e.message
  | .unknownAnchor name => "yaml: unknown anchor '" ++ name ++ "' referenced"
  | .selfAnchor name => "yaml: anchor '" ++ name ++ "' value contains itself"
  | .aliases => "yaml: document contains excessive aliasing"
  | .mergeValue => "yaml: map merge requires map or sequence of maps as the value"
  | .wrongTag found text asked =>
    "yaml: cannot decode " ++ found ++ " " ++ "\x60" ++ text ++ "\x60" ++ " as a " ++ asked
  | .notBinary => "yaml: !!binary value contains invalid base64 data"
  | .collectionKey shown => "yaml: invalid map key: " ++ shown
  | .fault f => "yaml: " ++ f.text
  | .mismatches lines => "yaml: unmarshal errors:\n  " ++ "\n  ".intercalate lines

/-! ## Tags -/

/-- The start of the tags that the format itself defines. -/
def standardTag : String := "tag:yaml.org,2002:"

/-- The short form of a tag. -/
def shortTag (tag : String) : String :=
  if standardTag.toList.isPrefixOf tag.toList then
    "!!" ++ String.ofList (tag.toList.drop standardTag.length)
  else tag

/-- The handles that need no directive. -/
def standardHandles : List (String × String) := [("!", "!"), ("!!", standardTag)]

/-! ## Building trees -/

/-- The state of a reader of trees. -/
structure Composer where
  scanner : Scanner
  /-- The names that are known, the latest first, with the numbers of their nodes. -/
  anchors : List (String × Nat) := []
  /-- The nodes that have names. Those that are not complete hold a place. -/
  named : Array Node := #[]
  handles : List (String × String) := []
  deriving Inhabited

/-- Computations of a reader of trees. -/
abbrev Compose := StateT Composer (Except Failure)

namespace Compose

/-- Run a scanner. -/
def scan {α : Type} (x : Scan α) : Compose α := do
  let s := (← get).scanner
  match StateT.run x s with
  | .ok (a, scanner) =>
    modify fun s => { s with scanner }
    return a
  | .error e => throw (.unreadable e)

/-- The next token. -/
def peek : Compose PlacedToken := scan Scan.peek

/-- Step over the next token. -/
def skip : Compose Unit := scan Scan.advance

/-- Step over the next token and look at the one behind it. -/
def advance : Compose PlacedToken := do
  skip
  peek

/-- A part of the document is complete: fail if a comment was looked for on the way in a portion of
the text that cannot be read. -/
def settle : Compose Unit := do
  if (← get).scanner.cursor.overdue then throw (.unreadable Reader.spoiltError)

/-- Fail at a token, in something that starts at `start`. -/
def fail {α : Type} (problem : Problem) (start here : Mark) : Compose α :=
  throw (.unreadable (.inTokens problem start here))

/-- Fail at a token. -/
def failAt {α : Type} (problem : Problem) (here : Mark) : Compose α := fail problem {} here

/-- A scalar that is not written. -/
def empty (mark : Mark) : Compose Node := do
  settle
  return .scalar (mark.line + 1) "" "" .plain

/-- The end of a collection, whose closing token is next. -/
def close {α : Type} : Compose (List α) := do
  skip
  settle
  return []

/-- Read a node with a name, which may be empty. The name is known as soon as the node starts. -/
def naming (anchor : String) (read : Compose Node) : Compose Node := do
  settle
  if anchor = "" then read
  else
    let number := (← get).named.size
    modify fun s =>
      { s with anchors := (anchor, number) :: s.anchors, named := s.named.push default }
    let result ← read
    modify fun s => { s with named := s.named.setIfInBounds number result }
    return result

/-- The number of the node that a name stands for. -/
def target (name : String) : Compose Nat := do
  match (← get).anchors.lookup name with
  | some number => return number
  | none => throw (.unknownAnchor name)

/-- The tag with a handle and a suffix; a lone `!` is no tag. -/
def tagOf (handle suffix : String) (start mark : Mark) : Compose String := do
  let tag ←
    if handle = "" then pure suffix
    else match (← get).handles.lookup handle with
      | some text => pure (text ++ suffix)
      | none => fail .undefinedTag start mark
  if tag = "" then fail .undefinedTag start mark
  return tag

/-- What may stand before a node: its anchor, its tag, both empty if not written. The token behind
them is returned too. -/
def properties (t : PlacedToken) : Compose (String × String × PlacedToken) := do
  match t.token with
  | .anchor name =>
    let t' ← advance
    match t'.token with
    | .tag handle suffix =>
      let after ← advance
      return (name, ← tagOf handle suffix t.start t'.start, after)
    | _ => return (name, "", t')
  | .tag handle suffix =>
    let t' ← advance
    match t'.token with
    | .anchor name =>
      let after ← advance
      return (name, ← tagOf handle suffix t.start t.start, after)
    | _ => return ("", ← tagOf handle suffix t.start t.start, t')
  | _ => return ("", "", t)

/-- The tag of a node as it is kept. -/
def keptTag (tag : String) : String := if tag = "!" then "" else shortTag tag

/-- A node without content, which needs an anchor or a tag. -/
def bare (anchor tag : String) (first t : PlacedToken) : Compose Node :=
  if anchor = "" ∧ tag = "" then fail .nodeContent first.start t.start
  else naming anchor do
    return .scalar (first.start.line + 1) (keptTag tag) "" .plain

mutual

/-- A node. Block collections are read only if `block` is set, and a sequence on the column of its
key only if `indentless` is set. -/
def node : Nat → Bool → Bool → Compose Node
  | 0, _, _ => return default
  | n + 1, block, indentless => do
    let first ← peek
    let line := first.start.line + 1
    if let .alias name := first.token then
      skip
      settle
      return .alias line first.start.index name (← target name)
    let (anchor, tag, t) ← properties first
    let kept := keptTag tag
    match t.token, block with
    | .blockEntry, _ =>
      if indentless then naming anchor do return .sequence line kept (← indentlessItems n)
      else bare anchor tag first t
    | .scalar text style, _ =>
      skip
      naming anchor do return .scalar line kept text style
    | .flowSequence, _ =>
      skip
      naming anchor do return .sequence line kept (← flowItems n t.start true)
    | .flowMapping, _ =>
      skip
      naming anchor do return .mapping line kept (← flowPairs n t.start true)
    | .blockSequence, true =>
      skip
      naming anchor do return .sequence line kept (← blockItems n t.start)
    | .blockMapping, true =>
      skip
      naming anchor do return .mapping line kept (← blockPairs n t.start)
    | _, _ => bare anchor tag first t

/-- The items of a sequence that is opened by its indentation. -/
def blockItems : Nat → Mark → Compose (List Node)
  | 0, _ => return []
  | n + 1, start => do
    let t ← peek
    match t.token with
    | .blockEntry =>
      let after ← advance
      let item ← match after.token with
        | .blockEntry | .blockEnd => empty t.stop
        | _ => node n true false
      return item :: (← blockItems n start)
    | .blockEnd => close
    | _ => fail .sequenceDash start t.start

/-- The items of a sequence on the column of its key. -/
def indentlessItems : Nat → Compose (List Node)
  | 0 => return []
  | n + 1 => do
    let t ← peek
    match t.token with
    | .blockEntry =>
      let after ← advance
      let item ← match after.token with
        | .blockEntry | .key | .value | .blockEnd => empty t.stop
        | _ => node n true false
      return item :: (← indentlessItems n)
    | _ =>
      settle
      return []

/-- The pairs of a mapping that is opened by its indentation. -/
def blockPairs : Nat → Mark → Compose (List (Node × Node))
  | 0, _ => return []
  | n + 1, start => do
    let t ← peek
    match t.token with
    | .key =>
      let after ← advance
      let k ← match after.token with
        | .key | .value | .blockEnd => empty t.stop
        | _ => node n true true
      let v ← blockValue n
      return (k, v) :: (← blockPairs n start)
    | .blockEnd => close
    | _ => fail .mappingKeyMissing start t.start

/-- The value of a pair in a block. -/
def blockValue : Nat → Compose Node
  | 0 => return default
  | n + 1 => do
    let t ← peek
    match t.token with
    | .value =>
      let after ← advance
      match after.token with
      | .key | .value | .blockEnd => empty t.stop
      | _ => node n true true
    | _ => empty t.start

/-- The items of a sequence in brackets. -/
def flowItems : Nat → Mark → Bool → Compose (List Node)
  | 0, _, _ => return []
  | n + 1, start, isFirst => do
    let t ← peek
    if t.token = .flowSequenceEnd then return ← close
    let t ← if isFirst then pure t
      else if t.token = .flowEntry then advance
      else fail .flowSequenceEnd start t.start
    match t.token with
    | .flowSequenceEnd => close
    | .key =>
      skip
      settle
      let k ← flowPairKey n
      let v ← flowPairValue n
      let _ ← peek
      settle
      let item := Node.mapping (t.start.line + 1) "" [(k, v)]
      return item :: (← flowItems n start false)
    | _ =>
      let item ← node n false false
      return item :: (← flowItems n start false)

/-- The key of a pair that is an item of a sequence. -/
def flowPairKey : Nat → Compose Node
  | 0 => return default
  | n + 1 => do
    let t ← peek
    match t.token with
    | .value | .flowEntry | .flowSequenceEnd =>
      skip
      empty t.stop
    | _ => node n false false

/-- The value of a pair that is an item of a sequence. -/
def flowPairValue : Nat → Compose Node
  | 0 => return default
  | n + 1 => do
    let t ← peek
    if t.token = .value then
      let after ← advance
      match after.token with
      | .flowEntry | .flowSequenceEnd => empty after.start
      | _ => node n false false
    else empty t.start

/-- The pairs of a mapping in braces. -/
def flowPairs : Nat → Mark → Bool → Compose (List (Node × Node))
  | 0, _, _ => return []
  | n + 1, start, isFirst => do
    let t ← peek
    if t.token = .flowMappingEnd then return ← close
    let t ← if isFirst then pure t
      else if t.token = .flowEntry then advance
      else fail .flowMappingEnd start t.start
    match t.token with
    | .flowMappingEnd => close
    | .key =>
      let after ← advance
      let k ← match after.token with
        | .value | .flowEntry | .flowMappingEnd => empty after.start
        | _ => node n false false
      let v ← flowValue n
      return (k, v) :: (← flowPairs n start false)
    | _ =>
      let k ← node n false false
      let v ← empty (← peek).start
      return (k, v) :: (← flowPairs n start false)

/-- The value of a pair in braces. -/
def flowValue : Nat → Compose Node
  | 0 => return default
  | n + 1 => do
    let t ← peek
    if t.token = .value then
      let after ← advance
      match after.token with
      | .flowEntry | .flowMappingEnd => empty after.start
      | _ => node n false false
    else empty t.start

end

/-- The directives before a document. -/
def directives : Nat → Bool → List (String × String) → Compose (List (String × String))
  | 0, _, handles => return handles
  | n + 1, versioned, handles => do
    let t ← peek
    match t.token with
    | .version major minor =>
      if versioned then failAt .duplicateVersion t.start
      if (major, minor) ≠ (1, 1) then failAt .otherVersion t.start
      skip
      directives n true handles
    | .tagDirective handle text =>
      if (handles.lookup handle).isSome then failAt .duplicateTag t.start
      skip
      directives n versioned ((handle, text) :: handles)
    | _ => return handles

/-- The content of a document, and its end. -/
def content (root : Compose Node) : Compose Document := do
  let root ← root
  let _ ← peek
  settle
  return { root, named := (← get).named }

/-- The first document; nothing if there is none. -/
def document (fuel : Nat) : Compose (Option Document) := do
  let _ ← peek
  skip
  settle
  let t ← peek
  match t.token with
  | .streamEnd =>
    settle
    return none
  | .version _ _ | .tagDirective _ _ | .documentStart =>
    let handles ← directives fuel false []
    modify fun s => { s with handles := handles ++ standardHandles }
    let t ← peek
    if t.token ≠ .documentStart then failAt .documentStart t.start
    skip
    settle
    let t ← peek
    some <$> content (match t.token with
      | .version _ _ | .tagDirective _ _ | .documentStart | .documentEnd | .streamEnd =>
        empty t.start
      | _ => node fuel true false)
  | _ =>
    modify fun s => { s with handles := standardHandles }
    settle
    some <$> content (node fuel true false)

end Compose

/-- The first document of a text; nothing if there is none. -/
def Document.ofText (text : List Char) : Except Failure (Option Document) :=
  (StateT.run (Compose.document (8 * text.length + 64)) { scanner := .ofText text }).map Prod.fst

end Lane.Yaml
