import Lane.Host.Basic
import Lane.Project.Config
import Lane.Text.Rune
import Lane.Yaml.Datum

set_option relaxedAutoImplicit false
set_option autoImplicit false

/-!
# Reading project files

The document of a project file is a mapping from the names of settings to their values. All values
of the wrong form are reported together. What is merged into a mapping fills in what the mapping
itself does not say.

## Main definitions

* `Lane.Decoder`, `Lane.Decode`: the state of a decoder, and its computations.
* `Lane.Decode.Schema`, `Lane.Decode.settings`: a type of settings, and the settings that a node
  gives.
* `Lane.Config.ofText`: the settings that a text describes.
* `Lane.Config.load`: the settings of the project in a directory.
-/

namespace Lane

open Yaml (Node Document Value Datum Pairs Failure)

/-- The state of a decoder. -/
structure Decoder where
  /-- The nodes that aliases refer to. -/
  named : Array Node := #[]
  mismatches : Array String := #[]
  /-- How often a node was decoded. The document itself counts too. -/
  steps : Nat := 1
  /-- How often an alias led there. -/
  aliasSteps : Nat := 0
  /-- The places of the aliases that led here, the last first. -/
  aliases : List Nat := []
  /-- Where something is merged into a mapping, the keys for which it says nothing any more. -/
  said : Option (List Value) := none
  deriving Inhabited

/-- Whether too many steps come from aliases. In small documents nearly all may, in large ones one
in ten, and between `400000` and `4000000` steps the share falls evenly. -/
def Decoder.isExcessive (d : Decoder) : Bool :=
  let allowed : Int :=
    if d.steps ≤ 400000 then 99 * 3600000
    else if 4000000 ≤ d.steps then 10 * 3600000
    else 99 * 3600000 - 89 * (d.steps - 400000)
  d.aliasSteps > 100 && d.steps > 1000 && (d.aliasSteps : Int) * 100 * 3600000 > d.steps * allowed

/-- Computations that collect mismatches and may fail altogether. -/
abbrev Decode := StateT Decoder (Except Failure)

namespace Decode

/-- Report a mismatch. -/
def mismatch (line : Nat) (what : String) : Decode Unit :=
  modify fun d =>
    { d with mismatches := d.mismatches.push ("line " ++ toString line ++ ": " ++ what) }

/-- A value as mismatches show it: long ones are cut. -/
def shown (text : String) : String :=
  let bytes := text.toUTF8.toList
  if bytes.length > 10 then Rune.text (Rune.decode (bytes.take 7)) ++ "..." else text

/-- Report that a node has the wrong form for a type. -/
def wrongForm (line : Nat) (tag text type : String) : Decode Unit :=
  let value := if tag = "!!seq" ∨ tag = "!!map" then text else " \x60" ++ shown text ++ "\x60"
  mismatch line ("cannot unmarshal " ++ tag ++ value ++ " into " ++ type)

/-- The tag of a collection: the one that is written, or the one of its kind. -/
def collectionTag (tag default : String) : String := if tag = "" then default else tag

/-! ## Nodes -/

/-- Count a step. -/
def step : Decode Unit := do
  modify fun d =>
    { d with
      steps := d.steps + 1
      aliasSteps := if d.aliases = [] then d.aliasSteps else d.aliasSteps + 1 }
  if (← get).isExcessive then throw .aliases

/-- Decode a node, or what it stands for if it is an alias. -/
def visit {α : Type} (node : Node) (decode : Node → Decode α) : Decode α := do
  step
  match node with
  | .alias _ place name number =>
    let d ← get
    if d.aliases.contains place then throw (.selfAnchor name)
    set { d with aliases := place :: d.aliases }
    step
    let a ← decode (d.named.getD number default)
    modify fun d => { d with aliases := d.aliases.tail }
    return a
  | _ => decode node

/-- What makes two keys the same: the kind of node and its text. -/
def keyText : Node → Nat × String
  | .scalar _ _ text _ => (0, text)
  | .sequence _ _ _ => (1, "")
  | .mapping _ _ _ => (2, "")
  | .alias _ _ name _ => (3, name)

/-- Report keys that repeat an earlier one; the answer tells whether there are none. -/
def checkKeys : List Node → Decode Bool
  | [] => return true
  | k :: rest => do
    let same := rest.filter fun other => keyText other = keyText k
    for other in same do
      mismatch other.line ("mapping key " ++ Text.quote (keyText k).2
        ++ " already defined at line " ++ toString k.line)
    return (← checkKeys rest) && same.isEmpty

/-- The value of a scalar. -/
def scalarValue (tag text : String) (style : Yaml.Style) : Decode Value :=
  match Value.ofScalar tag text style with
  | .ok v => return v
  | .error e => throw e

/-- The text that a node gives for a setting, if it gives one. Every scalar but nothing gives its
text. -/
def text? (node : Node) : Decode (Option RawText) :=
  visit node fun
    | .scalar _ tag text style => do
      match ← scalarValue tag text style with
      | .null => return none
      | .text t => return some t
      | _ => return some text
    | .sequence line tag _ => do
      wrongForm line (collectionTag tag "!!seq") "" "string"
      return none
    | .mapping line tag pairs => do
      if ← checkKeys (pairs.map Prod.fst) then
        wrongForm line (collectionTag tag "!!map") "" "string"
      return none
    | .alias .. => return none

/-- The integer that a float gives: the part before the point, or the least word if it has none that
fits. Nothing for floats above all words. -/
def truncate? (x : Binary64) : Option Int :=
  match x.magnitude with
  | .nan => none
  | .infinite => if x.isNegative then some (-Integer.signedBound) else none
  | .finite m e =>
    let f := Fraction.scaled m 2 e
    let whole : Int := f.num / f.den
    if x.isNegative then some (max (-whole) (-Integer.signedBound))
    else if whole < Integer.signedBound then some whole
    else if f.eq ⟨Integer.signedBound, 1⟩ then some (-Integer.signedBound)
    else none

/-- The integer that a value gives, if it fits into a word. -/
def integerOf? : Value → Option Int
  | .int n => if n < Integer.signedBound then some n else none
  | .float x => truncate? x
  | _ => none

/-- The integer that a node gives for a setting, if it gives one. -/
def integer? (node : Node) : Decode (Option Int) :=
  visit node fun
    | .scalar line tag text style => do
      match ← scalarValue tag text style with
      | .null => return none
      | v =>
        match integerOf? v with
        | some n => return some n
        | none =>
          wrongForm line (Value.tagOf tag text style) text "int"
          return none
    | .sequence line tag _ => do
      wrongForm line (collectionTag tag "!!seq") "" "int"
      return none
    | .mapping line tag pairs => do
      if ← checkKeys (pairs.map Prod.fst) then wrongForm line (collectionTag tag "!!map") "" "int"
      return none
    | .alias .. => return none

/-! ## Merging -/

/-- Whether a key is the mark of a merge. -/
def isMerge : Node → Bool
  | .scalar _ tag text style =>
    text = "<<" && ((tag = "" && style = .plain) || tag = "!!merge")
  | _ => false

/-- Say for which keys what is merged has nothing to say any more. -/
def setSaid (said : Option (List Value)) : Decode Unit := modify fun d => { d with said }

/-- The node that an alias refers to; any other node itself. -/
def target (node : Node) : Decode Node := do
  match node with
  | .alias _ _ _ number => return (← get).named.getD number default
  | _ => return node

/-- Merge a mapping, or a list of mappings one after the other. -/
def mergeWith {α : Type} (decode : Node → α → Decode α) (what : Node) (a : α) : Decode α := do
  let nodes := match what with
    | .sequence _ _ items => items
    | _ => [what]
  nodes.foldlM (fun a node => do
    if !(← target node).isMapping then throw .mergeValue
    decode node a) a

/-- What has been decoded of a mapping. -/
structure Progress (α : Type) where
  result : α
  /-- The names of the settings that the mapping has changed. -/
  done : List RawText := []
  /-- If the mapping is merged, the keys for which it says nothing any more. -/
  said : Option (List Value)
  /-- What is merged into the mapping. -/
  merge : Option Node := none

/-- Whether a key is a text, or the mark of a merge, by its tag. -/
def isTextKey (key : Node) : Decode Bool := do
  match ← target key with
  | .scalar _ tag text style => return ["!!str", "!!merge"].contains (Value.tagOf tag text style)
  | .sequence _ tag _ | .mapping _ tag _ => return ["!!str", "!!merge"].contains tag
  | .alias .. => return false

/-- Whether a node is a mapping that is tagged as nothing. -/
def isNullMapping (node : Node) : Decode Bool := do
  match ← target node with
  | .mapping _ tag _ => return tag = "!!null"
  | _ => return false

/-- Decode a pair of a mapping of any form, where all keys may have to be texts. Collections are no
keys; where a merge has to know whether a key was there, it cannot even ask. -/
def datumPair (datum? : Node → Decode (Option Datum)) (isTexts : Bool) (p : Progress Pairs)
    (pair : Node × Node) : Decode (Progress Pairs) := do
  let (k, v) := pair
  if isMerge k then return { p with merge := some v }
  let found ← if isTexts then do pure ((← text? k).map fun t => .scalar (.text t)) else datum? k
  match found with
  | none => return p
  | some (.collection type shown) =>
    throw (if p.said.isSome then .fault (.incomparable type) else .collectionKey shown)
  | some (.scalar key) =>
    if (p.said.getD []).any key.isSame then return p
    let p := { p with said := p.said.map (key :: ·) }
    match ← datum? v with
    | some value => return { p with result := p.result.put key value }
    | none =>
      if (← isNullMapping v) && !p.result.contains key then
        return { p with result := p.result.put key (.scalar .null) }
      return p

/-- Merge into a mapping. What the mapping says is not said again, and only plain values can be
compared for that. If the mapping is merged itself, what it has said is known already, and what is
merged into it counts for the mapping around it too. -/
def merging {α : Type} (datum? : Node → Decode (Option Datum)) (pairs : List (Node × Node))
    (merge : Decode α) : Decode α := do
  if (← get).said.isSome then return ← merge
  setSaid (some [])
  for (k, _) in pairs do
    match ← datum? k with
    | some (.scalar v) => modify fun d => { d with said := d.said.map (v :: ·) }
    | some (.collection type _) => throw (.fault (.incomparable type))
    | none => pure ()
  let a ← merge
  setSaid none
  return a

/-- Decode the pairs of a mapping of any form after those that are known, and then what is merged
into the mapping. -/
def datumPairs (datum? : Node → Decode (Option Datum)) (merge : Node → Pairs → Decode Pairs)
    (isTexts : Bool) (pairs : List (Node × Node)) (known : Pairs) : Decode Pairs := do
  let said := (← get).said
  setSaid none
  let p ← pairs.foldlM (datumPair datum? isTexts) { result := known, said }
  setSaid p.said
  match p.merge with
  | none => return p.result
  | some what => merging datum? pairs (mergeWith merge what p.result)

mutual

/-- The datum of a node; nothing for a mapping that repeats a key. -/
def datum? : Nat → Node → Decode (Option Datum)
  | 0, _ => return none
  | n + 1, node => visit node fun
    | .scalar _ tag text style => return some (.scalar (← scalarValue tag text style))
    | .sequence _ _ items => do
      let found ← items.mapM (datum? n)
      return some (.ofSequence (found.filterMap id))
    | .mapping _ _ pairs => do
      if !(← checkKeys (pairs.map Prod.fst)) then return none
      let isTexts ← pairs.allM fun (k, _) => isTextKey k
      return some (.ofPairs isTexts
        (← datumPairs (datum? n) (mergedPairs n isTexts) isTexts pairs []))
    | .alias .. => return none

/-- The pairs of a mapping of any form after what is merged into it. -/
def mergedPairs : Nat → Bool → Node → Pairs → Decode Pairs
  | 0, _, _, known => return known
  | n + 1, isTexts, node, known => visit node fun
    | .mapping _ _ pairs => do
      if !(← checkKeys (pairs.map Prod.fst)) then return known
      datumPairs (datum? n) (mergedPairs n isTexts) isTexts pairs known
    | _ => return known

end

/-! ## Settings -/

/-- A type of settings: its name, and for each key how its value changes the settings. -/
structure Schema (α : Type) where
  name : String
  field? : String → Option (Node → α → Decode α)

/-- Settings from a pair of a mapping. -/
def settingsPair {α : Type} (schema : Schema α) (p : Progress α) (pair : Node × Node) :
    Decode (Progress α) := do
  let (k, v) := pair
  if isMerge k then return { p with merge := some v }
  match ← text? k with
  | none => return p
  | some name =>
    if (p.said.getD []).contains (.text name) then return p
    let p := { p with said := p.said.map (.text name :: ·) }
    match schema.field? name.shown with
    | none =>
      mismatch k.line ("field " ++ name.shown ++ " not found in type " ++ schema.name)
      return p
    | some change =>
      if p.done.contains name then
        mismatch k.line ("field " ++ name.shown ++ " already set in type " ++ schema.name)
        return p
      return { p with result := ← change v p.result, done := name :: p.done }

/-- Settings from a node: the pairs of a mapping change them one after the other, and then what is
merged into the mapping does. -/
def settings {α : Type} (schema : Schema α) : Nat → Node → α → Decode α
  | 0, _, a => return a
  | n + 1, node, a => visit node fun
    | .scalar line tag text style => do
      match ← scalarValue tag text style with
      | .null => return a
      | _ =>
        wrongForm line (Value.tagOf tag text style) text schema.name
        return a
    | .sequence line tag _ => do
      wrongForm line (collectionTag tag "!!seq") "" schema.name
      return a
    | .mapping _ _ pairs => do
      if !(← checkKeys (pairs.map Prod.fst)) then return a
      let said := (← get).said
      setSaid none
      let p ← pairs.foldlM (settingsPair schema) { result := a, said }
      setSaid p.said
      match p.merge with
      | none => return p.result
      | some what => merging (datum? n) pairs (mergeWith (settings schema n) what p.result)
    | .alias .. => return a

/-- A setting that is a text. -/
def textField {α : Type} (put : RawText → α → α) : Node → α → Decode α := fun node a => do
  match ← text? node with
  | some s => return put s a
  | none => return a

/-- A setting that is an integer. -/
def integerField {α : Type} (put : Int → α → α) : Node → α → Decode α := fun node a => do
  match ← integer? node with
  | some n => return put n a
  | none => return a

end Decode

open Decode (textField integerField)

/-- The settings of the compiler by their names. -/
def CompilerConfig.schema : Decode.Schema CompilerConfig where
  name := "project.CompilerConfig"
  field?
    | "packedWidth" => some (integerField fun n c => { c with packedWidth := n })
    | "target" => some (textField fun s c => { c with target := s })
    | "emit" => some (textField fun s c => { c with emit := s })
    | "optimize" => some (integerField fun n c => { c with optimize := n })
    | "requires" => some (textField fun s c => { c with requires := s })
    | _ => none

/-- The settings of a project by their names; `depth` bounds how deep merges go. -/
def Config.schema (depth : Nat) : Decode.Schema Config where
  name := "project.Config"
  field?
    | "name" => some (textField fun s c => { c with name := s })
    | "description" => some (textField fun s c => { c with description := s })
    | "version" => some (textField fun s c => { c with version := s })
    | "main" => some (textField fun s c => { c with main := s })
    | "source" => some (textField fun s c => { c with source := s })
    | "author" => some (textField fun s c => { c with author := s })
    | "license" => some (textField fun s c => { c with license := s })
    | "compiler" => some fun node c => do
      return { c with compiler := ← Decode.settings CompilerConfig.schema depth node c.compiler }
    | _ => none

/-- Why a project file gives no settings. -/
inductive LoadError where
  | opening (e : FileError)
  | reading (path : String) (e : FileError)
  /-- The file has no document. -/
  | noDocument (path : String)
  | parsing (path : String) (e : Failure)
  deriving DecidableEq, Repr, Inhabited

/-- The message of an error. -/
def LoadError.message : LoadError → String
  | .opening e => "opening project file: " ++ e.message
  | .reading path e => "parsing " ++ path ++ ": yaml: input error: " ++ e.message
  | .noDocument path => "parsing " ++ path ++ ": EOF"
  | .parsing path e => "parsing " ++ path ++ ": " ++ e.message

/-- The fault that an error is a sign of, if it is one. -/
def LoadError.fault? : LoadError → Option Fault
  | .parsing _ (.fault f) => some f
  | _ => none

namespace Config

/-- The settings that a document describes; `depth` bounds how deep merges go. -/
def ofDocument (depth : Nat) (doc : Document) : Except Failure Config := do
  let decoded := Decode.settings (schema depth) depth doc.root {}
  let (c, d) ← StateT.run decoded { named := doc.named }
  if d.mismatches.isEmpty then return c else throw (.mismatches d.mismatches.toList)

/-- The settings that a text describes; nothing if the text has no document. An alias is followed
only once on the way to a node, so that no way is longer than the square of the text. -/
def ofText (text : List Char) : Except Failure (Option Config) := do
  match ← Document.ofText text with
  | none => return none
  | some doc => return some (← ofDocument ((text.length + 2) * (text.length + 2)) doc)

/-- The settings with defaults for what is not said. -/
def withDefaults (c : Config) : Config :=
  let width := c.compiler.packedWidth
  { c with
    source := if c.source = "" then "." else c.source
    compiler :=
      { c.compiler with packedWidth := if width = 0 then defaultPackedWidth else width } }

/-- The settings of the project in a directory. -/
def load {m : Type → Type} [Monad m] [Host m] (directory : String) :
    m (Except LoadError Config) := do
  let path := Path.join [directory, projectFile]
  match ← Host.readFile path with
  | .error e => return .error (if e.step = "read" then .reading path e else .opening e)
  | .ok bytes =>
    match ofText ((Rune.decode bytes).map Rune.char) with
    | .ok (some c) => return .ok c.withDefaults
    | .ok none => return .error (.noDocument path)
    | .error e => return .error (.parsing path e)

end Config

end Lane
