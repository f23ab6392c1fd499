import Lane.Build.Cache
import Lane.Syntax.Dump

set_option relaxedAutoImplicit false
set_option autoImplicit false

/-!
# Builds

A build compiles each of its files on its own, through the cache if there is one, and writes the
outputs of those that succeed.

## Main definitions

* `Lane.Text.duration`: the text of a number of nanoseconds.
* `Lane.BuildOptions`: how a build is done.
* `Lane.BuildUnit`: a file and what compiling it has given.
* `Lane.BuildOptions.outputPath`: where the output of a file is written.
* `Lane.BuildOptions.run`: build some files.
-/

/-! ## Durations

A duration is written in the largest unit of which it has one, and from a second on in hours,
minutes and seconds. -/

namespace Lane.Text

/-- The quotient of `n` by `10 ^ places` without zeros at its end. -/
def shiftedDecimal (n places : Nat) : String :=
  let whole := n / Nat.pow 10 places
  let part := n % Nat.pow 10 places
  if part = 0 then toString whole
  else
    let digits := Nat.toDigits 10 (Nat.pow 10 places + part)
    let kept := (digits.tail.reverse.dropWhile (· = '0')).reverse
    toString whole ++ "." ++ String.ofList kept

/-- The text of a number of nanoseconds. -/
def duration (n : Nat) : String :=
  if n = 0 then "0s"
  else if n < 1000 then toString n ++ "ns"
  else if n < 1000000 then shiftedDecimal n 3 ++ "µs"
  else if n < 1000000000 then shiftedDecimal n 6 ++ "ms"
  else
    let minutes := n / 60000000000
    let seconds := shiftedDecimal (n % 60000000000) 9 ++ "s"
    if minutes = 0 then seconds
    else if minutes < 60 then toString minutes ++ "m" ++ seconds
    else toString (minutes / 60) ++ "h" ++ toString (minutes % 60) ++ "m" ++ seconds

end Lane.Text

namespace Lane

/-- How a build is done. -/
structure BuildOptions where
  settings : BuildSettings
  /-- The directory of the project. -/
  root : String
  /-- The output file of a single source and the output directory otherwise; empty to write next to
  the sources. -/
  output : String := ""
  /-- Whether syntax trees are written too. -/
  dumps : Bool := false
  usesCache : Bool := true
  isVerbose : Bool := false
  deriving DecidableEq, Repr, Inhabited

/-- Why a file could not be built, apart from what its diagnostics say. -/
inductive UnitError where
  | reading (path : String) (e : FileError)
  | internal (e : InternalError)
  | dumpFile (e : FileError)
  | dumpValue (digits : String)
  | outputDirectory (e : FileError)
  | writing (path : String) (e : FileError)
  deriving DecidableEq, Repr, Inhabited

/-- The message of an error. -/
def UnitError.message : UnitError → String
  | .reading path e => "reading " ++ path ++ ": " ++ e.message
  | .internal e => e.text
  | .dumpFile e => "creating AST dump file: " ++ e.message
  | .dumpValue digits => "encoding AST: json: unsupported value: " ++ digits
  | .outputDirectory e => "creating output directory: " ++ e.message
  | .writing path e => "writing " ++ path ++ ": " ++ e.message

/-- A file and what compiling it has given. -/
structure BuildUnit where
  path : String
  diagnostics : Diagnostics := .empty
  output : List UInt8 := []
  error : Option UnitError := none
  deriving Inhabited

/-- Whether a file could not be built. -/
def BuildUnit.failed (u : BuildUnit) : Bool := u.error.isSome || u.diagnostics.failed

/-- What is printed about a file: its diagnostics, and its error. -/
def BuildUnit.describe (u : BuildUnit) : String :=
  u.diagnostics.describe ++ match u.error with
    | some e => u.path ++ ": " ++ e.message ++ "\n"
    | none => ""

/-- The stages that a compilation came to after parsing, as a log shows them. -/
def Compilation.log (c : Compilation) (isCheck : Bool) : List String :=
  let lowering := c.elaborated.any (·.isOk) && !isCheck
  ["analyzing"] ++ (if lowering then ["lowering"] else []) ++
    match c.lowered with
    | some p =>
      if p.isOk then ["vectorizing " ++ toString p.module.functions.length ++ " functions"] else []
    | none => []

/-- Parse a file. -/
def Compilation.parseFile {m : Type → Type} [Monad m] [Host m] (path : String) :
    m (Except UnitError Compilation) := do
  match ← Host.readFile path with
  | .error e => return .error (.reading path e)
  | .ok source => return .ok (parse ⟨path, Rune.decode source, 0⟩)

namespace BuildOptions

/-- The extension of output files. -/
def outputExt (o : BuildOptions) : String := if o.settings.format = "ir" then ".lir" else ".ll"

/-- Where the output of a file is written, in a build of that file alone or not. -/
def outputPath (o : BuildOptions) (path : String) (isSingle : Bool) : String :=
  let name := Path.dropEnding (Path.base path) (Path.ext path) ++ o.outputExt
  if o.output = "" then Path.join [Path.dir path, name]
  else if isSingle then o.output
  else Path.join [o.output, name]

/-- Where the syntax tree of a file is written. -/
def dumpPath (path : String) : String := Path.withoutExt path ++ ".ast.json"

section

variable {m : Type → Type} [Monad m] [Host m]

/-- Add a line to the log. -/
def log (o : BuildOptions) (line : String) : m Unit :=
  if o.isVerbose then Host.printError (line ++ "\n") else pure ()

/-- Write the syntax tree of a file. -/
def dumpTree (path : String) (tree : ProgramSyntax) : m (Option UnitError) := do
  let unwritable := tree.toJson.unwritable?
  let text := if unwritable.isSome then "" else tree.dump
  match ← Host.writeFile (dumpPath path) text.toUTF8.toList with
  | .error e => return some (.dumpFile e)
  | .ok _ => return unwritable.map .dumpValue

/-- The unit of a compiled file. -/
def unitOf (path : String) (r : UnitResult) : BuildUnit :=
  match r.output with
  | .ok text =>
    { path, diagnostics := r.compilation.diagnostics, output := (text.getD "").toUTF8.toList }
  | .error e => { path, diagnostics := r.compilation.diagnostics, error := some (.internal e) }

/-- Compile the content of a file. Its syntax tree is written before it is analysed. -/
def compileSource (o : BuildOptions) (path : String) (source : List UInt8) : m BuildUnit := do
  let r := o.settings.compile path source
  match r.compilation.tree with
  | none => return unitOf path r
  | some tree =>
    if o.dumps then
      if let some e ← dumpTree path tree then
        let parsed := Compilation.parse ⟨path, Rune.decode source, o.settings.width⟩
        return { path, diagnostics := parsed.diagnostics, error := some e }
    for line in r.compilation.log o.settings.isCheck do
      o.log (path ++ ": " ++ line)
    return unitOf path r

/-- Compile a file that is not in the cache, and store its output there. -/
def compileFresh (o : BuildOptions) (cache : Option BuildCache) (path : String)
    (source : List UInt8) : m BuildUnit := do
  let start ← Host.time
  let u ← o.compileSource path source
  let stop ← Host.time
  o.log (path ++ ": compiled in " ++ Text.duration (stop - start))
  if let some c := cache then
    if !u.failed then
      if let .error e ← c.store (o.settings.key source) u.output then
        o.log (path ++ ": " ++ e.message?.getD "")
  return u

/-- Compile a file, or take its output from the cache. -/
def compileFile (o : BuildOptions) (cache : Option BuildCache) (path : String) : m BuildUnit := do
  match ← Host.readFile path with
  | .error e => return { path, error := some (.reading path e) }
  | .ok source =>
    let stored ← match cache with
      | some c => c.lookup (o.settings.key source)
      | none => pure (.ok none)
    match stored with
    | .ok (some output) =>
      o.log (path ++ ": cached")
      return { path, output }
    | _ => o.compileFresh cache path source

/-- Write the output of a file. -/
def writeOutput (o : BuildOptions) (isSingle : Bool) (u : BuildUnit) : m BuildUnit := do
  if u.failed then return u
  let path := o.outputPath u.path isSingle
  match ← Host.makeDirectories (Path.dir path) with
  | .error e => return { u with error := some (.outputDirectory e) }
  | .ok _ =>
    match ← Host.writeFile path u.output with
    | .error e => return { u with error := some (.writing path e) }
    | .ok _ =>
      o.log (u.path ++ " -> " ++ path)
      return u

/-- The cache of a build, if it can be had. -/
def openCache (o : BuildOptions) : m (Option BuildCache) := do
  if !o.usesCache then return none
  match ← BuildCache.openIn o.root with
  | .ok c => return some c
  | .error e =>
    o.log ("cache disabled: " ++ e.message?.getD "")
    return none

/-- Build some files. Outputs are written after all files are compiled. -/
def run (o : BuildOptions) (files : List String) : m (List BuildUnit) := do
  let cache ← o.openCache
  let units ← files.mapM (o.compileFile cache)
  if o.settings.isCheck then return units
  units.mapM (o.writeOutput (units.length = 1))

end

end BuildOptions

end Lane
