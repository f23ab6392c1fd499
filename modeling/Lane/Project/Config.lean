import Lane.Version.Constraint
import Lane.Yaml.Write

set_option relaxedAutoImplicit false
set_option autoImplicit false

/-!
# Project configurations

What the project file says about a project and about how it is compiled.

## Main definitions

* `Lane.CompilerConfig`, `Lane.Config`: the settings.
* `Lane.Config.initial`: the settings of a new project.
* `Lane.Config.validate`: whether the running compiler can work with the settings.
* `Lane.Config.text`: the text of the project file.
-/

namespace Lane

/-- The name of the project file. -/
def projectFile : String := "lanec.yaml"

/-- The extension of source files. -/
def sourceExtension : String := ".ln"

/-- The number of instances that packed code works on if nothing else is said. -/
def defaultPackedWidth : Int := 4

/-- How a project is compiled. -/
structure CompilerConfig where
  packedWidth : Int := 0
  target : RawText := ""
  /-- The output format. -/
  emit : RawText := ""
  optimize : Int := 0
  /-- A constraint on the version of the compiler, empty for none. -/
  requires : RawText := ""
  deriving DecidableEq, Repr, Inhabited

/-- The settings of a project. -/
structure Config where
  name : RawText := ""
  description : RawText := ""
  version : RawText := ""
  /-- The file with the main routine. -/
  main : RawText := ""
  /-- The directory of the source files. -/
  source : RawText := ""
  author : RawText := ""
  license : RawText := ""
  compiler : CompilerConfig := {}
  deriving DecidableEq, Repr, Inhabited

/-- Whether a number is a power of two. -/
def isPowerOfTwo (n : Int) : Bool := 0 < n && (n.toNat &&& (n.toNat - 1)) = 0

/-- Why the compiler cannot work with some settings. -/
inductive ConfigError where
  | width (n : Int)
  | format (emit : RawText)
  | requirement (e : ConstraintError)
  | compilerVersion (version : String) (e : VersionError)
  | unsatisfied (name requires : String) (version : Version)
  deriving DecidableEq, Repr, Inhabited

/-- The message of an error. -/
def ConfigError.message : ConfigError → String
  | .width n => projectFile ++ ": packedWidth must be a power of two, got " ++ toString n
  | .format emit => projectFile ++ ": emit must be ir or llvm, got " ++ emit.quoted
  | .requirement e => projectFile ++ ": requires: " ++ e.message
  | .compilerVersion version e => "compiler version " ++ version ++ ": " ++ e.message
  | .unsatisfied name requires version =>
    name ++ " requires compiler " ++ requires ++ ", this is " ++ version.text

namespace Config

/-- The settings of a new project. -/
def initial (name : String) : Config :=
  { name := if name = "." ∨ name = "" then "NewProject" else .text name
    description := "A new Lane project"
    version := "1.0.0"
    main := .text ("src/main" ++ sourceExtension)
    source := "src"
    author := "Anonymous"
    license := "MIT"
    compiler := { packedWidth := defaultPackedWidth, emit := "llvm" } }

/-- Whether a version of the compiler can work with the settings. -/
def validate (c : Config) (compilerVersion : String) : Except ConfigError Unit := do
  if !isPowerOfTwo c.compiler.packedWidth then throw (.width c.compiler.packedWidth)
  if c.compiler.emit ∉ [.text "", .text "ir", .text "llvm"] then throw (.format c.compiler.emit)
  if c.compiler.requires ≠ "" then
    let constraint ← (VersionConstraint.ofText c.compiler.requires.shown).mapError .requirement
    let version ← (Version.ofText compilerVersion).mapError (.compilerVersion compilerVersion)
    if !constraint.allows version then
      throw (.unsatisfied c.name.shown c.compiler.requires.shown version)

/-- A pair of a mapping on a level whose value is a text, left out if it is empty. -/
def optionalPair (level : Nat) (key : String) (value : RawText) : String :=
  if value = "" then "" else Yaml.writeTextPair level key value

/-- The text of the project file. -/
def text (c : Config) : String :=
  String.join
    [Yaml.writeTextPair 0 "name" c.name,
      Yaml.writeTextPair 0 "description" c.description,
      Yaml.writeTextPair 0 "version" c.version,
      Yaml.writeTextPair 0 "main" c.main,
      Yaml.writeTextPair 0 "source" c.source,
      optionalPair 0 "author" c.author,
      optionalPair 0 "license" c.license,
      "compiler:\n",
      Yaml.writePair 1 "packedWidth" (toString c.compiler.packedWidth),
      optionalPair 1 "target" c.compiler.target,
      optionalPair 1 "emit" c.compiler.emit,
      if c.compiler.optimize = 0 then ""
      else Yaml.writePair 1 "optimize" (toString c.compiler.optimize),
      optionalPair 1 "requires" c.compiler.requires]

end Config

end Lane
