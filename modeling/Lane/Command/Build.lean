import Lane.Build.Run
import Lane.Command.Basic

set_option relaxedAutoImplicit false
set_option autoImplicit false

/-!
# The commands that compile

`build` compiles files and writes their outputs, and `check` only analyses them. Without files on
the command line they take those of the project.

## Main definitions

* `Lane.Command.buildSpec`, `Lane.Command.checkSpec`: the commands.
* `Lane.Command.build`, `Lane.Command.check`: their actions.
-/

namespace Lane.Command

/-! ## Flags -/

/-- The path to the project file. -/
def configFlag : Flag :=
  { name := "config", aliases := ["c"], kind := .text, usage := "The path to the project file" }

/-- The lane count. -/
def widthFlag : Flag :=
  { name := "packed-width", kind := .integer 0
    usage := "Lane count of packed functions, a power of two" }

/-- Whether steps are logged. -/
def verboseFlag : Flag :=
  { name := "verbose", kind := .switch, usage := "Log every step of the build" }

/-- Whether internal errors are shown in full. -/
def debugFlag : Flag :=
  { name := "debug", aliases := ["d"], kind := .switch
    usage := "Print stack traces of internal compiler errors" }

/-- The number of files at a time. -/
def jobsFlag : Flag :=
  { name := "jobs", aliases := ["j"], kind := .integer 4
    usage := "Number of files compiled in parallel" }

/-- Where outputs go. -/
def outputFlag : Flag :=
  { name := "output", aliases := ["o"], kind := .text
    usage := "Output file for a single source, output directory otherwise" }

/-- The output format. -/
def emitFlag : Flag :=
  { name := "emit", kind := .text
    usage := "Output format: ir (the lowered instruction streams) or llvm" }

/-- Whether syntax trees are written. -/
def dumpFlag : Flag :=
  { name := "dump-ast", kind := .switch
    usage := "Write the syntax tree of every file as JSON next to it" }

/-- Whether the cache is left alone. -/
def noCacheFlag : Flag :=
  { name := "no-cache", aliases := ["n"], kind := .switch, usage := "Disables caching" }

/-- Whether to build again when files change. -/
def watchFlag : Flag :=
  { name := "watch", aliases := ["w"], kind := .switch
    usage := "Rebuild whenever a source file changes" }

/-- The flags of both commands. -/
def sharedFlags : List Flag := [configFlag, widthFlag, verboseFlag, debugFlag, jobsFlag]

/-- The command that compiles. -/
def buildSpec : CommandSpec :=
  { name := "build", usage := "Compile source files or the current project", args := "[files...]"
    flags := [outputFlag, emitFlag, dumpFlag, noCacheFlag, watchFlag] ++ sharedFlags }

/-- The command that only analyses. -/
def checkSpec : CommandSpec :=
  { name := "check", usage := "Analyze source files and report diagnostics without compiling"
    args := "[files...]", flags := sharedFlags }

/-! ## Actions -/

variable {m : Type → Type} [Monad m] [Host m]

/-- The settings of the project that a command line names, or of the one in the working directory,
with the directory of the project. Without a project file the settings of a new project are used. -/
def project (line : CommandLine) : Action m (Config × String) := do
  let cwd ← Host.workingDirectory
  let named := line.text configFlag
  let path := if named = "" then Path.join [cwd, projectFile] else named
  match ← Host.kindOf path with
  | .ok _ =>
    let root := Path.dir path
    return (← Action.ofExcept .load (← Config.load root), root)
  | .error _ =>
    if line.isSet configFlag then throw (.noProjectFile path)
    return (Config.initial (Path.base cwd), cwd)

/-- How a command line says to build, and the files to build. -/
def buildOptions (line : CommandLine) (isCheck : Bool) : Action m (BuildOptions × List String) := do
  let (conf, root) ← project line
  let width :=
    if line.isSet widthFlag then line.integer widthFlag else conf.compiler.packedWidth
  let emit :=
    if !isCheck && line.isSet emitFlag then line.text emitFlag else conf.compiler.emit.shown
  let format := if emit = "" then "llvm" else emit
  Action.ofExcept .config (conf.validate compilerVersion)
  if !isPowerOfTwo width then throw (.width width)
  let files ←
    if line.args.isEmpty then Action.ofExcept .sources (← conf.sources root) else pure line.args
  if files.isEmpty then throw .noSources
  let isVerbose := line.switch verboseFlag
  if isCheck then
    return ({ settings := ⟨width, format, true⟩, root, usesCache := false, isVerbose }, files)
  return ({ settings := ⟨width, format, false⟩, root, output := line.text outputFlag,
            dumps := line.switch dumpFlag, usesCache := !line.switch noCacheFlag,
            isVerbose }, files)

/-- Print what there is to say about the files of a build. -/
def report (o : BuildOptions) (units : List BuildUnit) : Action m Unit := do
  Host.printError (String.join (units.map BuildUnit.describe))
  let failed := (units.filter BuildUnit.failed).length
  if failed > 0 then throw (.filesFailed failed units.length)
  if !o.settings.isCheck then Host.printLine ("Built " ++ toString units.length ++ " files")

/-- Build files. -/
def buildWith (line : CommandLine) (isCheck : Bool) : Action m Unit := do
  let (o, files) ← buildOptions line isCheck
  report o (← o.run files)

/-- Compile files and write their outputs. -/
def build (line : CommandLine) : Action m Unit := buildWith line false

/-- Analyse files. -/
def check (line : CommandLine) : Action m Unit := buildWith line true

end Lane.Command
