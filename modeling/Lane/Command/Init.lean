import Lane.Command.Basic
import Lane.Prompt

set_option relaxedAutoImplicit false
set_option autoImplicit false

/-!
# The command that starts a project

`init` makes a directory with a project file and a first source file. What the command line does not
say is asked, unless the defaults are accepted.

## Main definitions

* `Lane.Command.initSpec`: the command.
* `Lane.Command.initProject`: its action.
-/

namespace Lane.Command

/-! ## Flags -/

/-- The name of the project. -/
def nameFlag : Flag :=
  { name := "name", aliases := ["n"], kind := .text, usage := "The name of the project" }

/-- The version of the project. -/
def versionFlag : Flag :=
  { name := "version", aliases := ["v"], kind := .text, usage := "The version of the project" }

/-- The main file of the project. -/
def mainFlag : Flag :=
  { name := "main", aliases := ["m"], kind := .text, usage := "The main file of the project" }

/-- The author of the project. -/
def authorFlag : Flag :=
  { name := "author", aliases := ["a"], kind := .text, usage := "The author of the project" }

/-- The licence of the project. -/
def licenseFlag : Flag :=
  { name := "license", aliases := ["l"], kind := .text, usage := "The license of the project" }

/-- The lane count of the project. -/
def newWidthFlag : Flag :=
  { name := "packed-width", kind := .integer defaultPackedWidth
    usage := "Lane count of packed functions" }

/-- Whether nothing is asked. -/
def yesFlag : Flag :=
  { name := "yes", aliases := ["y"], kind := .switch
    usage := "Accept the defaults without asking" }

/-- The command that starts a project. -/
def initSpec : CommandSpec :=
  { name := "init", usage := "Initialize a new project", args := "[directory]"
    flags := [nameFlag, versionFlag, mainFlag, authorFlag, licenseFlag, newWidthFlag, yesFlag] }

/-! ## Action -/

/-- The first source file of a project. -/
def starter : String :=
  String.join (List.map (· ++ "\n")
    ["extern puts(x: int);",
      "",
      "simd class Particle \x7b",
      "\tvar x: real",
      "\tvar v: real",
      "",
      "\tsimd writer step(dt: real) \x7b",
      "\t\tself.x = self.x + self.v * dt;",
      "\t\x7d",
      "\x7d",
      "",
      "class Main \x7b",
      "\troutine main() -> (code: int) \x7b",
      "\t\tc_call puts(0);",
      "\t\tcode = 0;",
      "\t\x7d",
      "\x7d"])

variable {m : Type → Type} [Monad m] [Host m]

/-- Make the directory of a project, or ask whether one that is not empty may be used. -/
def prepareDirectory (root : String) (yes : Bool) : Action m Bool := do
  if ← Host.isMissing root then
    Action.ofExcept .projectDirectory (← Host.makeDirectories root)
    Host.printLine ("Created directory: " ++ root)
    return true
  let entries ← Action.ofExcept .file (← Host.readDirectory root)
  if entries.isEmpty || yes then return true
  Prompt.askYesNo "The directory is not empty, continue?" false

/-- A setting: what the command line says, or the answer to a question, or its default. -/
def setting (line : CommandLine) (yes : Bool) (flag : Flag) (question default : String) :
    Action m String :=
  if line.isSet flag then pure (line.text flag)
  else if yes then pure default
  else Prompt.askText question default

/-- The lane count: what the command line says, or the answer to a question. -/
def widthSetting (line : CommandLine) (yes : Bool) : Action m Int := do
  let width := line.integer newWidthFlag
  if yes || line.isSet newWidthFlag then return width
  let answer ← Prompt.askText "Packed width" (toString width)
  match Integer.signed (some 10) answer.toList with
  | .ok n => return n
  | .error _ => throw (.widthText answer)

/-- The settings of a new project in a directory. -/
def newConfig (line : CommandLine) (yes : Bool) (root : String) : Action m Config := do
  let conf := Config.initial (Path.base (← Host.absolute root))
  let name ← setting line yes nameFlag "Project name" conf.name.shown
  let asked := conf.description.shown
  let description ← if yes then pure asked else Prompt.askText "Project description" asked
  let version ← setting line yes versionFlag "Project version" conf.version.shown
  let main ← setting line yes mainFlag "Main file" conf.main.shown
  let author ← setting line yes authorFlag "Author" conf.author.shown
  let license ← setting line yes licenseFlag "License" conf.license.shown
  let packedWidth ← widthSetting line yes
  return { conf with
    name, description, version, main, author, license,
    compiler := { conf.compiler with packedWidth } }

/-- Write the first source file of a project, unless something is there. -/
def writeMain (path : String) : Action m Unit := do
  if ← Host.isMissing path then
    Action.ofExcept .sourceDirectory (← Host.makeDirectories (Path.dir path))
    Action.ofExcept (.writing path) (← Host.writeFile path starter.toUTF8.toList)
    Host.printLine ("Created file: " ++ path)

/-- Write a project file. One that is there is replaced only if the user agrees. -/
def saveConfig (conf : Config) (path : String) (overwrite : Bool) : Action m Unit := do
  let agreed ←
    if overwrite then pure true
    else if ← Host.isMissing path then pure true
    else Prompt.askYesNo (path ++ " already exists. Overwrite?") false
  if agreed then
    Action.ofExcept (.writing path) (← Host.writeFile path conf.text.toUTF8.toList)

/-- Start a project. -/
def initProject (line : CommandLine) : Action m Unit := do
  let first := line.args.head?.getD ""
  let root := if first = "" then "." else first
  let yes := line.switch yesFlag
  if !(← prepareDirectory root yes) then return
  let yes ← if yes then pure true else Prompt.askYesNo "Use default configuration?" false
  let conf ← newConfig line yes root
  Action.ofExcept .config (conf.validate compilerVersion)
  writeMain (Path.join [root, conf.main.shown])
  let path := Path.join [root, projectFile]
  saveConfig conf path yes
  Host.printLine ("Created file: " ++ path)

end Lane.Command
