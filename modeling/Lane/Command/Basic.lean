import Lane.Build.Cache
import Lane.Command.Flags
import Lane.Project.Load
import Lane.Project.Sources

set_option relaxedAutoImplicit false
set_option autoImplicit false

/-!
# Commands

A command has a name, flags and an action. An action ends well or with an error, which decides the
exit code.

## Main definitions

* `Lane.CommandError`: why a command fails.
* `Lane.Action`: what a command does.
* `Lane.CommandSpec`: what a command line has to know about a command.
-/

namespace Lane

/-- Why a command fails. -/
inductive CommandError where
  | usage (e : FlagError)
  /-- There is no command of that name. -/
  | noTopic (name : String)
  | load (e : LoadError)
  | config (e : ConfigError)
  | sources (e : SourcesError)
  | noProjectFile (path : String)
  | width (n : Int)
  | noSources
  | filesFailed (failed all : Nat)
  | badConstraint (text : String) (e : ConstraintError)
  | unsatisfied (version text reason : String)
  | widthText (text : String)
  | file (e : FileError)
  | projectDirectory (e : FileError)
  | sourceDirectory (e : FileError)
  | writing (path : String) (e : FileError)
  | cacheOpening (e : CacheError)
  | cacheCleaning (e : CacheError)
  | fault (f : Fault)
  deriving DecidableEq, Repr, Inhabited

namespace CommandError

/-- The message of an error. -/
def message : CommandError → String
  | .usage e => e.message
  | .noTopic name => "No help topic for '" ++ name ++ "'"
  | .load e => "Error: " ++ e.message
  | .config e => "Error: " ++ e.message
  | .sources e => "Error: " ++ e.message
  | .noProjectFile path => "Error: no project file at " ++ path
  | .width n => "Error: packed width must be a power of two, got " ++ toString n
  | .noSources => "Error: no source files"
  | .filesFailed failed all => toString failed ++ " of " ++ toString all ++ " files failed"
  | .badConstraint text e => "Error: invalid constraint " ++ Text.quote text ++ ": " ++ e.message
  | .unsatisfied version text reason =>
    "lanec " ++ version ++ " does not satisfy " ++ text ++ ": " ++ reason
  | .widthText text => "Error: packed width " ++ Text.quote text ++ " is not a number"
  | .file e => e.message
  | .projectDirectory e => "creating project directory: " ++ e.message
  | .sourceDirectory e => "creating source directory: " ++ e.message
  | .writing path e => "writing " ++ path ++ ": " ++ e.message
  | .cacheOpening e => e.message?.getD ""
  | .cacheCleaning e => "Error: " ++ e.message?.getD ""
  | .fault f => f.text

/-- The fault that an error is a sign of, if it is one. -/
def fault? : CommandError → Option Fault
  | .load e => e.fault?
  | .fault f => some f
  | _ => none

/-- The exit code of an error. -/
def exitCode : CommandError → Nat
  | .noTopic _ => 3
  | _ => 1

/-- Whether the message is shown as it is; the others are marked as errors when the program ends. -/
def isFinal : CommandError → Bool
  | .usage _ | .file _ | .projectDirectory _ | .sourceDirectory _ | .writing _ _
  | .cacheOpening _ => false
  | _ => true

end CommandError

/-- What a command does on a host. -/
abbrev Action (m : Type → Type) := ExceptT CommandError m

/-- Commands ask the host that they run on. -/
instance {m : Type → Type} {ε : Type} [Monad m] [Host m] : Host (ExceptT ε m) where
  workingDirectory := ExceptT.lift Host.workingDirectory
  kindOf path := ExceptT.lift (Host.kindOf path)
  readFile path := ExceptT.lift (Host.readFile path)
  writeFile path content := ExceptT.lift (Host.writeFile path content)
  installFile path content := ExceptT.lift (Host.installFile path content)
  makeDirectory path := ExceptT.lift (Host.makeDirectory path)
  readDirectory path := ExceptT.lift (Host.readDirectory path)
  removeAll path := ExceptT.lift (Host.removeAll path)
  readLine := ExceptT.lift Host.readLine
  print s := ExceptT.lift (Host.print s)
  printError s := ExceptT.lift (Host.printError s)
  time := ExceptT.lift Host.time
  platform := ExceptT.lift Host.platform

/-- The value of a result, or the failure that its error means. -/
def Action.ofExcept {m : Type → Type} [Monad m] {ε α : Type} (cause : ε → CommandError) :
    Except ε α → Action m α
  | .ok a => pure a
  | .error e => throw (cause e)

/-- What a command line has to know about a command. -/
structure CommandSpec where
  name : String
  usage : String
  /-- What the arguments are. -/
  args : String := ""
  flags : List Flag := []
  deriving Repr, Inhabited

/-- The flag that asks for help. -/
def helpFlag : Flag := { name := "help", aliases := ["h"], kind := .switch, usage := "show help" }

/-- All flags of a command. -/
def CommandSpec.allFlags (c : CommandSpec) : List Flag := c.flags ++ [helpFlag]

/-- The line that explains a flag. -/
def Flag.help (f : Flag) : String :=
  let dashed (n : String) : String := if n.length = 1 then "-" ++ n else "--" ++ n
  "   " ++ ", ".intercalate (f.names.map dashed) ++ "  " ++ f.usage ++ "\n"

/-- The text that explains a command. -/
def CommandSpec.help (c : CommandSpec) : String :=
  "NAME:\n   lanec " ++ c.name ++ " - " ++ c.usage ++ "\n\nUSAGE:\n   lanec " ++ c.name
    ++ " [command options] " ++ c.args ++ "\n\nOPTIONS:\n"
    ++ String.join (c.allFlags.map Flag.help)

end Lane
