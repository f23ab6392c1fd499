import Lane.Command.Build
import Lane.Command.Init
import Lane.Grammar.Rules

set_option relaxedAutoImplicit false
set_option autoImplicit false

/-!
# The command line

The first argument names a command, and what follows belongs to it. Help is shown for the program
and for each command. A shell may ask for the words that can follow.

## Main definitions

* `Lane.Command.all`: the commands.
* `Lane.Command.complete`: list the words that can follow others.
* `Lane.Command.run`: run a command line.
-/

namespace Lane.Command

/-! ## Small commands -/

/-- The command that prints the grammar. -/
def grammarSpec : CommandSpec :=
  { name := "grammar", usage := "Print the EBNF grammar of the language" }

/-- The command that empties the cache. -/
def cleanSpec : CommandSpec :=
  { name := "clean", usage := "Remove the build cache of the current project" }

/-- The constraint that the version has to satisfy. -/
def requireFlag : Flag :=
  { name := "require", aliases := ["r"], kind := .text
    usage := "Fail unless the compiler satisfies this semver constraint" }

/-- The command that prints the version. -/
def versionSpec : CommandSpec :=
  { name := "version", usage := "Print the compiler version", flags := [requireFlag] }

section

variable {m : Type → Type} [Monad m] [Host m]

/-- Print the grammar. -/
def grammar : Action m Unit := Host.printLine Grammar.description

/-- Empty the cache. -/
def clean : Action m Unit := do
  let cache ← Action.ofExcept .cacheOpening (← BuildCache.openIn (← Host.workingDirectory))
  Action.ofExcept .cacheCleaning (← cache.clean)
  Host.printLine "Cache cleaned"

/-- Refuse a constraint that the version of the compiler does not satisfy. -/
def checkRequirement (text : String) : Action m Unit := do
  let constraint ← Action.ofExcept (.badConstraint text) (VersionConstraint.ofText text)
  match Version.ofText compilerVersion with
  | .error _ => return
  | .ok v =>
    if let reason :: _ := constraint.failures v then throw (.unsatisfied v.text text reason)

/-- Print the version. -/
def version (line : CommandLine) : Action m Unit := do
  let text := line.text requireFlag
  if text ≠ "" then checkRequirement text
  Host.printLine ("lanec " ++ compilerVersion ++ " (" ++ (← Host.platform) ++ ", packed width "
    ++ toString defaultPackedWidth ++ " by default)")

end

/-! ## Choosing a command -/

/-- A command with its action on a host. -/
structure Entry (m : Type → Type) where
  spec : CommandSpec
  action : CommandLine → Action m Unit

/-- The flag that asks for the version. -/
def rootVersionFlag : Flag :=
  { name := "version", aliases := ["v"], kind := .switch, usage := "print the version" }

/-- The last word of a line that asks for completions. -/
def completionMark : String := "--generate-bash-completion"

/-- The flags before the name of a command. -/
def rootFlags : List Flag := [helpFlag, rootVersionFlag]

/-- The command that shows help. -/
def helpSpec : CommandSpec :=
  { name := "help", usage := "Shows a list of commands or help for one command"
    args := "[command]" }

/-- All commands that can be explained. -/
def specs : List CommandSpec :=
  [buildSpec, checkSpec, grammarSpec, initSpec, cleanSpec, versionSpec, helpSpec]

/-- The short name of the command that shows help. -/
def helpLetter : String := "h"

/-- The names of the command that shows help. -/
def helpNames : List String := [helpSpec.name, helpLetter]

/-- The names of all commands. -/
def names : List String := specs.map CommandSpec.name ++ [helpLetter]

/-- Whether a word names the command that shows help. -/
def isHelp (word : String) : Bool := helpNames.contains word

section

variable {m : Type → Type} [Monad m] [Host m]

/-- The commands. -/
def all : List (Entry m) :=
  [⟨buildSpec, build⟩, ⟨checkSpec, check⟩, ⟨grammarSpec, fun _ => grammar⟩,
    ⟨initSpec, initProject⟩, ⟨cleanSpec, fun _ => clean⟩, ⟨versionSpec, version⟩]

/-- The command with a name. -/
def find? (name : String) : Option (Entry m) := all.find? fun e => e.spec.name = name

/-- The text that explains the program. -/
def programHelp : String :=
  "NAME:\n   lanec - Compile Lane programs with simd classes to LLVM IR\n\nUSAGE:\n   "
    ++ "lanec [global options] command [command options] [arguments...]\n\nVERSION:\n   "
    ++ compilerVersion ++ "\n\nCOMMANDS:\n"
    ++ String.join (specs.map fun c => "   " ++ c.name ++ "  " ++ c.usage ++ "\n")
    ++ "\nGLOBAL OPTIONS:\n" ++ helpFlag.help ++ rootVersionFlag.help

/-- Show help for a topic among some commands. -/
def topicHelp (specs : List CommandSpec) (topic : String) : Action m Unit :=
  match specs.find? fun c => c.name = topic || (c.name = "help" && isHelp topic) with
  | some c => Host.print c.help
  | none => throw (.noTopic topic)

/-- Show help for a topic, or `whole` if the topic is empty. -/
def showHelp (specs : List CommandSpec) (whole : String) (args : List String) : Action m Unit :=
  match args.head?.getD "" with
  | "" => Host.print whole
  | topic => topicHelp specs topic

/-- Split the words of a command. What is wrong with them is shown together with the help text. -/
def parseOr (flags : List Flag) (help : String) (words : List String) : Action m CommandLine := do
  match CommandLine.parse flags words with
  | .ok line => return line
  | .error e =>
    Host.print ("Incorrect Usage: " ++ e.message ++ "\n\n" ++ help)
    throw (.usage e)

/-- Run the help command on at most `n` words. Asked for help on itself it runs once more, and then
has nothing but itself to explain. -/
def runHelp (specs : List CommandSpec) (whole : String) : Nat → List String → Action m Unit
  | 0, _ => Host.print whole
  | n + 1, words => do
    let line ← parseOr helpSpec.allFlags helpSpec.help words
    match line.args with
    | word :: rest =>
      if isHelp word && !line.switch helpFlag then runHelp [helpSpec] helpSpec.help n rest
      else showHelp specs whole line.args
    | [] => Host.print whole

/-- Run a command on some words. -/
def Entry.run (e : Entry m) (words : List String) : Action m Unit := do
  let help := e.spec.help
  let line ← parseOr e.spec.allFlags help words
  if line.switch helpFlag then showHelp [helpSpec] help line.args
  else match line.args with
    | word :: rest =>
      if isHelp word then runHelp [helpSpec] help (rest.length + 1) rest else e.action line
    | [] => e.action line

/-- Run the command that a word names on some words, if there is one. -/
def runNamed? (word : String) (words : List String) : Option (Action m Unit) :=
  if isHelp word then some (runHelp specs programHelp (words.length + 1) words)
  else (find? word).map (·.run words)

/-- Answer to the words before the name of a command, and leave the rest to `go`. -/
def runRoot (line : CommandLine) (go : Action m Unit) : Action m Unit :=
  if line.switch helpFlag then showHelp specs programHelp line.args
  else if line.switch rootVersionFlag then Host.printLine ("lanec version " ++ compilerVersion)
  else go

/-- List words, one on each line. -/
def listWords (words : List String) : Action m Unit :=
  Host.print (String.join (words.map (· ++ "\n")))

/-- List the words that can follow others: the names of all commands, and after one of them those
of the help command. It is a fault to ask behind flags that the program does not know. -/
def complete (words : List String) : Action m Unit :=
  match CommandLine.parse rootFlags words with
  | .error _ => throw (.fault .missing)
  | .ok line =>
    if line.args.head?.any names.contains then runRoot line (listWords helpNames)
    else listWords names

/-- Run a command line. -/
def run (words : List String) : Action m Unit := do
  if words.getLast? = some completionMark then complete words.dropLast
  else
    let line ← parseOr rootFlags programHelp words
    runRoot line <| match line.args with
      | [] => Host.print programHelp
      | word :: rest => (runNamed? word rest).getD (showHelp specs programHelp line.args)

end

end Lane.Command
