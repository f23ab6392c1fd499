import Lane.Host.Path

set_option relaxedAutoImplicit false
set_option autoImplicit false

/-!
# What a command asks of its surroundings

Commands read and write files, ask questions and print. They are written against `Lane.Host`, so
that they run on a real machine and on a `Lane.Session` alike.

## Main definitions

* `Lane.FileError`: why a file operation failed.
* `Lane.Host`: the operations that commands may use.
* `Lane.Host.makeDirectories`: make a directory and all that hold it.
-/

namespace Lane

/-- What stands in the way of a file operation. -/
inductive FileProblem where
  | missing
  | notDirectory
  | isDirectory
  | alreadyThere
  /-- A part of the path is longer than names may be. -/
  | longName
  /-- The path holds a null character. -/
  | invalid
  /-- Anything else, in the words of the machine. -/
  | other (what : String)
  deriving DecidableEq, Repr, Inhabited

/-- A problem in words. -/
def FileProblem.text : FileProblem → String
  | .missing => "no such file or directory"
  | .notDirectory => "not a directory"
  | .isDirectory => "is a directory"
  | .alreadyThere => "file exists"
  | .longName => "file name too long"
  | .invalid => "invalid argument"
  | .other what => what

/-- Why a file operation failed. -/
structure FileError where
  /-- The step that failed. -/
  step : String
  path : String
  problem : FileProblem
  deriving DecidableEq, Repr, Inhabited

/-- The message of a failed file operation. -/
def FileError.message (e : FileError) : String :=
  e.step ++ " " ++ e.path ++ ": " ++ e.problem.text

/-- What a path can lead to. -/
inductive EntryKind where
  | file
  | directory
  deriving DecidableEq, Repr, Inhabited

/-- The operations that commands may use. -/
class Host (m : Type → Type) where
  /-- The directory that relative paths start from. -/
  workingDirectory : m String
  /-- What a path leads to. -/
  kindOf : String → m (Except FileProblem EntryKind)
  readFile : String → m (Except FileError (List UInt8))
  writeFile : String → List UInt8 → m (Except FileError Unit)
  /-- Put a file in place in one step, so that no reader sees a part of it. -/
  installFile : String → List UInt8 → m (Except FileError Unit)
  makeDirectory : String → m (Except FileError Unit)
  /-- The names in a directory with their kinds, in the order of their characters. -/
  readDirectory : String → m (Except FileError (List (String × EntryKind)))
  /-- Remove a file, or a directory with all that is in it. -/
  removeAll : String → m (Except FileError Unit)
  /-- The next line of the input with its newline, if it has one; none at the end. -/
  readLine : m (Option String)
  print : String → m Unit
  printError : String → m Unit
  /-- The time in nanoseconds since some fixed moment. -/
  time : m Nat
  /-- The system that the command runs on. -/
  platform : m String

namespace Host

variable {m : Type → Type} [Monad m] [Host m]

/-- Print a line. -/
def printLine (s : String) : m Unit := print (s ++ "\n")

/-- Whether nothing is found under a path. -/
def isMissing (path : String) : m Bool := do
  return (← kindOf path) matches .error .missing

/-- Make a directory below one that is there. It may be there already. -/
def ensureDirectory (path : String) : m (Except FileError Unit) := do
  match ← makeDirectory path with
  | .ok _ => return .ok ()
  | .error e =>
    match ← kindOf path with
    | .ok .directory => return .ok ()
    | _ => return .error e

/-- Make a directory and, up to `n` levels, those that hold it. -/
def makeLevels : Nat → String → m (Except FileError Unit)
  | 0, path => ensureDirectory path
  | n + 1, path => do
    match ← kindOf path with
    | .ok .directory => return .ok ()
    | .ok .file => return .error ⟨"mkdir", path, .notDirectory⟩
    | .error _ =>
      match Path.holder? path with
      | none => ensureDirectory path
      | some holder =>
        match ← makeLevels n holder with
        | .error e => return .error e
        | .ok _ => ensureDirectory path

/-- Make a directory and all that hold it, as far as they are not there. -/
def makeDirectories (path : String) : m (Except FileError Unit) :=
  makeLevels path.length path

/-- The path that starts at the root for a path. -/
def absolute (path : String) : m String := do
  if Path.isAbsolute path then return Path.clean path
  return Path.join [← workingDirectory, path]

end Host

end Lane
