import Lane.Command.App

set_option relaxedAutoImplicit false
set_option autoImplicit false

/-!
# The program

The commands on a real machine. Everything here only passes requests on to the system and its
answers back.

## Main definitions

* `Lane.hostIO`: a real machine as a host.
* `main`: run the command line of the program.
-/

namespace Lane

/-- What an error of the system says about a file. -/
def problemOf : IO.Error → FileProblem
  | .noFileOrDirectory .. => .missing
  | .alreadyExists .. => .alreadyThere
  | .invalidArgument _ 22 _ => .invalid
  | .invalidArgument _ 36 _ => .longName
  | .inappropriateType _ 20 _ => .notDirectory
  | .inappropriateType _ 21 _ => .isDirectory
  | e => .other (toString e)

/-- The result of a request, or what stands in its way. -/
def attempt {α : Type} (request : IO α) : IO (Except FileProblem α) := do
  try return .ok (← request)
  catch e => return .error (problemOf e)

/-- The result of a request about a file that is not named by the empty path. -/
def attemptAt {α : Type} (step path : String) (request : IO α) : IO (Except FileError α) := do
  if path = "" then return .error ⟨step, path, .missing⟩
  return (← attempt request).mapError (⟨step, path, ·⟩)

/-- What a path leads to. -/
def kindAt (path : String) : IO EntryKind := do
  let info ← ((← IO.currentDir) / path).metadata
  return if info.type == .dir then .directory else .file

/-- The names in a directory with their kinds. -/
def namesIn (path : String) : IO (List (String × EntryKind)) := do
  let entries ← ((← IO.currentDir) / path).readDir
  let named ← entries.toList.mapM fun e => do
    let info ← e.path.symlinkMetadata
    return (e.fileName, if info.type == .dir then EntryKind.directory else .file)
  return named.mergeSort fun a b => !decide (b.1 < a.1)

/-- A real machine as a host. -/
instance hostIO : Host IO where
  workingDirectory := return (← IO.currentDir).toString
  kindOf path := if path = "" then return .error .missing else attempt (kindAt path)
  readFile path := do
    match ← attemptAt "open" path (IO.FS.readBinFile path) with
    | .ok bytes => return .ok bytes.toList
    | .error e => return .error (if e.problem = .isDirectory then { e with step := "read" } else e)
  writeFile path content := attemptAt "open" path (IO.FS.writeBinFile path ⟨content.toArray⟩)
  installFile path content := attemptAt "rename" path do
    IO.FS.writeBinFile (path ++ ".new") ⟨content.toArray⟩
    IO.FS.rename (path ++ ".new") path
  makeDirectory path := attemptAt "mkdir" path (IO.FS.createDir path)
  readDirectory path := attemptAt "open" path (namesIn path)
  removeAll path := do
    match ← attemptAt "unlinkat" path (IO.FS.removeDirAll path) with
    | .ok _ => return .ok ()
    | .error e => return if e.problem = .missing then .ok () else .error e
  readLine := do
    let line ← (← IO.getStdin).getLine
    return if line.isEmpty then none else some line
  print s := IO.print s
  printError s := IO.eprint s
  time := IO.monoNanosNow
  platform := return "linux/amd64"

end Lane

/-- Run the command line of the program. -/
def main (args : List String) : IO UInt32 := do
  match ← (Lane.Command.run args : Lane.Action IO Unit).run with
  | .ok _ => return 0
  | .error e =>
    IO.eprintln (if e.isFinal then e.message else "Error: " ++ e.message)
    return e.exitCode.toUInt32
