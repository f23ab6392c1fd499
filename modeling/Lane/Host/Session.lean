import Lane.Host.Disk

set_option relaxedAutoImplicit false
set_option autoImplicit false

/-!
# Sessions

A session is a machine as a value: a disk, a working directory, an input that is still to be read,
and what was printed. Commands run on it as pure functions.

## Main definitions

* `Lane.Session`: a machine as a value.
* `Lane.SessionM`: computations on a session.
-/

namespace Lane

/-- A machine as a value. -/
structure Session where
  disk : Disk := {}
  /-- The place of the working directory. -/
  directory : List String := []
  /-- The input that is still to be read. -/
  input : List Char := []
  output : String := ""
  errors : String := ""
  platform : String := ""
  deriving Inhabited

/-- Computations on a session. -/
abbrev SessionM := StateM Session

namespace Session

/-- The first line of a text with its newline, and what follows it. -/
def splitLine : List Char → List Char × List Char
  | [] => ([], [])
  | c :: rest =>
    if c = '\n' then ([c], rest)
    else
      let (line, after) := splitLine rest
      (c :: line, after)

/-- The path of the working directory. -/
def directoryPath (s : Session) : String := "/" ++ "/".intercalate s.directory

/-- Replace the disk by what an operation makes of it, if it succeeds. -/
def updateDisk (f : Disk → List String → Except FileError Disk) :
    SessionM (Except FileError Unit) :=
  fun s =>
    match f s.disk s.directory with
    | .ok d => (.ok (), { s with disk := d })
    | .error e => (.error e, s)

/-- Take a line from the input. -/
def takeLine : SessionM (Option String) := fun s =>
  match splitLine s.input with
  | ([], _) => (none, s)
  | (line, rest) => (some (String.ofList line), { s with input := rest })

/-- Sessions answer for their disk and their terminal. -/
instance : Host SessionM where
  workingDirectory := return (← get).directoryPath
  kindOf path := return ((← get).disk.entry (← get).directory path).map DiskEntry.kind
  readFile path := return (← get).disk.read (← get).directory path
  writeFile path content := updateDisk fun d start => d.write start path content
  installFile path content := updateDisk fun d start => d.write start path content
  makeDirectory path := updateDisk fun d start => d.make start path
  readDirectory path := return (← get).disk.list (← get).directory path
  removeAll path := updateDisk fun d start => .ok (d.remove start path)
  readLine := takeLine
  print s := modify fun st => { st with output := st.output ++ s }
  printError s := modify fun st => { st with errors := st.errors ++ s }
  time := return 0
  platform := return (← get).platform

end Session

end Lane
