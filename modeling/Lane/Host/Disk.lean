import Lane.Host.Basic

set_option relaxedAutoImplicit false
set_option autoImplicit false

/-!
# Disks

A disk is a tree of files and directories, and a place in it is the list of the names that lead
there from the root. Every operation says exactly when it fails.

## Main definitions

* `Lane.DiskEntry`, `Lane.Disk`: files and directories.
* `Lane.Disk.way`: the way that a path describes.
* `Lane.Disk.read`, `Lane.Disk.write`, `Lane.Disk.make`, `Lane.Disk.list`, `Lane.Disk.remove`: the
  operations.
-/

namespace Lane

/-! ## Entries -/

/-- A file, or a directory with what is in it. -/
inductive DiskEntry where
  | file (content : List UInt8)
  | directory (children : List (String × DiskEntry))
  deriving Inhabited

namespace DiskEntry

/-- The kind of an entry. -/
def kind : DiskEntry → EntryKind
  | .file _ => .file
  | .directory _ => .directory

/-- What is directly in an entry. -/
def children : DiskEntry → List (String × DiskEntry)
  | .file _ => []
  | .directory children => children

/-- Put an entry among others under its name, instead of the one that has it. -/
def insert (name : String) (e : DiskEntry) :
    List (String × DiskEntry) → List (String × DiskEntry)
  | [] => [(name, e)]
  | (other, old) :: rest =>
    if other = name then (name, e) :: rest else (other, old) :: insert name e rest

/-- Put an entry at a place, and directories on the way to it. -/
def put (new : DiskEntry) : List String → DiskEntry → DiskEntry
  | [], _ => new
  | name :: rest, e =>
    let below := (e.children.lookup name).getD (.directory [])
    .directory (insert name (put new rest below) e.children)

/-- Remove what is at a place. -/
def erase : List String → DiskEntry → DiskEntry
  | [], _ => .directory []
  | [name], e => .directory (e.children.filter (·.1 ≠ name))
  | name :: next :: rest, e =>
    match e.children.lookup name with
    | some below => .directory (insert name (erase (next :: rest) below) e.children)
    | none => e

mutual

/-- The files of an entry with their places. -/
def files : DiskEntry → List (List String × List UInt8)
  | .file content => [([], content)]
  | .directory children => filesIn children

/-- The files of some entries with their places. -/
def filesIn : List (String × DiskEntry) → List (List String × List UInt8)
  | [] => []
  | child :: rest => filesOf child ++ filesIn rest

/-- The files of an entry with a name, with their places. -/
def filesOf : String × DiskEntry → List (List String × List UInt8)
  | (name, e) => (files e).map fun (place, content) => (name :: place, content)

end

end DiskEntry

/-- Files and directories in a root directory. -/
structure Disk where
  root : DiskEntry := .directory []
  deriving Inhabited

namespace Disk

/-! ## Ways -/

/-- The names on a way from the root and what they lead to, the last first. Nothing need be at the
end of a way. -/
abbrev Way := List (String × Option DiskEntry)

/-- The place that a way leads to. -/
def Way.place (way : Way) : List String := (way.map Prod.fst).reverse

/-- What is at the end of a way. -/
def target? (d : Disk) : Way → Option DiskEntry
  | [] => some d.root
  | (_, e) :: _ => e

/-- The number of bytes that a name may have. -/
def longestName : Nat := 255

/-- The number of bytes that a path may have. -/
def longestPath : Nat := 4095

/-- Continue by the parts of a path. All but the last part lead through directories. -/
def follow (d : Disk) (way : Way) : List String → Except FileProblem Way
  | [] => .ok way
  | part :: rest =>
    match d.target? way with
    | none => .error .missing
    | some (.file _) => .error .notDirectory
    | some (.directory children) =>
      if part = "" ∨ part = "." then d.follow way rest
      else if part = ".." then d.follow way.tail rest
      else if part.utf8ByteSize > longestName then .error .longName
      else d.follow ((part, children.lookup part) :: way) rest

/-- Refuse a text that can be no path. -/
def checkPath (path : String) : Except FileProblem Unit :=
  if path.toList.contains '\x00' then .error .invalid
  else if path = "" then .error .missing
  else if path.utf8ByteSize > longestPath then .error .longName
  else .ok ()

/-- The way that a path describes, from a directory. -/
def way (d : Disk) (start : List String) (path : String) : Except FileProblem Way := do
  checkPath path
  d.follow (← if Path.isAbsolute path then .ok [] else d.follow [] start) (Path.parts path)

/-- What a path leads to. -/
def entry (d : Disk) (start : List String) (path : String) : Except FileProblem DiskEntry := do
  match d.target? (← d.way start path) with
  | some e => return e
  | none => throw .missing

/-! ## Operations -/

/-- Put an entry at a place, and directories on the way to it. -/
def set (d : Disk) (place : List String) (e : DiskEntry) : Disk := ⟨e.put place d.root⟩

/-- The content of a file. -/
def read (d : Disk) (start : List String) (path : String) : Except FileError (List UInt8) :=
  match d.entry start path with
  | .error e => .error ⟨"open", path, e⟩
  | .ok (.directory _) => .error ⟨"read", path, .isDirectory⟩
  | .ok (.file content) => .ok content

/-- Write a file in a directory that is there. -/
def write (d : Disk) (start : List String) (path : String) (content : List UInt8) :
    Except FileError Disk :=
  match d.way start path with
  | .error e => .error ⟨"open", path, e⟩
  | .ok way =>
    match d.target? way with
    | some (.directory _) => .error ⟨"open", path, .isDirectory⟩
    | _ => .ok (d.set way.place (.file content))

/-- The way to a directory that is to be made. Slashes at the end of its path mean nothing. -/
def wayToNew (d : Disk) (start : List String) (path : String) : Except FileProblem Way := do
  checkPath path
  d.way start (if Path.trimSlashes path = "" then path else Path.trimSlashes path)

/-- Make a directory in one that is there. -/
def make (d : Disk) (start : List String) (path : String) : Except FileError Disk :=
  match d.wayToNew start path with
  | .error e => .error ⟨"mkdir", path, e⟩
  | .ok way =>
    match d.target? way with
    | some _ => .error ⟨"mkdir", path, .alreadyThere⟩
    | none => .ok (d.set way.place (.directory []))

/-- The names in a directory with their kinds, in the order of their characters. -/
def list (d : Disk) (start : List String) (path : String) :
    Except FileError (List (String × EntryKind)) :=
  match d.entry start path with
  | .error e => .error ⟨"open", path, e⟩
  | .ok (.file _) => .error ⟨"open", path, .notDirectory⟩
  | .ok (.directory children) =>
    .ok ((children.map fun (name, e) => (name, e.kind)).mergeSort fun a b => !decide (b.1 < a.1))

/-- Remove all that is at a place. -/
def removeAt (d : Disk) (place : List String) : Disk := ⟨d.root.erase place⟩

/-- Remove all that a path leads to, if it leads to something. -/
def remove (d : Disk) (start : List String) (path : String) : Disk :=
  match d.way start path with
  | .ok way => d.removeAt way.place
  | .error _ => d

/-- The files of a disk with their places. -/
def files (d : Disk) : List (List String × List UInt8) := d.root.files

end Disk

end Lane
