import Lane.Host.Basic
import Lane.Project.Config

set_option relaxedAutoImplicit false
set_option autoImplicit false

/-!
# Source files

The source files of a project are the files with the right extension below its source directory.
Directories whose names start with a dot are left out.

## Main definitions

* `Lane.Config.sources`: the source files of a project.
-/

namespace Lane

/-- Why the source files cannot be listed. -/
structure SourcesError where
  root : String
  cause : FileError
  deriving DecidableEq, Repr, Inhabited

/-- The message of an error. -/
def SourcesError.message (e : SourcesError) : String :=
  "listing sources in " ++ e.root ++ ": " ++ e.cause.message

/-- Whether a path is that of a source file. -/
def isSource (path : String) : Bool := sourceExtension.toList.isSuffixOf path.toList

/-- Whether a name is hidden. -/
def isHidden (name : String) : Bool := name.toList.head? = some '.'

/-- Paths in the order of their characters. -/
def sortPaths (paths : List String) : List String := paths.mergeSort fun a b => !decide (b < a)

/-- More levels than a disk has. -/
def deepest : Nat := 4096

section

variable {m : Type → Type} [Monad m] [Host m]

mutual

/-- The source files in a directory, at most `n` levels deep. -/
def sourcesIn : Nat → String → m (Except FileError (List String))
  | 0, _ => return .ok []
  | n + 1, path => do
    match ← Host.readDirectory path with
    | .error e => return .error e
    | .ok entries => sourcesAmong n path entries

/-- The source files among some entries of a directory and below them. -/
def sourcesAmong (n : Nat) (path : String) :
    List (String × EntryKind) → m (Except FileError (List String))
  | [] => return .ok []
  | (name, kind) :: rest => do
    let below := Path.join [path, name]
    let found ← match kind with
      | .file => pure (.ok (if isSource below then [below] else []))
      | .directory => if isHidden name then pure (.ok []) else sourcesIn n below
    match found with
    | .error e => return .error e
    | .ok here =>
      match ← sourcesAmong n path rest with
      | .error e => return .error e
      | .ok others => return .ok (here ++ others)

end

/-- The source files of the project in a directory, sorted. The source directory may also be a
single file. -/
def Config.sources (c : Config) (directory : String) : m (Except SourcesError (List String)) := do
  let root := Path.join [directory, c.source.shown]
  match ← Host.kindOf root with
  | .error e => return .error ⟨root, ⟨"lstat", root, e⟩⟩
  | .ok .file => return .ok (if isSource root then [root] else [])
  | .ok .directory =>
    match ← sourcesIn deepest root with
    | .error e => return .error ⟨root, e⟩
    | .ok found => return .ok (sortPaths found)

end

end Lane
