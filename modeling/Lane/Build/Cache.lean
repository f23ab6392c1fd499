import Lane.Build.Unit
import Lane.Host.Basic

set_option relaxedAutoImplicit false
set_option autoImplicit false

/-!
# The build cache

Outputs are stored in a directory of the project, each under a key that is made from all that
decides it.

## Main definitions

* `Lane.BuildCache.openIn`: the cache of a project.
* `Lane.BuildCache.lookup`, `Lane.BuildCache.store`, `Lane.BuildCache.clean`: its operations.
-/

namespace Lane

/-- The cache in a directory. -/
structure BuildCache where
  path : String
  deriving DecidableEq, Repr, Inhabited

/-- Why an operation of the cache failed. -/
inductive CacheError where
  | creating (e : FileError)
  | reading (key : String) (e : FileError)
  | entry (e : FileError)
  /-- The key holds a slash. -/
  | badKey (key : String)
  | storing (e : FileError)
  | cleaning (e : FileError)
  /-- The key is too short to have a place. -/
  | shortKey
  deriving DecidableEq, Repr, Inhabited

/-- The message of an error; a short key has none. -/
def CacheError.message? : CacheError → Option String
  | .creating e => some ("creating build cache: " ++ e.message)
  | .reading key e => some ("reading cache entry " ++ key ++ ": " ++ e.message)
  | .entry e => some ("creating cache entry: " ++ e.message)
  | .badKey key =>
    some ("creating cache entry: createtemp " ++ key ++ ".*: pattern contains path separator")
  | .storing e => some ("storing cache entry: " ++ e.message)
  | .cleaning e => some ("cleaning build cache: " ++ e.message)
  | .shortKey => none

namespace BuildCache

/-- The place of the cache in a project. -/
def directory : String := ".lanec/cache"

/-- The path of an entry: a directory named for the first two bytes of the key, and the key in
it. -/
def entryPath (c : BuildCache) (key : String) : Except CacheError String :=
  let bytes := key.toUTF8.toList
  if bytes.length < 2 then .error .shortKey
  else .ok (Path.join [c.path, Rune.text (Rune.decode (bytes.take 2)), key])

section

variable {m : Type → Type} [Monad m] [Host m]

/-- The cache of the project in a directory, which is made if it is not there. -/
def openIn (root : String) : m (Except CacheError BuildCache) := do
  let path := Path.join [root, directory]
  return (← Host.makeDirectories path).mapError .creating |>.map fun _ => ⟨path⟩

/-- The output that is stored under a key, if there is one. -/
def lookup (c : BuildCache) (key : String) : m (Except CacheError (Option (List UInt8))) := do
  match c.entryPath key with
  | .error e => return .error e
  | .ok path =>
    match ← Host.readFile path with
    | .ok content => return .ok (some content)
    | .error e => return if e.problem = .missing then .ok none else .error (.reading key e)

/-- Store an output under a key. -/
def store (c : BuildCache) (key : String) (output : List UInt8) : m (Except CacheError Unit) := do
  match c.entryPath key with
  | .error e => return .error e
  | .ok path =>
    match ← Host.makeDirectories (Path.dir path) with
    | .error e => return .error (.entry e)
    | .ok _ =>
      if key.toList.contains '/' then return .error (.badKey key)
      return (← Host.installFile path output).mapError .storing

/-- Remove all entries. -/
def clean (c : BuildCache) : m (Except CacheError Unit) := do
  match ← Host.removeAll c.path with
  | .error e => return .error (.cleaning e)
  | .ok _ => return (← Host.makeDirectories c.path).mapError .cleaning

end

end BuildCache

end Lane
