set_option relaxedAutoImplicit false
set_option autoImplicit false

/-!
# Paths

A path is a text whose parts are divided by slashes. The operations here look at the text alone and
never at a disk.

## Main definitions

* `Lane.Path.clean`: the shortest path with the same meaning.
* `Lane.Path.join`: a path below another.
* `Lane.Path.dir`, `Lane.Path.base`, `Lane.Path.ext`: the directory, the last part and the extension
  of a path.
-/

namespace Lane.Path

/-- Whether a path starts at the root. -/
def isAbsolute (p : String) : Bool := p.toList.head? = some '/'

/-- The parts of a path between its slashes; some may be empty. -/
def parts (p : String) : List String := (p.toList.splitOn '/').map String.ofList

/-- One part more, on a stack with the last part first. A part `..` takes the part before it away;
at the root it has no effect. -/
def push (rooted : Bool) (stack : List String) (part : String) : List String :=
  if part = "" ∨ part = "." then stack
  else if part = ".." then
    match stack with
    | [] => if rooted then [] else [".."]
    | top :: rest => if top = ".." then ".." :: stack else rest
  else part :: stack

/-- The shortest path with the same meaning. -/
def clean (p : String) : String :=
  let rooted := isAbsolute p
  let text := "/".intercalate ((parts p).foldl (push rooted) []).reverse
  if rooted then "/" ++ text else if text = "" then "." else text

/-- The cleaned path through all of `ps`; empty ones are left out. -/
def join (ps : List String) : String :=
  match ps.filter (· ≠ "") with
  | [] => ""
  | qs => clean ("/".intercalate qs)

/-- The text of a path after its last slash. -/
def lastPart (p : String) : List Char := (p.toList.reverse.takeWhile (· ≠ '/')).reverse

/-- The directory of a path, cleaned. -/
def dir (p : String) : String :=
  clean (String.ofList (p.toList.reverse.dropWhile (· ≠ '/')).reverse)

/-- A text without the slashes at its end. -/
def trimSlashes (p : String) : String :=
  String.ofList (p.toList.reverse.dropWhile (· = '/')).reverse

/-- The last part of a path: `.` for the empty path, and `/` for the root. -/
def base (p : String) : String :=
  if p = "" then "."
  else match lastPart (trimSlashes p) with
    | [] => "/"
    | cs => String.ofList cs

/-- The extension of a path: what follows the last dot of its last part, with the dot. -/
def ext (p : String) : String :=
  match (lastPart p).reverse.span (· ≠ '.') with
  | (_, []) => ""
  | (after, _ :: _) => String.ofList ('.' :: after.reverse)

/-- A text without an ending, if it ends so. -/
def dropEnding (s ending : String) : String :=
  if ending.toList.isSuffixOf s.toList then
    String.ofList (s.toList.take (s.length - ending.length))
  else s

/-- A path without its extension. -/
def withoutExt (p : String) : String := dropEnding p (ext p)

/-- The path of what holds `p`, as far as it is written: nothing holds a lone name or what stands
right under the root. -/
def holder? (p : String) : Option String :=
  match (p.toList.reverse.dropWhile (· = '/')).dropWhile (· ≠ '/') with
  | [] | [_] => none
  | _ :: rest => some (String.ofList rest.reverse)

end Lane.Path
