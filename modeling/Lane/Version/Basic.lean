import Lane.Text.Quoted

set_option relaxedAutoImplicit false
set_option autoImplicit false

/-!
# Versions

A version has three numbers, perhaps a prerelease and perhaps build metadata. Versions are ordered
by their numbers first; a prerelease comes before its release, and metadata does not count.

## Main definitions

* `Lane.VersionText`: the pieces of a written version.
* `Lane.Version`: versions.
* `Lane.Version.ofText`: the version that a text stands for.
* `Lane.Version.compare`: the order of versions.
-/

namespace Lane

/-- The pieces of a written version. -/
structure VersionText where
  major : String
  minor : Option String := none
  patch : Option String := none
  /-- The prerelease, empty for none. -/
  pre : String := ""
  /-- The build metadata, empty for none. -/
  build : String := ""
  deriving DecidableEq, Repr, Inhabited

/-- Why a text stands for no version. -/
inductive VersionError where
  | malformed
  /-- A number does not fit into 64 bits. -/
  | tooLarge (digits : String)
  /-- A number of the prerelease has a zero in front. -/
  | leadingZero
  deriving DecidableEq, Repr, Inhabited

/-- The message of an error. -/
def VersionError.message : VersionError → String
  | .malformed => "Invalid Semantic Version"
  | .tooLarge digits =>
    "Error parsing version segment: strconv.ParseUint: parsing " ++ Text.quote digits
      ++ ": value out of range"
  | .leadingZero => "Version segment starts with 0"

namespace VersionText

/-- The characters of prereleases and metadata, dots apart. -/
def isMark (c : Char) : Bool := c.isAlphanum || c = '-'

/-- The longest run of marks and dots at the start of a text in which every dot stands between
marks. -/
def dotted : List Char → List Char × List Char
  | [] => ([], [])
  | c :: rest =>
    if isMark c then
      let (run, after) := dotted rest
      (c :: run, after)
    else if c = '.' ∧ (rest.head?.map isMark) = some true then
      let (run, after) := dotted rest
      (c :: run, after)
    else ([], c :: rest)

/-- The dotted run after the character `lead`, if both are there. -/
def led (lead : Char) : List Char → String × List Char
  | c :: d :: rest =>
    if c = lead ∧ isMark d then
      let (run, after) := dotted (d :: rest)
      (String.ofList run, after)
    else ("", c :: d :: rest)
  | cs => ("", cs)

/-- A number after a dot, if it is there. -/
def dotNumber (isPart : Char → Bool) : List Char → Option String × List Char
  | '.' :: rest =>
    match rest.takeWhile isPart with
    | [] => (none, '.' :: rest)
    | run => (some (String.ofList run), rest.dropWhile isPart)
  | cs => (none, cs)

/-- The version written at the start of a text and what follows it; `isPart` says what numbers are
made of. -/
def read (isPart : Char → Bool) (cs : List Char) : Option (VersionText × List Char) :=
  let cs := if cs.head? = some 'v' then cs.tail else cs
  match cs.takeWhile isPart with
  | [] => none
  | major =>
    let (minor, cs) := dotNumber isPart (cs.dropWhile isPart)
    let (patch, cs) := match minor with
      | some _ => dotNumber isPart cs
      | none => (none, cs)
    let (pre, cs) := led '-' cs
    let (build, cs) := led '+' cs
    some (⟨String.ofList major, minor, patch, pre, build⟩, cs)

end VersionText

/-- Versions. -/
structure Version where
  major : Nat
  minor : Nat
  patch : Nat
  /-- The prerelease, empty for none. -/
  pre : String := ""
  /-- The build metadata, empty for none. -/
  build : String := ""
  deriving DecidableEq, Repr, Inhabited

namespace Version

/-- The number with some decimal digits, if it fits into 64 bits. -/
def number (digits : String) : Except VersionError Nat :=
  let n := digits.toList.foldl (fun n c => 10 * n + (c.toNat - 48)) 0
  if n < UInt64.size then .ok n else .error (.tooLarge digits)

/-- Whether a part of a prerelease is a number with a zero in front. -/
def hasLeadingZero (part : String) : Bool :=
  part.toList.all Char.isDigit && part.length > 1 && part.toList.head? = some '0'

/-- The version of some pieces. A missing number is zero. -/
def ofPieces (t : VersionText) : Except VersionError Version := do
  let major ← number t.major
  let minor ← number (t.minor.getD "0")
  let patch ← number (t.patch.getD "0")
  if t.pre ≠ "" ∧ (t.pre.splitOn ".").any hasLeadingZero then throw .leadingZero
  return ⟨major, minor, patch, t.pre, t.build⟩

/-- The version that a text stands for. -/
def ofText (s : String) : Except VersionError Version :=
  match VersionText.read Char.isDigit s.toList with
  | some (t, []) => ofPieces t
  | _ => .error .malformed

/-- A version as text. -/
def text (v : Version) : String :=
  s!"{v.major}.{v.minor}.{v.patch}"
    ++ (if v.pre = "" then "" else "-" ++ v.pre) ++ (if v.build = "" then "" else "+" ++ v.build)

/-- The number that a part of a prerelease is, if it is one that fits into 64 bits. -/
def partNumber? (part : String) : Option Nat :=
  if part.toList.all Char.isDigit then (number part).toOption else none

/-- The order of two parts of prereleases: no part, then numbers, then words. -/
def comparePart (a b : String) : Ordering :=
  if a = b then .eq
  else if a = "" then .lt
  else if b = "" then .gt
  else match partNumber? a, partNumber? b with
    | none, none => if b < a then .gt else .lt
    | some _, none => .lt
    | none, some _ => .gt
    | some x, some y => if y < x then .gt else .lt

/-- The order of two prereleases, part by part. -/
def compareParts : List String → List String → Ordering
  | [], [] => .eq
  | a :: as, [] => (comparePart a "").then (compareParts as [])
  | [], b :: bs => (comparePart "" b).then (compareParts [] bs)
  | a :: as, b :: bs => (comparePart a b).then (compareParts as bs)

/-- The order of two prereleases. -/
def comparePre (a b : String) : Ordering := compareParts (a.splitOn ".") (b.splitOn ".")

/-- The order of versions. -/
def compare (a b : Version) : Ordering :=
  (Ord.compare a.major b.major).then <| (Ord.compare a.minor b.minor).then <|
    (Ord.compare a.patch b.patch).then <|
      if a.pre = "" then if b.pre = "" then .eq else .gt
      else if b.pre = "" then .lt else comparePre a.pre b.pre

end Version

end Lane
