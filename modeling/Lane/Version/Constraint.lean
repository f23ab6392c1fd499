import Lane.Version.Basic

set_option relaxedAutoImplicit false
set_option autoImplicit false

/-!
# Version constraints

A constraint is a choice of lists of bounds: a version satisfies it if it is within all bounds of
one of the lists. A bound compares with a version of which parts may be left open.

## Main definitions

* `Lane.VersionBound`: one comparison.
* `Lane.VersionBound.check`: whether a version is within a bound, and why it is not.
* `Lane.VersionConstraint.ofText`: the constraint that a text stands for.
* `Lane.VersionConstraint.allows`, `Lane.VersionConstraint.failures`: whether a version satisfies a
  constraint, and why it does not.
-/

namespace Lane

/-- How a bound compares. -/
inductive VersionRelation where
  /-- Equal, or within what a version with open parts stands for. -/
  | matching
  | ne
  | gt
  | lt
  | ge
  | le
  /-- Not less, with the same numbers as far as the minor one is given. -/
  | tilde
  /-- Not less, with the same first number that is not zero. -/
  | caret
  deriving DecidableEq, Repr, Inhabited

namespace VersionRelation

/-- The ways to write the relations, longer ones first. -/
def table : List (String × VersionRelation) :=
  [("!=", .ne), (">=", .ge), ("=>", .ge), ("<=", .le), ("=<", .le), ("~>", .tilde),
    ("=", .matching), (">", .gt), ("<", .lt), ("~", .tilde), ("^", .caret), ("", .matching)]

end VersionRelation

/-- One comparison. -/
structure VersionBound where
  relation : VersionRelation
  version : Version
  /-- The version as it is written. -/
  text : String
  /-- Whether some part is left open. -/
  isOpen : Bool := false
  /-- Whether the minor number is left open. -/
  minorOpen : Bool := false
  /-- Whether the patch number alone is left open. -/
  patchOpen : Bool := false
  deriving DecidableEq, Repr, Inhabited

/-- Why a version is outside a bound. -/
inductive BoundFailure where
  | prerelease
  | isLess
  | isLessOrEqual
  | isGreater
  | isGreaterOrEqual
  | isEqual
  | notEqual
  | otherMajor
  | otherMajorMinor
  | otherMinorOfZero
  | otherMinor
  | otherPatch
  deriving DecidableEq, Repr, Inhabited

/-- The message for a version that is outside a bound. -/
def BoundFailure.message (version bound : String) : BoundFailure → String
  | .prerelease =>
    version ++ " is a prerelease version and the constraint is only looking for release versions"
  | .isLess => version ++ " is less than " ++ bound
  | .isLessOrEqual => version ++ " is less than or equal to " ++ bound
  | .isGreater => version ++ " is greater than " ++ bound
  | .isGreaterOrEqual => version ++ " is greater than or equal to " ++ bound
  | .isEqual => version ++ " is equal to " ++ bound
  | .notEqual => version ++ " is not equal to " ++ bound
  | .otherMajor => version ++ " does not have same major version as " ++ bound
  | .otherMajorMinor => version ++ " does not have same major and minor version as " ++ bound
  | .otherMinorOfZero =>
    version ++ " does not have same minor version as " ++ bound
      ++ ". Expected minor versions to match when constraint major version is 0"
  | .otherMinor => version ++ " does not have same minor version as " ++ bound
  | .otherPatch =>
    version ++ " does not equal " ++ bound
      ++ ". Expect version and constraint to equal when major and minor versions are 0"

namespace VersionBound

/-- Fail for a reason unless a condition holds. -/
def ensure (why : BoundFailure) (holds : Bool) : Except BoundFailure Unit :=
  if holds then .ok () else .error why

/-- Whether a version is a prerelease while the bound is about releases. -/
def refusesPrerelease (b : VersionBound) (v : Version) : Bool := v.pre ≠ "" && b.version.pre = ""

/-- Whether a version differs from what a bound stands for. -/
def checkNe (b : VersionBound) (v : Version) : Except BoundFailure Unit :=
  let c := b.version
  if b.isOpen then
    if b.refusesPrerelease v then .error .prerelease
    else if c.major ≠ v.major then .ok ()
    else if b.minorOpen then .error .isEqual
    else if c.minor ≠ v.minor then .ok ()
    else if b.patchOpen then ensure .isEqual (Version.comparePre v.pre c.pre ≠ .eq)
    else if c.patch ≠ v.patch then .ok ()
    else ensure .isEqual (v.compare c ≠ .eq)
  else ensure .isEqual (v.compare c ≠ .eq)

/-- Whether a version is above all that a bound stands for. -/
def checkGt (b : VersionBound) (v : Version) : Except BoundFailure Unit :=
  let c := b.version
  ensure .isLessOrEqual <|
    if b.isOpen ∧ v.major ≠ c.major then v.major > c.major
    else if b.minorOpen then false
    else if b.patchOpen then v.minor > c.minor
    else v.compare c = .gt

/-- Whether a version is not above all that a bound stands for. -/
def checkLe (b : VersionBound) (v : Version) : Except BoundFailure Unit :=
  let c := b.version
  ensure .isGreater <|
    if b.isOpen then
      !(v.major > c.major || (v.major = c.major && v.minor > c.minor && !b.minorOpen))
    else v.compare c ≠ .gt

/-- Whether a version is not less than a bound and has the numbers that it gives, the patch
apart. -/
def checkTilde (b : VersionBound) (v : Version) : Except BoundFailure Unit :=
  let c := b.version
  if v.compare c = .lt then .error .isLess
  else if c.major = 0 ∧ c.minor = 0 ∧ c.patch = 0 ∧ !b.minorOpen ∧ !b.patchOpen then .ok ()
  else if v.major ≠ c.major then .error .otherMajor
  else ensure .otherMajorMinor (v.minor = c.minor || b.minorOpen)

/-- Whether a version is not less than a bound and agrees with it up to the first number that is not
zero. -/
def checkCaret (b : VersionBound) (v : Version) : Except BoundFailure Unit :=
  let c := b.version
  if v.compare c = .lt then .error .isLess
  else if c.major > 0 ∨ b.minorOpen then ensure .otherMajor (v.major = c.major)
  else if v.major > 0 then .error .otherMajor
  else if c.minor > 0 ∨ b.patchOpen then ensure .otherMinorOfZero (v.minor = c.minor)
  else if v.minor > 0 then .error .otherMinor
  else ensure .otherPatch (c.patch = v.patch)

/-- Whether a version is within a bound, and why it is not. -/
def check (b : VersionBound) (v : Version) : Except BoundFailure Unit :=
  if b.relation = .ne then b.checkNe v
  else if b.refusesPrerelease v then .error .prerelease
  else match b.relation with
    | .matching =>
      if b.isOpen then b.checkTilde v else ensure .notEqual (v.compare b.version = .eq)
    | .ne => b.checkNe v
    | .gt => b.checkGt v
    | .lt => ensure .isGreaterOrEqual (v.compare b.version = .lt)
    | .ge => ensure .isLess (v.compare b.version ≠ .lt)
    | .le => b.checkLe v
    | .tilde => b.checkTilde v
    | .caret => b.checkCaret v

end VersionBound

/-- Why a text stands for no constraint. -/
inductive ConstraintError where
  | improper (part : String)
  /-- A bound has the form of a version and is none. -/
  | noVersion
  deriving DecidableEq, Repr, Inhabited

/-- The message of an error. -/
def ConstraintError.message : ConstraintError → String
  | .improper part => "improper constraint: " ++ part
  | .noVersion => "constraint Parser Error"

/-- A choice of lists of bounds. -/
structure VersionConstraint where
  choices : List (List VersionBound)
  deriving DecidableEq, Repr, Inhabited

namespace VersionConstraint

/-- The blanks between the pieces of a constraint. -/
def isGap (c : Char) : Bool := [' ', '\t', '\n', '\r', Char.ofNat 12].contains c

/-- What the numbers of a bound are made of. -/
def isPart (c : Char) : Bool := c.isDigit || ['|', 'x', 'X', '*'].contains c

/-- Whether a number of a bound is left open. -/
def isOpenPart (s : Option String) : Bool :=
  match s with
  | none => true
  | some s => ["x", "X", "*"].contains s

/-- The version of a bound and its text, at the start of `cs`, with what follows it. -/
def readVersion (cs : List Char) : Option (VersionText × String × List Char) := do
  let (t, rest) ← VersionText.read isPart cs
  return (t, String.ofList (cs.take (cs.length - rest.length)), rest)

/-- The relation and the version of a bound at the start of `cs`, with what follows it. -/
def readBound (cs : List Char) : Option ((VersionRelation × VersionText × String) × List Char) :=
  VersionRelation.table.findSome? fun (word, relation) => do
    if !word.toList.isPrefixOf cs then none
    let (t, text, rest) ← readVersion ((cs.drop word.length).dropWhile isGap)
    return ((relation, t, text), rest)

/-- The bounds of a part, which are divided by gaps or a comma; at most `n` of them. -/
def readBounds : Nat → List Char → Option (List (VersionRelation × VersionText × String))
  | 0, _ => none
  | n + 1, cs => do
    let (bound, rest) ← readBound cs
    let after := rest.dropWhile isGap
    match after with
    | [] => return [bound]
    | ',' :: more => return bound :: (← readBounds n (more.dropWhile isGap))
    | _ => if rest.head?.any isGap then return bound :: (← readBounds n after) else none

/-- The bound of some pieces. Open parts stand for zero. -/
def bound (relation : VersionRelation) (t : VersionText) (text : String) :
    Except ConstraintError VersionBound :=
  let pieces : VersionText × Bool × Bool × Bool :=
    if isOpenPart (some t.major) then ({ major := "0", pre := t.pre }, true, false, false)
    else if isOpenPart t.minor then ({ major := t.major, pre := t.pre }, true, true, false)
    else if isOpenPart t.patch then
      ({ major := t.major, minor := t.minor, pre := t.pre }, true, false, true)
    else (t, false, false, false)
  let (p, isOpen, minorOpen, patchOpen) := pieces
  let numbers := p.major ++ p.minor.getD "" ++ p.patch.getD ""
  if !numbers.toList.all Char.isDigit then .error .noVersion
  else match Version.ofPieces p with
    | .ok v => .ok ⟨relation, v, text, isOpen, minorOpen, patchOpen⟩
    | .error _ => .error .noVersion

/-- The bounds of one part of a constraint. -/
def ofPart (s : String) : Except ConstraintError (List VersionBound) :=
  match readBounds (s.length + 1) (s.toList.dropWhile isGap) with
  | some bounds => bounds.mapM fun (relation, t, text) => bound relation t text
  | none => .error (.improper s)

/-- A range `A - B` at the start of `cs`: its two versions, and its text with the gaps around it. -/
def readRange (cs : List Char) : Option (String × String × List Char) := do
  let (_, low, rest) ← readVersion (cs.dropWhile isGap)
  match rest.dropWhile isGap with
  | '-' :: after =>
    if !(rest.head?.any isGap && after.head?.any isGap) then none
    let (_, high, rest) ← readVersion (after.dropWhile isGap)
    return (low, high, cs.take (cs.length - (rest.dropWhile isGap).length))
  | _ => none

/-- The ranges in a text, from left to right. `skip` characters belong to the one before. -/
def ranges : Nat → List Char → List (String × String × List Char)
  | _, [] => []
  | skip + 1, _ :: rest => ranges skip rest
  | 0, c :: rest =>
    match readRange (c :: rest) with
    | some r => r :: ranges (r.2.2.length - 1) rest
    | none => ranges 0 rest

/-- Replace the first occurrence of a text. -/
def replaceFirst (old new : List Char) : List Char → List Char
  | [] => []
  | c :: rest =>
    if old.isPrefixOf (c :: rest) then new ++ (c :: rest).drop old.length
    else c :: replaceFirst old new rest

/-- Write ranges as pairs of bounds. -/
def expandRanges (s : String) : String :=
  let cs := (ranges 0 s.toList).foldl (fun cs (low, high, text) =>
    replaceFirst text (">= " ++ low ++ ", <= " ++ high ++ " ").toList cs) s.toList
  String.ofList cs

/-- The constraint that a text stands for. -/
def ofText (s : String) : Except ConstraintError VersionConstraint := do
  return ⟨← ((expandRanges s).splitOn "||").mapM ofPart⟩

/-- Whether a version is within all bounds of one of the choices. -/
def allows (c : VersionConstraint) (v : Version) : Bool :=
  c.choices.any fun bounds => bounds.all fun b => (b.check v) matches .ok _

/-- The reasons why a version is outside the bounds of all choices, in the order of the bounds; none
if it satisfies the constraint. -/
def failures (c : VersionConstraint) (v : Version) : List String :=
  if c.allows v then []
  else c.choices.flatten.filterMap fun b =>
    if b.refusesPrerelease v then some (BoundFailure.prerelease.message v.text b.text)
    else match b.check v with
      | .ok _ => none
      | .error e => some (e.message v.text b.text)

end VersionConstraint

end Lane
