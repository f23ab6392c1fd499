import Lane.Position

set_option relaxedAutoImplicit false
set_option autoImplicit false

/-!
# Diagnostics

What the compiler has to say about a program: errors, which make the compilation fail, and
warnings, in the order in which they were found.

## Main definitions

* `Lane.Diagnostic`: one message with its severity, kind and place.
* `Lane.Diagnostics`: the messages of one compilation.
* `Lane.Diagnostics.failed`: whether an error is among them.
-/

namespace Lane

/-- How serious a diagnostic is. -/
inductive Severity where
  | error
  | warning
  deriving DecidableEq, Repr, Inhabited

/-- The word that names a severity. -/
def Severity.name : Severity → String
  | .error => "error"
  | .warning => "warning"

/-- What a diagnostic is about. -/
inductive DiagnosticKind where
  | malformed
  | undeclared
  | duplicate
  | mismatch
  | overload
  | containerUse
  | cyclicLayout
  | notVectorizable
  /-- A kind that has only a number. -/
  | numbered (n : Int)
  deriving DecidableEq, Repr, Inhabited

namespace DiagnosticKind

/-- The kinds that have names, in the order of their numbers. -/
def named : List DiagnosticKind :=
  [.malformed, .undeclared, .duplicate, .mismatch, .overload, .containerUse, .cyclicLayout,
    .notVectorizable]

/-- The kind with a number. -/
def ofInt (n : Int) : DiagnosticKind :=
  if n < 0 then .numbered n else (named[n.toNat]?).getD (.numbered n)

/-- The name of a kind; a negative number names none. -/
def name? : DiagnosticKind → Option String
  | .malformed => some "syntax"
  | .undeclared => some "undeclared-identifier"
  | .duplicate => some "duplicate-declaration"
  | .mismatch => some "type-mismatch"
  | .overload => some "overload-resolution"
  | .containerUse => some "invalid-container-usage"
  | .cyclicLayout => some "cyclic-layout"
  | .notVectorizable => some "not-vectorizable"
  | .numbered n => if n < 0 then none else some s!"kind({n})"

end DiagnosticKind

/-- One message about a program. -/
structure Diagnostic where
  severity : Severity
  kind : DiagnosticKind
  pos : Position
  message : String
  deriving DecidableEq, Repr, Inhabited

namespace Diagnostic

/-- An error of a kind at a place. -/
def error (kind : DiagnosticKind) (pos : Position) (message : String) : Diagnostic :=
  ⟨.error, kind, pos, message⟩

/-- Whether the diagnostic is an error. -/
def isError (d : Diagnostic) : Bool := d.severity = .error

/-- The line that shows a diagnostic. -/
def describe (d : Diagnostic) : String :=
  d.pos.describe ++ ": " ++ d.severity.name ++ ": " ++ d.message

end Diagnostic

/-- The diagnostics of one compilation, the oldest first. -/
structure Diagnostics where
  entries : Array Diagnostic := #[]
  deriving Repr, Inhabited, DecidableEq

namespace Diagnostics

/-- No diagnostic. -/
def empty : Diagnostics := {}

/-- Add a diagnostic after the others. -/
def push (ds : Diagnostics) (d : Diagnostic) : Diagnostics := ⟨ds.entries.push d⟩

/-- Add diagnostics in order. -/
def append (ds : Diagnostics) (more : List Diagnostic) : Diagnostics :=
  ⟨ds.entries ++ more.toArray⟩

/-- The diagnostics in the order reported. -/
def toList (ds : Diagnostics) : List Diagnostic := ds.entries.toList

/-- The errors among the diagnostics. -/
def errors (ds : Diagnostics) : List Diagnostic := ds.toList.filter Diagnostic.isError

/-- Whether an error was reported. -/
def failed (ds : Diagnostics) : Bool := ds.entries.any Diagnostic.isError

/-- The number of errors. -/
def errorCount (ds : Diagnostics) : Nat := ds.errors.length

/-- All diagnostics, one to a line. -/
def describe (ds : Diagnostics) : String :=
  String.join (ds.toList.map fun d => d.describe ++ "\n")

end Diagnostics

end Lane
