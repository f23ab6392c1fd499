set_option relaxedAutoImplicit false
set_option autoImplicit false

/-!
# Faults

A fault is a broken promise inside the compiler, as opposed to an error in the program that it
compiles. Functions that rely on such a promise return `Except Fault`.

## Main definitions

* `Lane.Fault`: the ways in which a promise is broken.
-/

namespace Lane

/-- A broken promise inside the compiler. -/
inductive Fault where
  /-- A stage met something that the stage before it rules out. -/
  | broken (what : String)
  /-- An instruction list was used against its rules. -/
  | misuse (what : String)
  /-- A value that should be there is missing. -/
  | missing
  /-- Values of a type whose values cannot be compared were to be. -/
  | incomparable (type : String)
  deriving DecidableEq, Repr, Inhabited

namespace Fault

/-- The words that start the message of a broken promise between stages. -/
def lead : String := "internal compiler error: "

/-- The message of a fault, where it has one. -/
def message? : Fault → Option String
  | .broken what => some (lead ++ what)
  | .misuse what => some what
  | .missing | .incomparable _ => none

/-- A fault in words. -/
def text : Fault → String
  | .broken what => lead ++ what
  | .misuse what => what
  | .missing => "runtime error: invalid memory address or nil pointer dereference"
  | .incomparable type => "runtime error: hash of unhashable type " ++ type

end Fault

/-- Results that a fault may replace. -/
abbrev Checked (α : Type) := Except Fault α

/-- Stop because a stage before this one broke a promise. -/
def broken {α : Type} (what : String) : Checked α := .error (.broken what)

/-- The value that should be there. -/
def require {α : Type} : Option α → Checked α
  | some a => .ok a
  | none => .error .missing

end Lane
