import Lane.Text.Quoted

set_option relaxedAutoImplicit false
set_option autoImplicit false

/-!
# LLVM names and types

## Main definitions

* `Lane.Llvm.escapeName`: a name as LLVM text spells it.
* `Lane.Llvm.LType`: the types of LLVM that the compiler uses.
* `Lane.Llvm.LType.text`: a type as text.
-/

namespace Lane.Llvm

/-- Whether a name may hold the byte without quotes. -/
def isNameByte (b : UInt8) : Bool :=
  let c := Char.ofNat b.toNat
  c.isAlphanum || c == '$' || c == '.' || c == '_' || c == '-'

/-- A byte as two upper-case hexadecimal digits after a backslash. -/
def escapeByte (b : UInt8) : String := "\\" ++ (Text.hex 2 b.toNat).toUpper

/-- A text with a backslash escape for each byte that is not printable ASCII, a quote or a
backslash. -/
def escapeText (s : String) : String :=
  String.join (s.toUTF8.toList.map fun b =>
    if 0x20 ≤ b.toNat ∧ b.toNat ≤ 0x7E ∧ b.toNat ≠ 0x22 ∧ b.toNat ≠ 0x5C then
      (Char.ofNat b.toNat).toString
    else escapeByte b)

/-- A name, in quotes where a byte of it requires them. -/
def escapeName (s : String) : String :=
  if s.toUTF8.toList.all isNameByte then s else "\"" ++ escapeText s ++ "\""

/-- The types of LLVM that the compiler uses. A struct without a name is spelled out. -/
inductive LType where
  | void
  | int (bits : Nat)
  | float
  | double
  | ptr (target : LType)
  | vector (lanes : Nat) (elem : LType)
  | struct (name : String) (fields : List LType)
  deriving Repr, Inhabited

namespace LType

/-- The type of bytes. -/
def byte : LType := .int 8

/-- The type of every pointer of a program. -/
def bytePtr : LType := .ptr byte

/-- The fields of a struct in braces. -/
def fieldsText (fields : List String) : String :=
  if fields.isEmpty then "\x7b\x7d" else "\x7b " ++ ", ".intercalate fields ++ " \x7d"

mutual

/-- A type as text. -/
def text : LType → String
  | .void => "void"
  | .int n => "i" ++ toString n
  | .float => "float"
  | .double => "double"
  | .ptr t => t.text ++ "*"
  | .vector n t => "<" ++ toString n ++ " x " ++ t.text ++ ">"
  | .struct name fields =>
    if name = "" then fieldsText (texts fields) else "%" ++ escapeName name

/-- Several types as texts. -/
def texts : List LType → List String
  | [] => []
  | t :: ts => t.text :: texts ts

end

/-- The name of the kind of a type. -/
def kindName : LType → String
  | .void => "VoidType"
  | .int _ => "IntType"
  | .float | .double => "FloatType"
  | .ptr _ => "PointerType"
  | .vector _ _ => "VectorType"
  | .struct _ _ => "StructType"

/-- The definition of a struct type, any other type as it is. -/
def definition : LType → String
  | .struct _ fields => fieldsText (texts fields)
  | t => t.text

mutual

/-- Equality of types; structs with names are equal if their names are. -/
def same : LType → LType → Bool
  | .void, .void => true
  | .int m, .int n => m == n
  | .float, .float => true
  | .double, .double => true
  | .ptr t, .ptr u => same t u
  | .vector m t, .vector n u => m == n && same t u
  | .struct a fs, .struct b gs =>
    if a != "" || b != "" then a == b else sameAll fs gs
  | _, _ => false

/-- Equality of lists of types. -/
def sameAll : List LType → List LType → Bool
  | [], [] => true
  | t :: ts, u :: us => same t u && sameAll ts us
  | _, _ => false

end

end LType

end Lane.Llvm
