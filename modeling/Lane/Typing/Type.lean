import Lane.Syntax.Basic

set_option relaxedAutoImplicit false
set_option autoImplicit false

/-!
# Types

A type is a scalar, a class, a pointer or a container, with a modifier at every level. The error
type stands for whatever failed to be analysed and goes with every other type, so that one mistake
is reported once.

## Main definitions

* `Lane.Modifier`, `Lane.ScalarKind`, `Lane.ClassRef`: the parts of types.
* `Lane.Ty`: types.
* `Lane.Ty.compatible`: structural agreement up to modifiers.
* `Lane.Ty.withModifier`: the same type with another modifier at the top.
-/

namespace Lane

/-- How a value may be used: written or only read, by value or through its address. -/
inductive Modifier where
  | var
  | const
  | ref
  | cref
  deriving DecidableEq, Repr, Inhabited

namespace Modifier

/-- The word of a modifier. -/
def word : Modifier → String
  | .var => "var"
  | .const => "const"
  | .ref => "ref"
  | .cref => "cref"

/-- Whether values may not be written. -/
def isConst : Modifier → Bool
  | .const | .cref => true
  | _ => false

/-- Whether values are passed by address. -/
def isRef : Modifier → Bool
  | .ref | .cref => true
  | _ => false

/-- A type's name after its modifier, which is left out for `var`. -/
def prepend (m : Modifier) (name : String) : String :=
  if m = .var then name else m.word ++ " " ++ name

end Modifier

/-- The scalar types. -/
inductive ScalarKind where
  | bool
  | int8
  | int16
  | int32
  | int64
  | uint8
  | uint16
  | uint32
  | uint64
  | index
  | real32
  | real64
  deriving DecidableEq, Repr, Inhabited

namespace ScalarKind

/-- The name of a scalar type. -/
def name : ScalarKind → String
  | .bool => "bool"
  | .int8 => "int8"
  | .int16 => "int16"
  | .int32 => "int32"
  | .int64 => "int64"
  | .uint8 => "uint8"
  | .uint16 => "uint16"
  | .uint32 => "uint32"
  | .uint64 => "uint64"
  | .index => "index"
  | .real32 => "real32"
  | .real64 => "real64"

/-- The scalar type with a name; `int`, `uint` and `real` name the usual widths. -/
def ofName? : String → Option ScalarKind
  | "int" | "int32" => some .int32
  | "uint" | "uint32" => some .uint32
  | "real" | "real64" => some .real64
  | "bool" => some .bool
  | "int8" => some .int8
  | "int16" => some .int16
  | "int64" => some .int64
  | "uint8" => some .uint8
  | "uint16" => some .uint16
  | "uint64" => some .uint64
  | "index" => some .index
  | "real32" => some .real32
  | _ => none

/-- The size in bytes. -/
def size : ScalarKind → Nat
  | .bool | .int8 | .uint8 => 1
  | .int16 | .uint16 => 2
  | .int32 | .uint32 | .real32 => 4
  | .int64 | .uint64 | .index | .real64 => 8

/-- Whether values are signed integers. -/
def isSigned : ScalarKind → Bool
  | .int8 | .int16 | .int32 | .int64 => true
  | _ => false

/-- Whether values are integers. -/
def isInteger : ScalarKind → Bool
  | .bool | .real32 | .real64 => false
  | _ => true

/-- Whether values are reals. -/
def isReal : ScalarKind → Bool
  | .real32 | .real64 => true
  | _ => false

/-- The largest value of an integer type. -/
def maxValue (k : ScalarKind) : Nat :=
  if k.isSigned then Nat.pow 2 (8 * k.size - 1) - 1 else Nat.pow 2 (8 * k.size) - 1

end ScalarKind

/-- The name of a class in types: what tells it from others, how it is called, and whether it is
declared `simd`. -/
structure ClassRef where
  id : Nat
  name : String
  isSimd : Bool
  deriving DecidableEq, Repr, Inhabited

/-- The containers that own their elements. -/
inductive SeqKind where
  | array
  | simd
  deriving DecidableEq, Repr, Inhabited

/-- The word that names a container. -/
def SeqKind.name : SeqKind → String
  | .array => "array"
  | .simd => "simd"

/-- Types. -/
inductive Ty where
  | scalar (m : Modifier) (k : ScalarKind)
  | cls (m : Modifier) (c : ClassRef)
  | ptr (m : Modifier) (inner : Ty)
  | container (m : Modifier) (k : SeqKind) (inner : Ty)
  /-- The type of whatever failed to be analysed. -/
  | error (m : Modifier)
  deriving DecidableEq, Repr, Inhabited

namespace Ty

/-- A scalar that may be written. -/
def ofScalar (k : ScalarKind) : Ty := .scalar .var k

/-- A class value that may be written. -/
def ofClass (c : ClassRef) : Ty := .cls .var c

/-- The error type. -/
def failed : Ty := .error .var

/-- The modifier at the top. -/
def modifier : Ty → Modifier
  | .scalar m _ | .cls m _ | .ptr m _ | .container m _ _ | .error m => m

/-- The same type with another modifier at the top. -/
def withModifier (m : Modifier) : Ty → Ty
  | .scalar _ k => .scalar m k
  | .cls _ c => .cls m c
  | .ptr _ t => .ptr m t
  | .container _ k t => .container m k t
  | .error _ => .error m

/-- The type without its modifiers. -/
def name : Ty → String
  | .scalar _ k => k.name
  | .cls _ c => c.name
  | .ptr _ t => "ptr\x7b" ++ t.name ++ "\x7d"
  | .container _ k t => k.name ++ "\x7b" ++ t.name ++ "\x7d"
  | .error _ => "<error>"

/-- The type with the modifier at the top. -/
def text : Ty → String
  | .error _ => "<error>"
  | t => t.modifier.prepend t.name

/-- Whether this is the error type. -/
def isError : Ty → Bool
  | .error _ => true
  | _ => false

/-- Structural agreement up to modifiers; the error type agrees with every type. -/
def compatible : Ty → Ty → Bool
  | .error _, _ => true
  | _, .error _ => true
  | .scalar _ k, .scalar _ l => k == l
  | .cls _ c, .cls _ d => c.id == d.id
  | .ptr _ t, .ptr _ u => compatible t u
  | .container _ k t, .container _ l u => k == l && compatible t u
  | _, _ => false

/-- Structural agreement up to modifiers, of which the error type at the top has none. -/
def identical (t u : Ty) : Bool := !t.isError && !u.isError && t.compatible u

/-- Whether values fit a machine scalar and are passed by value. -/
def isAtomic : Ty → Bool
  | .scalar _ _ | .ptr _ _ => true
  | _ => false

/-- Whether values are booleans. -/
def isBool : Ty → Bool
  | .scalar _ .bool => true
  | _ => false

/-- Whether values are indices. -/
def isIndex : Ty → Bool
  | .scalar _ .index => true
  | _ => false

/-- Whether values are numbers. -/
def isNumeric : Ty → Bool
  | .scalar _ k => k != .bool
  | _ => false

/-- Whether values are pointers. -/
def isPtr : Ty → Bool
  | .ptr _ _ => true
  | _ => false

/-- Whether values are class instances. -/
def isClass : Ty → Bool
  | .cls _ _ => true
  | _ => false

/-- Whether values are containers. -/
def isContainer : Ty → Bool
  | .container _ _ _ => true
  | _ => false

/-- The class of a class type or of a pointer to one. -/
def classOf? : Ty → Option ClassRef
  | .cls _ c => some c
  | .ptr _ (.cls _ c) => some c
  | _ => none

/-- The size in bytes of an atomic type; pointers have eight bytes. -/
def atomicSize : Ty → Nat
  | .scalar _ k => k.size
  | .ptr _ _ => 8
  | _ => 0

/-- Types in parentheses, separated by commas. -/
def listText (ts : List Ty) : String := "(" ++ ", ".intercalate (ts.map text) ++ ")"

end Ty

end Lane
