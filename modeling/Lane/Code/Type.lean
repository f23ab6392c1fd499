import Lane.Llvm.Type

set_option relaxedAutoImplicit false
set_option autoImplicit false

/-!
# Types of code

Lowered code works on machine scalars and on vectors of them. Sizes and distances in memory are
words of 64 bits with a sign: a vector of very many lanes has the size that is left of the product.

## Main definitions

* `Lane.Code.Kind`: the machine scalars.
* `Lane.Code.VType`: a machine scalar, or a vector of several.
-/

namespace Lane.Code

open Lane.Llvm (LType)

/-- The machine scalars. -/
inductive Kind where
  | i1
  | i8
  | i16
  | i32
  | i64
  | u8
  | u16
  | u32
  | u64
  | f32
  | f64
  | ptr
  deriving DecidableEq, Repr, Inhabited

namespace Kind

/-- All kinds. -/
def all : List Kind := [.i1, .i8, .i16, .i32, .i64, .u8, .u16, .u32, .u64, .f32, .f64, .ptr]

/-- The name of a kind. -/
def name : Kind → String
  | .i1 => "i1"
  | .i8 => "i8"
  | .i16 => "i16"
  | .i32 => "i32"
  | .i64 => "i64"
  | .u8 => "u8"
  | .u16 => "u16"
  | .u32 => "u32"
  | .u64 => "u64"
  | .f32 => "f32"
  | .f64 => "f64"
  | .ptr => "ptr"

/-- The kind with a name. -/
def ofName? (s : String) : Option Kind := all.find? fun k => k.name == s

/-- The size in bytes. -/
def size : Kind → Nat
  | .i1 | .i8 | .u8 => 1
  | .i16 | .u16 => 2
  | .i32 | .u32 | .f32 => 4
  | .i64 | .u64 | .f64 | .ptr => 8

/-- Whether values are integers. -/
def isInteger : Kind → Bool
  | .i1 | .f32 | .f64 | .ptr => false
  | _ => true

/-- Whether values are signed integers. -/
def isSigned : Kind → Bool
  | .i8 | .i16 | .i32 | .i64 => true
  | _ => false

/-- Whether values are reals. -/
def isReal : Kind → Bool
  | .f32 | .f64 => true
  | _ => false

/-- The number of bits that a value is made of. -/
def bits (k : Kind) : Nat := if k = .i1 then 1 else 8 * k.size

/-- The signed integers of a number of bytes; the widest ones for a number that has none. -/
def intOfSize : Nat → Kind
  | 1 => .i8
  | 2 => .i16
  | 4 => .i32
  | _ => .i64

/-- The LLVM type of a kind. -/
def llvm : Kind → LType
  | .i1 => .int 1
  | .i8 | .u8 => .int 8
  | .i16 | .u16 => .int 16
  | .i32 | .u32 => .int 32
  | .i64 | .u64 => .int 64
  | .f32 => .float
  | .f64 => .double
  | .ptr => .bytePtr

end Kind

/-- A machine scalar, or a vector of them if there is more than one lane. -/
structure VType where
  kind : Kind
  lanes : Nat := 0
  deriving DecidableEq, Repr, Inhabited

namespace VType

/-- A machine scalar. -/
def scalar (k : Kind) : VType := ⟨k, 0⟩

/-- Truth values. -/
def bool : VType := scalar .i1

/-- Indices and sizes. -/
def index : VType := scalar .u64

/-- Addresses. -/
def ptr : VType := scalar .ptr

/-- Whether this is a vector. -/
def isVector (t : VType) : Bool := t.lanes > 1

/-- The scalars of a vector. -/
def elem (t : VType) : VType := ⟨t.kind, 0⟩

/-- A vector of these scalars. -/
def vector (t : VType) (lanes : Nat) : VType := ⟨t.kind, lanes⟩

/-- The size in bytes. -/
def size (t : VType) : Int64 :=
  if t.isVector then .ofNat t.kind.size * .ofNat t.lanes else .ofNat t.kind.size

/-- The alignment in memory: that of the scalar, and for vectors their size. -/
def align (t : VType) : Int64 := t.size

/-- The type as text. -/
def text (t : VType) : String :=
  if t.isVector then "<" ++ toString t.lanes ++ " x " ++ t.kind.name ++ ">" else t.kind.name

/-- The type with a text; the number of lanes may be one. -/
def ofText? (s : String) : Option VType :=
  match Kind.ofName? s with
  | some k => some (scalar k)
  | none =>
    match s.splitOn " " with
    | [lanes, "x", elem] => do
      let k ← Kind.ofName? (elem.dropEnd 1).toString
      let n ← (lanes.drop 1).toNat?
      if "<" ++ toString n ++ " x " ++ k.name ++ ">" = s then some ((scalar k).vector n) else none
    | _ => none

/-- The LLVM type. -/
def llvm (t : VType) : LType := if t.isVector then .vector t.lanes t.kind.llvm else t.kind.llvm

/-- Types in parentheses, separated by commas. -/
def listText (ts : List VType) : String := "(" ++ ", ".intercalate (ts.map text) ++ ")"

end VType

end Lane.Code
