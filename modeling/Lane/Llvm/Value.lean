import Lane.Llvm.Number
import Lane.Llvm.Type

set_option relaxedAutoImplicit false
set_option autoImplicit false

/-!
# LLVM modules

Functions are made of blocks, and blocks of instructions with a terminator at the end. Instructions
without a name are numbered when a function is printed; until then they are told apart by the order
in which they were made.

## Main definitions

* `Lane.Llvm.Const`, `Lane.Llvm.Value`: what instructions work on.
* `Lane.Llvm.Op`, `Lane.Llvm.Instr`, `Lane.Llvm.Terminator`: instructions.
* `Lane.Llvm.Block`, `Lane.Llvm.Function`, `Lane.Llvm.Module`: blocks, functions and modules.
-/

namespace Lane.Llvm

/-- Constants. -/
inductive Const where
  | int (bits : Nat) (x : Int)
  | real (isSingle : Bool) (x : Binary64)
  | null
  | zero (type : LType)
  | undef (type : LType)
  | vector (type : LType) (elems : List Const)
  deriving Repr, Inhabited

namespace Const

/-- The type of a constant. -/
def type : Const → LType
  | .int n _ => .int n
  | .real isSingle _ => if isSingle then .float else .double
  | .null => .bytePtr
  | .zero t | .undef t | .vector t _ => t

mutual

/-- A constant as text, without its type; the value of a truth value that is neither zero nor one
has none and is given instead. -/
def ident : Const → Except Int String
  | .int n x =>
    if n = 1 then
      if x = 0 then .ok "false" else if x = 1 then .ok "true" else .error x
    else .ok (integerText x)
  | .real isSingle x => .ok (realText isSingle x)
  | .null => .ok "null"
  | .zero _ => .ok "zeroinitializer"
  | .undef _ => .ok "undef"
  | .vector _ elems => do
    let texts ← elemTexts elems
    return "<" ++ ", ".intercalate texts ++ ">"

/-- The elements of a vector as texts, with their types. -/
def elemTexts : List Const → Except Int (List String)
  | [] => return []
  | c :: cs => do
    let s ← ident c
    return (c.type.text ++ " " ++ s) :: (← elemTexts cs)

end

end Const

/-- What instructions work on. -/
inductive Value where
  | const (c : Const)
  | param (index : Nat) (type : LType)
  /-- A stack slot by its name. -/
  | named (name : String) (type : LType)
  /-- The result of an instruction, by the order in which instructions were made. -/
  | result (key : Nat) (type : LType)
  deriving Repr, Inhabited

/-- The type of a value. -/
def Value.type : Value → LType
  | .const c => c.type
  | .param _ t | .named _ t | .result _ t => t

/-- What instructions do. Jumps and blocks are given by the numbers of blocks. -/
inductive Op where
  /-- Memory on the stack, with an alignment unless that is zero. -/
  | alloca (name : String) (elem : LType) (count : Option Const) (align : UInt64)
  | load (elem : LType) (src : Value)
  | store (src dst : Value)
  | bitcast (src : Value) (target : LType)
  | gep (type : LType) (src index : Value)
  | binary (word : String) (x y : Value)
  | fneg (x : Value)
  /-- A comparison, with the type of its result. -/
  | compare (word : String) (type : LType) (x y : Value)
  | cast (word : String) (x : Value) (target : LType)
  | select (cond x y : Value)
  | insertElement (x elem index : Value)
  | shuffle (type : LType) (x y mask : Value)
  | insertValue (x elem : Value) (index : Nat)
  | extractValue (type : LType) (x : Value) (index : Nat)
  | call (type : LType) (callee : String) (args : List Value)
  deriving Repr, Inhabited

/-- The type of the result of an instruction. -/
def Op.type : Op → LType
  | .alloca _ t _ _ => .ptr t
  | .load t _ | .bitcast _ t | .gep t _ _ | .compare _ t _ _ | .cast _ _ t | .shuffle t _ _ _
  | .extractValue t _ _ | .call t _ _ => t
  | .store _ _ => .void
  | .binary _ x _ | .fneg x | .select _ x _ | .insertElement x _ _ | .insertValue x _ _ => x.type

/-- An instruction, with its place in the order in which they were made. -/
structure Instr where
  key : Nat
  op : Op
  deriving Repr, Inhabited

/-- Whether an instruction is numbered: it has a result and no name. -/
def Instr.isNumbered (i : Instr) : Bool :=
  match i.op with
  | .alloca .. => false
  | op => !op.type.same .void

/-- The end of a block. -/
inductive Terminator where
  | jump (target : Nat)
  | branch (cond : Value) (yes no : Nat)
  | ret (value : Option Value)
  deriving Repr, Inhabited

/-- A block; without a name it is numbered. -/
structure Block where
  name : String
  instrs : Array Instr := #[]
  terminator : Option Terminator := none
  deriving Repr, Inhabited

/-- A parameter; without a name it is numbered. -/
structure Param where
  name : String
  type : LType
  deriving Repr, Inhabited

/-- A function; without blocks it is declared only. -/
structure Function where
  name : String
  result : LType
  params : List Param
  blocks : Array Block := #[]
  /-- The number of instructions made so far. -/
  made : Nat := 0
  deriving Repr, Inhabited

/-- A module. -/
structure Module where
  name : String
  structs : List LType := []
  functions : List Function := []
  deriving Repr, Inhabited

end Lane.Llvm
