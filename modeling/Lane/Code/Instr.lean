import Lane.Code.Layout
import Lane.Number.Decimal

set_option relaxedAutoImplicit false
set_option autoImplicit false

/-!
# Instructions

## Main definitions

* `Lane.Code.Operand`: constants, registers, variables and stack slots.
* `Lane.Code.AssignKind`: the computations of an assignment.
* `Lane.Code.FuncDecl`: what a call refers to.
* `Lane.Code.Instr`: instructions.
-/

namespace Lane.Code

/-- A constant. Integers and truth values are bits, reals are numbers of double precision. -/
structure Const where
  type : VType
  bits : UInt64 := 0
  real : Binary64 := .zero
  deriving DecidableEq, Repr, Inhabited

namespace Const

/-- A truth value. -/
def ofBool (b : Bool) : Const := { type := .bool, bits := if b then 1 else 0 }

/-- An integer. -/
def ofInt (t : VType) (n : UInt64) : Const := { type := t, bits := n }

/-- A real. -/
def ofReal (t : VType) (x : Binary64) : Const := { type := t, real := x }

/-- Zero, or no address. -/
def zero (t : VType) : Const := { type := t }

/-- The value as text: signed integers with a sign, all others as 64 bits without one. -/
def valueText (c : Const) : String :=
  if c.type.kind.isReal then c.real.general
  else if c.type.kind = .ptr ∧ c.bits = 0 then "null"
  else if c.type.kind.isSigned then toString c.bits.toInt64.toInt
  else toString c.bits.toNat

/-- The constant as text. -/
def text (c : Const) : String :=
  c.type.text ++ " " ++
    if c.type.isVector then "splat(" ++ c.valueText ++ ")" else c.valueText

/-- The bits of the real value in the format of its type. -/
def realBits (c : Const) : Nat :=
  if c.type.kind = .f32 then
    (if c.real.isNegative then BinaryFormat.single.signWord else 0) + c.real.toSingle
  else c.real.bits.toNat

end Const

/-- A register, which is assigned once. -/
structure Reg where
  id : Nat
  type : VType
  deriving DecidableEq, Repr, Inhabited

/-- A variable of machine type, which may be assigned many times. -/
structure Var where
  id : Nat
  name : String
  type : VType
  deriving DecidableEq, Repr, Inhabited

/-- Memory on the stack of a function, perhaps laid out as a struct. -/
structure Slot where
  id : Nat
  name : String
  size : Int64
  align : Int64
  struct : Option String := none
  deriving DecidableEq, Repr, Inhabited

/-- What instructions work on. A slot stands for its address. -/
inductive Operand where
  | const (c : Const)
  | reg (r : Reg)
  | var (v : Var)
  | slot (s : Slot)
  /-- No operand where one should be. -/
  | absent
  deriving DecidableEq, Repr, Inhabited

namespace Operand

/-- The type of an operand. -/
def type : Operand → VType
  | .const c => c.type
  | .reg r => r.type
  | .var v => v.type
  | .slot _ | .absent => .ptr

/-- An operand as text. -/
def text : Operand → String
  | .const c => c.text
  | .reg r => "%r" ++ toString r.id
  | .var v => "$" ++ v.name ++ "." ++ toString v.id
  | .slot s => "&" ++ s.name ++ "." ++ toString s.id
  | .absent => "%!s(<nil>)"

/-- Operands separated by commas. -/
def listText (os : List Operand) : String := ", ".intercalate (os.map text)

/-- Whether the operand is a constant. -/
def isConst : Operand → Bool
  | .const _ => true
  | _ => false

end Operand

/-- The computations of an assignment. -/
inductive AssignKind where
  | move
  | add
  | sub
  | mul
  | div
  | rem
  | and
  | or
  | xor
  | neg
  | not
  | eq
  | ne
  | lt
  | le
  | gt
  | ge
  /-- The argument in the machine scalar of the destination. -/
  | convert
  /-- An address moved by a number of bytes. -/
  | ptrAdd
  /-- A scalar in every lane of a vector. -/
  | splat
  /-- The second argument where the first is set, and the third elsewhere. -/
  | select
  deriving DecidableEq, Repr, Inhabited

namespace AssignKind

/-- All computations. -/
def all : List AssignKind :=
  [.move, .add, .sub, .mul, .div, .rem, .and, .or, .xor, .neg, .not, .eq, .ne, .lt, .le, .gt, .ge,
    .convert, .ptrAdd, .splat, .select]

/-- The word of a computation. -/
def name : AssignKind → String
  | .move => "move"
  | .add => "add"
  | .sub => "sub"
  | .mul => "mul"
  | .div => "div"
  | .rem => "rem"
  | .and => "and"
  | .or => "or"
  | .xor => "xor"
  | .neg => "neg"
  | .not => "not"
  | .eq => "eq"
  | .ne => "ne"
  | .lt => "lt"
  | .le => "le"
  | .gt => "gt"
  | .ge => "ge"
  | .convert => "convert"
  | .ptrAdd => "ptradd"
  | .splat => "splat"
  | .select => "select"

/-- The computation with a word. -/
def ofName? (s : String) : Option AssignKind := all.find? fun k => k.name == s

/-- Whether the result is a truth value. -/
def isCompare : AssignKind → Bool
  | .eq | .ne | .lt | .le | .gt | .ge => true
  | _ => false

end AssignKind

/-- What a call refers to: an identifier, and the types of parameters and results. -/
structure FuncDecl where
  id : String
  params : List VType := []
  results : List VType := []
  /-- Whether the body is empty, so that calls may be left out. -/
  isTrivial : Bool := false
  isForeign : Bool := false
  deriving DecidableEq, Repr, Inhabited

/-- A declaration as text. -/
def FuncDecl.text (d : FuncDecl) : String :=
  d.id ++ VType.listText d.params ++
    if d.results.isEmpty then "" else " -> " ++ VType.listText d.results

/-- A label of a function, told from the others by its number. -/
structure Label where
  id : Nat
  hint : String
  deriving DecidableEq, Repr, Inhabited

namespace Label

/-- The label at which a function starts. -/
def entry : Label := ⟨1, "entry"⟩

/-- The label at which a function ends. -/
def epilogue : Label := ⟨2, "epilogue"⟩

/-- How a jump names the label. -/
def ref (l : Label) : String := l.hint ++ "." ++ toString l.id

/-- The line of the label. -/
def text (l : Label) : String := l.ref ++ ":"

end Label

/-- Instructions. -/
inductive Instr where
  | label (l : Label)
  | goto (target : Label)
  | branch (cond : Operand) (yes no : Label)
  | assign (kind : AssignKind) (dst : Operand) (args : List Operand)
  | load (dst ptr : Operand) (offset : Option Offset)
  | store (ptr : Operand) (offset : Option Offset) (src : Operand)
  /-- The address of a place inside a struct. -/
  | lea (dst ptr : Operand) (offset : Option Offset)
  | alloc (dst size : Operand)
  | memcpy (dst src size : Operand)
  | call (callee : FuncDecl) (ins outs : List Operand)
  /-- The parameters are bound here. -/
  | params
  /-- The results are handed back here. -/
  | results
  deriving Repr, Inhabited

namespace Instr

/-- The word of an instruction. -/
def name : Instr → String
  | .label _ => "label"
  | .goto _ => "goto"
  | .branch .. => "branch"
  | .assign .. => "assign"
  | .load .. => "load"
  | .store .. => "store"
  | .lea .. => "lea"
  | .alloc .. => "alloc"
  | .memcpy .. => "memcpy"
  | .call .. => "call"
  | .params => "params"
  | .results => "results"

/-- The operands that an instruction lists, in a function with these parameters and results. -/
def listed (ps rs : List Operand) : Instr → List Operand
  | .assign _ _ args => args
  | .call _ ins outs => outs ++ ins
  | .params => ps
  | .results => rs
  | _ => []

/-- What stands for an instruction that cannot be written because a listed operand is absent. -/
def unwritable : String :=
  "%!s(PANIC=String method: runtime error: invalid memory address or nil pointer dereference)"

/-- An instruction whose listed operands are all there, as text, in a function with these parameters
and results. -/
def body (ps rs : List Operand) : Instr → String
  | .label l => l.text
  | .goto l => "goto " ++ l.ref
  | .branch c t f => "branch " ++ c.text ++ ", " ++ t.ref ++ ", " ++ f.ref
  | .assign k d args => d.text ++ " = " ++ k.name ++ " " ++ Operand.listText args
  | .load d p o => d.text ++ " = load " ++ d.type.text ++ " [" ++ p.text ++ Offset.textOf o ++ "]"
  | .store p o s => "store [" ++ p.text ++ Offset.textOf o ++ "], " ++ s.text
  | .lea d p o => d.text ++ " = lea [" ++ p.text ++ Offset.textOf o ++ "]"
  | .alloc d n => d.text ++ " = alloc " ++ n.text
  | .memcpy d s n => "memcpy " ++ d.text ++ ", " ++ s.text ++ ", " ++ n.text
  | .call f ins outs =>
    (if outs.isEmpty then "" else Operand.listText outs ++ " = ") ++ "call " ++ f.id ++ "(" ++
      Operand.listText ins ++ ")"
  | .params => "params " ++ Operand.listText ps
  | .results => "results " ++ Operand.listText rs

/-- An instruction as text, in a function with these parameters and results. -/
def text (ps rs : List Operand) (i : Instr) : String :=
  if (i.listed ps rs).contains .absent then unwritable else i.body ps rs

/-- Whether the instruction is a label. -/
def isLabel : Instr → Bool
  | .label _ => true
  | _ => false

/-- Whether the instruction is this label. -/
def isLabelOf (l : Label) : Instr → Bool
  | .label m => m.id == l.id
  | _ => false

/-- Whether the instruction binds the parameters. -/
def isParams : Instr → Bool
  | .params => true
  | _ => false

/-- Whether the instruction hands the results back. -/
def isResults : Instr → Bool
  | .results => true
  | _ => false

/-- The labels that an instruction may jump to. -/
def targets : Instr → List Label
  | .goto l => [l]
  | .branch _ t f => [t, f]
  | _ => []

/-- The destination of an instruction other than a call. -/
def dst? : Instr → Option Operand
  | .assign _ d _ | .load d _ _ | .lea d _ _ | .alloc d _ => some d
  | _ => none

end Instr

end Lane.Code
