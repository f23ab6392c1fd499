import Lane.Analysis.Elaborated
import Lane.Fault
import Lane.Lowering.Layout
import Lane.Typing.Resolve

set_option relaxedAutoImplicit false
set_option autoImplicit false

/-!
# Building code

The state of lowering one function: the instructions so far, the numbers used for registers, labels,
variables and slots, and where each local lives. Atomic locals are variables; all others live in
memory.

## Main definitions

* `Lane.Lowering.Env`, `Lane.Lowering.Builder`: what lowering reads and changes.
* `Lane.Lowering.Lower`: computations that emit code.
* `Lane.Lowering.Place`: a variable, or a place in memory.
* `Lane.Lowering.fetch`, `Lane.Lowering.put`, `Lane.Lowering.address`: use of places.
-/

namespace Lane.Lowering

open Lane.Code

/-- What lowering a function reads. -/
structure Env where
  program : Program
  layouts : Layouts
  /-- The declarations of member functions, by class and place in the class. -/
  decls : List ((Nat × Nat) × FuncDecl)
  foreigns : List (String × FuncDecl)
  /-- The number of instances that packed code works on. -/
  width : Nat
  /-- The function being lowered. -/
  current : FuncDecl

/-- Where a local lives. -/
inductive Storage where
  | var (v : Var)
  | memory (addr : Operand)
  deriving DecidableEq, Repr, Inhabited

/-- What lowering a function changes. -/
structure Builder where
  code : List Instr := []
  regs : Nat := 0
  labels : Nat := 2
  vars : List Var := []
  slots : List Slot := []
  locals : List (Nat × Storage) := []
  deriving Repr, Inhabited

/-- Computations that emit code. -/
abbrev Lower := ReaderT Env (StateT Builder Checked)

/-- Stop because the analysis broke a promise; the message names the function. -/
def bug {α : Type} (what : String) : Lower α := do
  throw (.broken ((← read).current.id ++ ": " ++ what))

/-- The value that should be there. -/
def need {α : Type} : Option α → Lower α
  | some a => pure a
  | none => throw .missing

/-! ## Fresh names and instructions -/

/-- Emit an instruction. -/
def emit (i : Instr) : Lower Unit := modify fun b => { b with code := b.code ++ [i] }

/-- A new register. -/
def newReg (t : VType) : Lower Operand :=
  modifyGet fun b => (.reg ⟨b.regs + 1, t⟩, { b with regs := b.regs + 1 })

/-- A new label, not part of the code yet. -/
def newLabel (hint : String) : Lower Label :=
  modifyGet fun b => (⟨b.labels + 1, hint⟩, { b with labels := b.labels + 1 })

/-- A new variable. -/
def newVar (name : String) (t : VType) : Lower Var :=
  modifyGet fun b =>
    let v : Var := ⟨b.vars.length + 1, name, t⟩
    (v, { b with vars := b.vars ++ [v] })

/-- A new stack slot. -/
def newSlot (name : String) (size align : Int64) (struct : Option String) : Lower Operand :=
  modifyGet fun b =>
    let s : Slot := ⟨b.slots.length + 1, name, size, align, struct⟩
    (.slot s, { b with slots := b.slots ++ [s] })

/-- Emit an assignment to a new register. -/
def compute (kind : AssignKind) (t : VType) (args : List Operand) : Lower Operand := do
  let r ← newReg t
  emit (.assign kind r args)
  return r

/-! ## Layouts -/

/-- The layout entry of a member variable. -/
def memberOf (v : MemberVar) : Lower StructMember := do
  match (← read).layouts.struct? v.cls with
  | none =>
    throw (.broken ("member " ++ v.cls.name ++ "." ++ v.name ++ " of a class without layout"))
  | some s => need (s.member? v.name)

/-- The size and alignment of values of a type. -/
def sizeOf (t : Ty) : Lower (Int64 × Int64) := do
  match t with
  | .cls _ c =>
    match (← read).layouts.struct? c with
    | some s => return (s.size, s.align)
    | none => throw (.broken ("size of " ++ c.name ++ " without layout"))
  | .container .. => return (headerSize, headerAlign)
  | t => return (.ofNat t.atomicSize, .ofNat t.atomicSize)

/-- A new stack slot for a value of a type. -/
def slotFor (name : String) (t : Ty) : Lower Operand := do
  let (size, align) ← sizeOf t
  let layouts := (← read).layouts
  let struct := match t with
    | .cls _ c => (layouts.struct? c).map Struct.name
    | _ => none
  newSlot name size align struct

/-- A new stack slot for a value without a name. -/
def temp (t : Ty) : Lower Operand := slotFor "tmp" t

/-! ## Locals -/

/-- Where a local lives. -/
def storageOf (l : Local) : Lower Storage := do
  match (← get).locals.lookup l.id with
  | some s => return s
  | none => bug ("no storage for '" ++ l.name ++ "'")

/-- Say where a local lives. -/
def setStorage (id : Nat) (s : Storage) : Lower Unit :=
  modify fun b => { b with locals := (id, s) :: b.locals }

/-- Allocate storage for a declared local, unless it has some. -/
def bindLocal (l : Local) : Lower Storage := do
  match (← get).locals.lookup l.id with
  | some s => return s
  | none =>
    let s ← if l.type.isAtomic then pure (.var (← newVar l.name l.type.code))
      else pure (.memory (← slotFor l.name l.type))
    setStorage l.id s
    return s

/-- Lower statements whose locals are not seen after them. -/
def inBlock (body : Lower Unit) : Lower Unit := do
  let outer := (← get).locals
  body
  modify fun b => { b with locals := outer }

/-! ## Places -/

/-- A variable, or a place in memory at a distance from a base address. -/
inductive Place where
  | var (v : Var) (type : Ty)
  | memory (base : Operand) (offset : Option Offset) (type : Ty)
  deriving Repr, Inhabited

namespace Place

/-- The type of the value at a place. -/
def type : Place → Ty
  | .var _ t | .memory _ _ t => t

/-- The base address of a place; a variable has none. -/
def base : Place → Operand
  | .var _ _ => .absent
  | .memory b _ _ => b

/-- The distance of a place from its base. -/
def offset? : Place → Option Offset
  | .var _ _ => none
  | .memory _ o _ => o

/-- A member of the value at a place. -/
def field (p : Place) (m : StructMember) (t : Ty) : Place :=
  .memory p.base (some (Offset.step p.offset? m)) t

/-- The place of a local. -/
def ofStorage (t : Ty) : Storage → Place
  | .var v => .var v t
  | .memory addr => .memory addr none t

end Place

/-- The address of a place in memory. -/
def address (p : Place) : Lower Operand := do
  match p with
  | .var v _ => bug ("address of variable " ++ (Operand.var v).text)
  | .memory base off _ =>
    if Offset.value off = 0 then return base
    let r ← newReg .ptr
    emit (.lea r base off)
    return r

/-- The value at a place; values that are not atomic are read by address. -/
def fetch (p : Place) : Lower Operand := do
  match p with
  | .var v _ => return .var v
  | .memory base off t =>
    if !t.isAtomic then address p
    else
      let r ← newReg t.code
      emit (.load r base off)
      return r

/-- Put a value at a place. -/
def put (p : Place) (src : Operand) : Lower Unit :=
  match p with
  | .var v _ => emit (.assign .move (.var v) [src])
  | .memory base off _ => emit (.store base off src)

/-- The value of a header field of the container at a place. -/
def loadField (p : Place) (m : StructMember) : Lower Operand := do
  let r ← newReg (m.type?.getD .ptr)
  emit (.load r p.base (some (Offset.step p.offset? m)))
  return r

/-- Put a value in a header field of the container at a place. -/
def storeField (p : Place) (m : StructMember) (src : Operand) : Lower Unit :=
  emit (.store p.base (some (Offset.step p.offset? m)) src)

/-! ## Containers -/

/-- Make the container at a place empty. -/
def emptyContainer (dst : Place) : Lower Unit := do
  storeField dst .headerData (.const (.zero .ptr))
  storeField dst .headerLen (.const (.zero .index))

/-- The number of bytes of `n` elements. The elements of a `simd` container are rounded up to a
multiple of the width: `(n + W - 1) & ~(W - 1)`. -/
def byteSize (kind : SeqKind) (inner : Ty) (n : Operand) : Lower Operand := do
  let w := UInt64.ofNat (← read).width
  let count ← match kind with
    | .simd => do
      let sum ← compute .add .index [n, .const (.ofInt .index (w - 1))]
      compute .and .index [sum, .const (.ofInt .index (~~~(w - 1)))]
    | .array => pure n
  let (size, _) ← sizeOf inner
  if size = 1 then return count
  compute .mul .index [count, .const (.ofInt .index size.toUInt64)]

/-- Allocate `n` elements for the container at a place. -/
def allocContainer (dst : Place) (n : Operand) : Lower Unit := do
  match dst.type with
  | .container _ kind inner =>
    let data ← newReg .ptr
    let bytes ← byteSize kind inner n
    emit (.alloc data bytes)
    storeField dst .headerData data
    storeField dst .headerLen n
  | _ => throw .missing

/-- Give the container at a place its own copy of the elements of another. -/
def copyContainer (dst src : Place) : Lower Unit := do
  match dst.type with
  | .container _ kind inner =>
    let data ← loadField src .headerData
    let n ← loadField src .headerLen
    let bytes ← byteSize kind inner n
    let copy ← newReg .ptr
    emit (.alloc copy bytes)
    emit (.memcpy copy data bytes)
    storeField dst .headerData copy
    storeField dst .headerLen n
  | _ => throw .missing

/-! ## Calls of creates and assigns -/

/-- The declaration of a member function. -/
def declOf (f : MemberFunction) : Lower FuncDecl := do
  match (← read).decls.lookup (f.cls.id, f.index) with
  | some d => return d
  | none => bug ("call to " ++ f.qualifiedName ++ " without declaration")

/-- Call a create or assign, unless it has nothing to do. -/
def invoke (f : MemberFunction) (self : Operand) (args : List Operand) : Lower Unit := do
  let d ← declOf f
  if !d.isTrivial then emit (.call d (self :: args) [])

/-- The addresses of several places. -/
def addresses : List Place → Lower (List Operand)
  | [] => return []
  | p :: ps => do
    let a ← address p
    return a :: (← addresses ps)

/-- Call a create or assign on places, unless it has nothing to do. -/
def invokeAt (f : MemberFunction) (self : Place) (args : List Place) : Lower Unit := do
  let d ← declOf f
  if !d.isTrivial then
    let args ← addresses args
    let self ← address self
    emit (.call d (self :: args) [])

/-- Select a create or assign of a class. -/
def select (c : ClassRef) (kind : FuncKind) (args : List Ty) : Lower (Option MemberFunction) := do
  return (((← read).program.classOf c).resolve kind.name args [kind]).toOption

/-- Construct the value at a place as a copy of another. -/
def copyValue (dst src : Place) : Lower Unit := do
  match dst.type with
  | .container .. => copyContainer dst src
  | .cls _ c =>
    match ← select c .create [.cls .cref c] with
    | some f => invokeAt f dst [src]
    | none => return
  | _ => put dst (← fetch src)

/-- Construct the value at a place without arguments. -/
def defaultValue (dst : Place) : Lower Unit := do
  match dst.type with
  | .container .. => emptyContainer dst
  | .cls _ c =>
    match ← select c .create [] with
    | some f => invokeAt f dst []
    | none => return
  | t => put dst (.const (.zero t.code))

/-- Assign a copy of another value to the value at a place. -/
def assignValue (dst src : Place) : Lower Unit := do
  match dst.type with
  | .cls _ c =>
    match ← select c .assign [.cls .cref c] with
    | some f => invokeAt f dst [src]
    | none => return
  | _ => copyValue dst src

end Lane.Lowering
