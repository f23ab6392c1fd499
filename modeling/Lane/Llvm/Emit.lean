import Lane.Code.Function
import Lane.Fault
import Lane.Llvm.Print

set_option relaxedAutoImplicit false
set_option autoImplicit false

/-!
# From code to LLVM

Every label of code opens a block, and code after a jump goes to a block without a name. Variables
and stack slots are allocated in the first block, and a place inside a struct is an address a number
of bytes further.

## Main definitions

* `Lane.Llvm.EmitError`: why a module of code has no LLVM module.
* `Lane.Llvm.Emit`: computations that add instructions to a function.
* `Lane.Llvm.emitInstr`, `Lane.Llvm.emitBody`: emit code.
* `Lane.Code.Module.toLlvm`: the LLVM module of a module of code.
-/

namespace Lane.Llvm

open Lane.Code (Operand AssignKind Label Offset VType FuncDecl)

/-- Why a module of code has no LLVM module. -/
inductive EmitError where
  | fault (f : Fault)
  | rejected (r : Rejection)
  deriving DecidableEq, Repr, Inhabited

/-- The message about an error in a module with a name; a rejection has no wording of its own. -/
def EmitError.message? (name : String) : EmitError → Option String
  | .fault f => f.message?.map fun m => "emitting " ++ name ++ ": " ++ m
  | .rejected _ => none

/-- An error in a module with a name, in words. -/
def EmitError.text (name : String) : EmitError → String
  | .fault f => "emitting " ++ name ++ ": " ++ f.text
  | .rejected r => "emitting " ++ name ++ ": " ++ r.text

/-- What emitting a function reads. -/
structure EmitEnv where
  /-- The declared functions of the module by their identifiers. -/
  functions : List (String × Function)
  malloc : Function
  memcpy : Function
  /-- The function of code being emitted. -/
  code : Code.Function

/-- What emitting a function changes. -/
structure Builder where
  function : Function
  /-- The number of the block that code is added to. -/
  current : Nat
  regs : List (Nat × Value) := []
  /-- The numbers of the blocks that labels stand for. -/
  labels : List (Nat × Nat)
  deriving Repr, Inhabited

/-- Computations that add instructions to a function. -/
abbrev Emit := ReaderT EmitEnv (StateT Builder (Except EmitError))

/-- Stop because the code breaks a promise. -/
def bug {α : Type} (what : String) : Emit α := throw (.fault (.broken what))

/-- Stop because LLVM has no such instruction. -/
def reject {α : Type} (r : Rejection) : Emit α := throw (.rejected r)

/-! ## Blocks and instructions -/

/-- Change the current block. -/
def Builder.modifyBlock (b : Builder) (f : Block → Block) : Builder :=
  { b with function := { b.function with blocks := b.function.blocks.modify b.current f } }

/-- Add an instruction to the current block. -/
def instr (op : Op) : Emit Value :=
  modifyGet fun b =>
    let key := b.function.made
    let b := b.modifyBlock fun blk => { blk with instrs := blk.instrs.push ⟨key, op⟩ }
    (.result key op.type, { b with function := { b.function with made := key + 1 } })

/-- End the current block. -/
def terminate (t : Terminator) : Emit Unit :=
  modify fun b => b.modifyBlock fun blk => { blk with terminator := some t }

/-- Whether the current block has an end. -/
def isEnded : Emit Bool := do
  let b ← get
  return ((b.function.blocks[b.current]?).bind Block.terminator).isSome

/-- Add a block. -/
def newBlock (name : String) : Emit Nat :=
  modifyGet fun b =>
    (b.function.blocks.size,
      { b with function := { b.function with blocks := b.function.blocks.push { name } } })

/-- Add code to another block from now on. -/
def setBlock (n : Nat) : Emit Unit := modify fun b => { b with current := n }

/-- The block that a label stands for, added when it is first needed. -/
def blockOf (l : Label) : Emit Nat := do
  match (← get).labels.lookup l.id with
  | some n => return n
  | none =>
    let n ← newBlock l.ref
    modify fun b => { b with labels := (l.id, n) :: b.labels }
    return n

/-- Continue with the block of a label, to which the current block leads unless it has an end. -/
def enter (l : Label) : Emit Unit := do
  let n ← blockOf l
  if !(← isEnded) then terminate (.jump n)
  setBlock n

/-! ## Operands -/

/-- A scalar constant. -/
def scalarConst (c : Code.Const) : Const :=
  match c.type.kind with
  | .ptr => .null
  | .f32 => .real true c.real
  | .f64 => .real false c.real
  | k => .int k.bits c.bits.toInt64.toInt

/-- The number of lanes up to which the lanes of a constant can be listed. -/
def mostLanes : Nat := 0x100000000000

/-- A constant; a vector has the same value in every lane. -/
def constOf (c : Code.Const) : Emit Const :=
  if !c.type.isVector then return scalarConst c
  else if c.bits = 0 ∧ c.real.isZero then return .zero c.type.llvm
  else if c.type.lanes > mostLanes then reject .tooManyLanes
  else
    return .vector c.type.llvm
      (List.replicate c.type.lanes (scalarConst { c with type := c.type.elem }))

/-- The place of a variable. -/
def varPlace (v : Code.Var) : Value :=
  .named (v.name ++ ".v" ++ toString (v.id - 1)) (.ptr v.type.llvm)

/-- The place of a stack slot. -/
def slotPlace (s : Code.Slot) : Value :=
  .named (s.name ++ ".s" ++ toString (s.id - 1)) .bytePtr

/-- Store a value, which has to have the type of the place. -/
def storeTo (src dst : Value) : Emit Unit := do
  match dst.type with
  | .ptr t => if !src.type.same t then reject (.storeType src.type.text dst.type.text)
  | _ => reject (.storeType src.type.text dst.type.text)
  let _ ← instr (.store src dst)

/-- Read an operand. Variables are loaded, and slots are their addresses. -/
def value (o : Operand) : Emit Value := do
  match o with
  | .const c => return .const (← constOf c)
  | .reg r =>
    match (← get).regs.lookup r.id with
    | some v => return v
    | none => bug ((← read).code.decl.id ++ ": register " ++ o.text ++ " used before definition")
  | .var v => instr (.load v.type.llvm (varPlace v))
  | .slot s => return slotPlace s
  | .absent => bug ("unexpected operand " ++ o.text)

/-- Read operands. -/
def values : List Operand → Emit (List Value)
  | [] => return []
  | o :: os => do
    let v ← value o
    return v :: (← values os)

/-- Give an operand a value. -/
def define (o : Operand) (v : Value) : Emit Unit := do
  match o with
  | .reg r => modify fun b => { b with regs := (r.id, v) :: b.regs }
  | .var x => storeTo v (varPlace x)
  | _ => bug ("cannot assign to " ++ o.text)

/-- The type of an operand that has to be there. -/
def typeOf (o : Operand) : Emit VType :=
  match o with
  | .absent => reject .missingOperand
  | o => return o.type

/-! ## Addresses -/

/-- Whether a constant is an integer. -/
def Const.isInteger : Const → Bool
  | .int .. => true
  | _ => false

/-- Whether a constant can count bytes: an integer, integers in every lane, or all zeros. -/
def isIndex : Value → Bool
  | .const (.real ..) | .const .null => false
  | .const (.vector _ elems) => elems.all Const.isInteger
  | _ => true

/-- The number of lanes of an index; zeros in every lane count as one zero. -/
def indexLanes? : Value → Option Nat
  | .const (.zero _) => none
  | v => match v.type with
    | .vector n _ => some n
    | _ => none

/-- The type of an address moved by a number of bytes. Either may be a vector, and if both are they
have as many lanes. -/
def addressType? (src index : Value) : Option LType :=
  match src.type, indexLanes? index with
  | .ptr (.int 8), none => some .bytePtr
  | .ptr (.int 8), some n => some (.vector n .bytePtr)
  | .vector n (.ptr (.int 8)), none => some (.vector n .bytePtr)
  | .vector n (.ptr (.int 8)), some m => if m = n then some (.vector n .bytePtr) else none
  | _, _ => none

/-- An address moved by a number of bytes. -/
def moveAddress (src index : Value) : Emit Value := do
  if !isIndex index then reject .notAnAddress
  match addressType? src index with
  | some t => instr (.gep t src index)
  | none => reject .notAnAddress

/-- The address of a place at a distance from an operand. -/
def address (base : Operand) (off : Option Offset) : Emit Value := do
  let p ← value base
  if Offset.value off = 0 then return p
  moveAddress p (.const (.int 64 (Offset.value off).toInt))

/-- An address as one of values of a type. -/
def addressTo (p : Value) (t : VType) : Emit Value := instr (.bitcast p (.ptr t.llvm))

/-! ## Assignments -/

/-- The constant with all bits set. -/
def allOnes (t : VType) : Code.Const :=
  if t.kind = .i1 then .ofInt t 1 else .ofInt t (0 - 1)

/-- An arithmetic instruction by the kind of its operands. -/
def arithmetic (k : Code.Kind) (real signed unsigned : String) (x y : Value) : Emit Value :=
  instr (.binary (if k.isReal then real else if k.isSigned then signed else unsigned) x y)

/-- The type of a comparison: a truth value for each lane. -/
def compareType? (isReal : Bool) : LType → Option LType
  | .vector n _ => some (.vector n (.int 1))
  | .int _ | .ptr _ => if isReal then none else some (.int 1)
  | .float | .double => if isReal then some (.int 1) else none
  | _ => none

/-- The word of a comparison by the kind of its operands. -/
def compareWord (k : Code.Kind) (kind : AssignKind) : String :=
  let order (s : String) : String :=
    if k.isReal then "o" ++ s else if k.isSigned then "s" ++ s else "u" ++ s
  let word := match kind with
    | .eq => if k.isReal then "oeq" else "eq"
    | .ne => if k.isReal then "une" else "ne"
    | .lt => order "lt"
    | .le => order "le"
    | .gt => order "gt"
    | _ => order "ge"
  (if k.isReal then "fcmp " else "icmp ") ++ word

/-- A comparison. -/
def compare (k : Code.Kind) (kind : AssignKind) (x y : Value) : Emit Value := do
  match compareType? k.isReal x.type with
  | some t => instr (.compare (compareWord k kind) t x y)
  | none => reject .notComparable

/-- Whether values of a type can be cut down to another: a vector to one of as many lanes, and an
integer to one that has no more bits. What is no integer is not looked at. -/
def narrows : LType → LType → Bool
  | .vector m s, .vector n t => m == n && narrows s t
  | .vector .., _ => false
  | .int m, .int n => n ≤ m
  | .int _, _ => false
  | _, _ => true

/-- Cut a value down to a type. -/
def narrow (v : Value) (target : LType) : Emit Value := do
  if !narrows v.type target then reject (.notNarrower v.type.text target.text)
  instr (.cast "trunc" v target)

/-- Change the kind of a value. Truth values widen to zero or one, and those of a mask to all
ones. -/
def convert (v : Value) (source target : VType) : Emit Value := do
  let cast (word : String) : Emit Value := instr (.cast word v target.llvm)
  let (a, b) := (source.kind, target.kind)
  if a = b then return v
  if a.isReal && b.isReal then
    if a.size < b.size then cast "fpext" else cast "fptrunc"
  else if a.isReal then cast (if b.isSigned then "fptosi" else "fptoui")
  else if b.isReal then cast (if a.isSigned then "sitofp" else "uitofp")
  else if a.bits = b.bits then return v
  else if a.bits > b.bits then narrow v target.llvm
  else if (a == .i1 && source.isVector) || a.isSigned then cast "sext"
  else cast "zext"

/-- A scalar in every lane of a vector. -/
def splat (v : Value) (t : VType) : Emit Value := do
  match t.llvm with
  | .vector n e =>
    let whole : LType := .vector n e
    let one ← instr (.insertElement (.const (.undef whole)) v (.const (.int 32 0)))
    instr (.shuffle whole one (.const (.undef whole)) (.const (.zero (.vector n (.int 32)))))
  | other => reject (.notAVector other.kindName)

/-- The value of an assignment. Operands beyond those that it needs are read and not used. -/
def assignment (kind : AssignKind) (dst : Operand) (args : List Operand) : Emit Value := do
  let vs ← values args
  let source := (args.head?.map Operand.type).getD .bool
  let k := source.kind
  match kind, vs with
  | .move, x :: _ => return x
  | .add, x :: y :: _ => arithmetic k "fadd" "add" "add" x y
  | .sub, x :: y :: _ => arithmetic k "fsub" "sub" "sub" x y
  | .mul, x :: y :: _ => arithmetic k "fmul" "mul" "mul" x y
  | .div, x :: y :: _ => arithmetic k "fdiv" "sdiv" "udiv" x y
  | .rem, x :: y :: _ => arithmetic k "frem" "srem" "urem" x y
  | .and, x :: y :: _ => instr (.binary "and" x y)
  | .or, x :: y :: _ => instr (.binary "or" x y)
  | .xor, x :: y :: _ => instr (.binary "xor" x y)
  | .neg, x :: _ =>
    if k.isReal then instr (.fneg x)
    else instr (.binary "sub" (.const (← constOf (.zero source))) x)
  | .not, x :: _ => instr (.binary "xor" x (.const (← constOf (allOnes source))))
  | .convert, x :: _ => convert x source (← typeOf dst)
  | .ptrAdd, x :: y :: _ => moveAddress x y
  | .splat, x :: _ => splat x (← typeOf dst)
  | .select, c :: x :: y :: _ => instr (.select c x y)
  | .eq, x :: y :: _ | .ne, x :: y :: _ | .lt, x :: y :: _ | .le, x :: y :: _ | .gt, x :: y :: _
  | .ge, x :: y :: _ => compare k kind x y
  | _, _ => reject .missingOperand

/-! ## Calls and results -/

/-- Call a function. -/
def callFunction (f : Function) (args : List Value) : Emit Value :=
  instr (.call f.result f.name args)

/-- The type of a part of an aggregate; every part of an address is what stands there. -/
def partType? : LType → Nat → Option LType
  | .struct _ fields, i => fields[i]?
  | .ptr t, _ => some t
  | _, _ => none

/-- Give operands the parts of an aggregate, the first of which is number `i`. -/
def defineParts (v : Value) : Nat → List Operand → Emit Unit
  | _, [] => return
  | i, o :: os => do
    match partType? v.type i with
    | none => reject .notAnAggregate
    | some t =>
      define o (← instr (.extractValue t v i))
      defineParts v (i + 1) os

/-- Emit a call. Several results are returned together. -/
def emitCall (callee : FuncDecl) (ins outs : List Operand) : Emit Unit := do
  let args ← values ins
  match (← read).functions.lookup callee.id with
  | none => bug ("call to undeclared " ++ callee.id)
  | some f =>
    let v ← callFunction f args
    match outs with
    | [] => return
    | [o] => define o v
    | os => defineParts v 0 os

/-- Put operands together, the first of which is part number `i`. -/
def collect (whole : Value) : Nat → List Operand → Emit Value
  | _, [] => return whole
  | i, o :: os => do
    let v ← value o
    match partType? whole.type i with
    | none => reject .notAnAggregate
    | some t =>
      if !t.same v.type then reject .notAnAggregate
      collect (← instr (.insertValue whole v i)) (i + 1) os

/-- Hand the results back. -/
def emitResults : List Operand → Emit Unit
  | [] => terminate (.ret none)
  | [o] => do terminate (.ret (some (← value o)))
  | os => do
    let whole : Value := .const (.undef (← get).function.result)
    terminate (.ret (some (← collect whole 0 os)))

/-! ## Instructions -/

/-- Emit an instruction other than a label or the results. -/
def emitInstr : Code.Instr → Emit Unit
  | .goto l => do terminate (.jump (← blockOf l))
  | .branch c yes no => do
    let c ← value c
    let yes ← blockOf yes
    terminate (.branch c yes (← blockOf no))
  | .assign kind dst args => do define dst (← assignment kind dst args)
  | .load dst ptr o => do
    let t ← typeOf dst
    let p ← address ptr o
    let p ← addressTo p t
    define dst (← instr (.load t.llvm p))
  | .store ptr o src => do
    let t ← typeOf src
    let p ← address ptr o
    let p ← addressTo p t
    storeTo (← value src) p
  | .lea dst ptr o => do define dst (← address ptr o)
  | .alloc dst n => do
    let n ← value n
    define dst (← callFunction (← read).malloc [n])
  | .memcpy dst src n => do
    let args ← values [dst, src, n]
    let _ ← callFunction (← read).memcpy args
  | .call f ins outs => emitCall f ins outs
  | i => do
    let f := (← read).code
    bug (f.decl.id ++ ": cannot emit " ++ i.text f.params f.results)

/-- Emit instructions. Code after a jump goes to a block without a name. -/
def emitBody : List Code.Instr → Emit Unit
  | [] => return
  | i :: is => do
    match i with
    | .label l => enter l
    | .results => emitResults (← read).code.results
    | i =>
      if ← isEnded then setBlock (← newBlock "")
      emitInstr i
    emitBody is

/-- Allocate variables. -/
def allocateVars (vs : List Code.Var) : Emit Unit :=
  vs.forM fun v => do
    let name := v.name ++ ".v" ++ toString (v.id - 1)
    let _ ← instr (.alloca name v.type.llvm none v.type.size.toUInt64)

/-- Allocate stack slots. -/
def allocateSlots (ss : List Code.Slot) : Emit Unit :=
  ss.forM fun s => do
    let name := s.name ++ ".s" ++ toString (s.id - 1)
    let align := if s.align > 1 then s.align.toUInt64 else 0
    let _ ← instr (.alloca name .byte (some (.int 64 s.size.toInt)) align)

/-- Bind operands to parameters. -/
def bindParams (params : List Param) : Nat → List Operand → Emit Unit
  | _, [] => return
  | i, o :: os => do
    match params[i]? with
    | none => reject .missingOperand
    | some p =>
      define o (.param i p.type)
      bindParams params (i + 1) os

/-- Emit a function of code. -/
def emitFunction (f : Code.Function) : Emit Unit := do
  let entry ← newBlock "entry"
  setBlock entry
  modify fun b => { b with labels := [(Label.entry.id, entry)] }
  allocateVars f.vars
  allocateSlots f.slots
  bindParams (← get).function.params 0 f.params
  emitBody ((f.body.dropWhile fun i => !i.isParams).drop 1)

/-! ## Modules -/

/-- The type of what a function returns: nothing, its result, or all results together. -/
def resultType (d : FuncDecl) : LType :=
  match d.results with
  | [] => .void
  | [t] => t.llvm
  | ts => .struct "" (ts.map VType.llvm)

/-- The function that a declaration stands for, without blocks. -/
def declared (d : FuncDecl) : Function where
  name := d.id
  result := resultType d
  params := d.params.map fun t => ⟨"", t.llvm⟩

/-- The function that allocates memory. -/
def mallocDecl : Function := ⟨"malloc", .bytePtr, [⟨"size", .int 64⟩], #[], 0⟩

/-- The function that copies memory. -/
def memcpyDecl : Function :=
  ⟨"memcpy", .bytePtr, [⟨"dst", .bytePtr⟩, ⟨"src", .bytePtr⟩, ⟨"n", .int 64⟩], #[], 0⟩

/-- The function of a name among those declared, which is added if there is none. -/
def withRuntime (fs : List Function) (f : Function) : Function × List Function :=
  match fs.find? fun g => g.name == f.name with
  | some g => (g, fs)
  | none => (f, fs ++ [f])

/-- Put a changed function in the place of the one with its name. -/
def replaceFunction (fs : List Function) (f : Function) : List Function :=
  fs.map fun g => if g.name == f.name then f else g

/-- Emit functions of code. -/
def emitFunctions (malloc memcpy : Function) (declared : List (String × Function)) :
    List Code.Function → List Function → Except EmitError (List Function)
  | [], fs => return fs
  | f :: rest, fs => do
    match fs.find? fun g => g.name == f.decl.id with
    | none => throw (.fault .missing)
    | some g =>
      let env : EmitEnv := ⟨declared, malloc, memcpy, f⟩
      let (_, b) ← ((emitFunction f).run env).run ⟨g, 0, [], []⟩
      emitFunctions malloc memcpy declared rest (replaceFunction fs b.function)

end Lane.Llvm

namespace Lane.Code.Module

open Lane.Llvm

/-- The LLVM module of a module of code. -/
def toLlvm (m : Module) : Except EmitError Llvm.Module := do
  let fs := m.registry.decls.map declared
  let names := m.registry.decls.map fun d => (d.id, declared d)
  let (malloc, fs) := withRuntime fs mallocDecl
  let (memcpy, fs) := withRuntime fs memcpyDecl
  let functions ← emitFunctions malloc memcpy names m.functions fs
  return { name := m.name, structs := m.structs.map Struct.llvm, functions }

/-- The LLVM text of a module of code. -/
def llvmText (m : Module) : Except EmitError String := do
  let llvm ← m.toLlvm
  match llvm.print with
  | .ok s => return s
  | .error r => throw (.rejected r)

end Lane.Code.Module
