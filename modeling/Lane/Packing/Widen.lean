import Lane.Fault
import Lane.Packing.Lanes

set_option relaxedAutoImplicit false
set_option autoImplicit false

/-!
# Packed functions

The packed version of a function has the instructions of the scalar one, on operands of the types
that their lanes ask for. Shared values are spread over a vector where lanes differ, and truth
values in packed memory are masks. Code that would do different things in different lanes has no
packed version.

## Main definitions

* `Lane.Packing.Obstacle`: why a function has no packed version.
* `Lane.Packing.Widen`: computations that emit packed code.
* `Lane.Packing.instr`: the packed code of an instruction.
* `Lane.Packing.packFunction`: the packed version of a function.
-/

namespace Lane.Packing

open Lane.Code

/-- Why a function has no packed version. -/
inductive Obstacle where
  | varyingBranch
  | heap
  | varyingAddress
  | sharedStore
  | sharedMember (name : String)
  | scalarCall (callee : String)
  | argument (place : Nat) (callee : String) (is : LaneKind) (packed : String) (wants : LaneKind)
  | access (offset : String)
  deriving DecidableEq, Repr, Inhabited

/-- The words for an obstacle. -/
def Obstacle.message : Obstacle → String
  | .varyingBranch => "branch on a lane-varying condition"
  | .heap => "allocates heap memory"
  | .varyingAddress => "address depends on a lane-varying value"
  | .sharedStore => "lane-varying value stored to shared memory"
  | .sharedMember name => "lane-varying value stored to shared member '" ++ name ++ "'"
  | .scalarCall callee => "call to " ++ callee ++ ", which has no packed version"
  | .argument place callee is packed wants =>
    "argument " ++ toString place ++ " of " ++ callee ++ " is " ++ is.name ++ ", " ++ packed ++
      " expects it " ++ wants.name
  | .access offset => "access " ++ offset ++ " is not part of a packed layout"

/-- Why packing stops: an obstacle, or a fault of the compiler. -/
inductive Stop where
  | obstacle (o : Obstacle)
  | fault (f : Fault)
  deriving DecidableEq, Repr, Inhabited

/-- What packing a function reads. -/
structure WidenEnv extends PackEnv where
  lanes : Lanes

/-- What packing a function changes. -/
structure WidenState where
  code : List Instr := []
  regs : Nat := 0
  labelCount : Nat := 2
  vars : List Var := []
  slots : List Slot := []
  /-- The packed counterparts of operands. -/
  operands : List (Operand × Operand) := []
  /-- The packed counterparts of labels. -/
  labels : List (Label × Label) := [(.entry, .entry), (.epilogue, .epilogue)]
  deriving Repr, Inhabited

/-- Computations that emit packed code. -/
abbrev Widen := ReaderT WidenEnv (StateT WidenState (Except Stop))

/-- Stop at an obstacle. -/
def refuse {α : Type} (o : Obstacle) : Widen α := throw (.obstacle o)

/-- Emit an instruction. -/
def emit (i : Instr) : Widen Unit := modify fun s => { s with code := s.code ++ [i] }

/-- A new register. -/
def newReg (t : VType) : Widen Operand :=
  modifyGet fun s => (.reg ⟨s.regs + 1, t⟩, { s with regs := s.regs + 1 })

/-- A new variable. -/
def newVar (name : String) (t : VType) : Widen Operand :=
  modifyGet fun s =>
    let v : Var := ⟨s.vars.length + 1, name, t⟩
    (.var v, { s with vars := s.vars ++ [v] })

/-- A new stack slot. -/
def newSlot (name : String) (size align : Int64) (struct : Option String) : Widen Operand :=
  modifyGet fun s =>
    let slot : Slot := ⟨s.slots.length + 1, name, size, align, struct⟩
    (.slot slot, { s with slots := s.slots ++ [slot] })

/-- The lane kind of an operand of the scalar function. -/
def laneOf (o : Operand) : Widen LaneKind := do return (← read).lanes.get o

/-- The packed counterpart of a slot: the packed struct, or one value for each instance. -/
def packSlot (x : Slot) : Widen Operand := do
  let env ← read
  if env.lanes.get (.slot x) = .packed then
    match x.struct with
    | some name =>
      match env.layouts.byName.lookup name with
      | some s => newSlot x.name s.size s.align (some s.name)
      | none => throw (.fault .missing)
    | none =>
      let size := x.size * .ofNat env.width
      newSlot x.name size size none
  else newSlot x.name x.size x.align x.struct

/-- The packed counterpart of an operand that has none yet. -/
def packOperand (o : Operand) : Widen Operand := do
  let env ← read
  let laneType (t : VType) : VType := (env.lanes.get o).type env.width t
  match o with
  | .const _ => return o
  | .reg r => newReg (laneType r.type)
  | .var v => newVar v.name (laneType v.type)
  | .slot s => packSlot s
  | .absent => throw (.fault (.broken ("unexpected operand " ++ o.text)))

/-- The packed counterpart of an operand, made when it is first used. -/
def operand (o : Operand) : Widen Operand := do
  match (← get).operands.lookup o with
  | some n => return n
  | none =>
    let n ← packOperand o
    modify fun s => { s with operands := (o, n) :: s.operands }
    return n

/-- The packed counterparts of operands. -/
def operands : List Operand → Widen (List Operand)
  | [] => return []
  | o :: os => do
    let n ← operand o
    return n :: (← operands os)

/-- The packed counterpart of an operand as a vector; a shared value is spread over all lanes. -/
def vector (o : Operand) : Widen Operand := do
  let n ← operand o
  if n.type.isVector then return n
  let r ← newReg (n.type.vector (← read).width)
  emit (.assign .splat r [n])
  return r

/-- The packed counterparts of operands as vectors. -/
def vectors : List Operand → Widen (List Operand)
  | [] => return []
  | o :: os => do
    let n ← vector o
    return n :: (← vectors os)

/-- The packed counterpart of a label, made when it is first used. -/
def label (l : Label) : Widen Label := do
  match (← get).labels.lookup l with
  | some n => return n
  | none =>
    modifyGet fun s =>
      let n : Label := ⟨s.labelCount + 1, l.hint⟩
      (n, { s with labelCount := s.labelCount + 1, labels := (l, n) :: s.labels })

/-- The counterpart of a path in the packed layout, and the last member on it. -/
def packedOffset (o : Option Offset) : Widen (Offset × PackedMember) := do
  match (← read).layouts.offset? o with
  | some r => return r
  | none => refuse (.access (Offset.textOf o))

/-! ## Instructions -/

/-- The packed code of an assignment. -/
def assign (kind : AssignKind) (dst : Operand) (args : List Operand) : Widen Unit := do
  let lanes := (← read).lanes
  if kind == .ptrAdd && args.any fun a => lanes.get a == .varying then refuse .varyingAddress
  let dst ← operand dst
  let args ← if dst.type.isVector then vectors args else operands args
  emit (.assign kind dst args)

/-- The packed code of a load. Masks become truth values. -/
def load (dst ptr : Operand) (o : Option Offset) : Widen Unit := do
  if (← laneOf ptr) ≠ .packed ∨ Offset.isTrivial o then
    let dst ← operand dst
    emit (.load dst (← operand ptr) o)
  else
    let (off, last) ← packedOffset o
    if last.isMask then
      let t := (last.member.type?).getD .bool
      let raw ← newReg t
      emit (.load raw (← operand ptr) (some off))
      emit (.assign .ne (← operand dst) [raw, .const (.zero t)])
    else
      let dst ← operand dst
      emit (.load dst (← operand ptr) (some off))

/-- The packed code of a store. Truth values become masks. -/
def store (ptr : Operand) (o : Option Offset) (src : Operand) : Widen Unit := do
  if (← laneOf ptr) ≠ .packed then
    if (← laneOf src) = .varying then refuse .sharedStore
    let ptr ← operand ptr
    emit (.store ptr o (← operand src))
  else if Offset.isTrivial o then
    let ptr ← operand ptr
    emit (.store ptr none (← vector src))
  else
    let (off, last) ← packedOffset o
    if last.isMask then
      let raw ← newReg ((last.member.type?).getD .bool)
      emit (.assign .convert raw [← vector src])
      emit (.store (← operand ptr) (some off) raw)
    else if last.member.isVector then
      let ptr ← operand ptr
      emit (.store ptr (some off) (← vector src))
    else
      if (← laneOf src) = .varying then refuse (.sharedMember last.member.name)
      let ptr ← operand ptr
      emit (.store ptr (some off) (← operand src))

/-- The arguments of a call to a packed function, which have to be as it expects them. The first is
number `place`. -/
def packedArguments (callee : String) (d : DeclLanes) :
    Nat → List LaneKind → List Operand → Widen (List Operand)
  | _, _, [] => return []
  | _, [], _ :: _ => throw (.fault .missing)
  | place, want :: wants, a :: as => do
    let is ← laneOf a
    let n ← if want = .varying then vector a
      else if want ≠ is then refuse (.argument place callee is d.decl.id want)
      else operand a
    return n :: (← packedArguments callee d (place + 1) wants as)

/-- The packed code of a call. A function without packed version may be called with shared arguments
only. -/
def call (callee : FuncDecl) (ins outs : List Operand) : Widen Unit := do
  let env ← read
  match env.packed? callee with
  | none =>
    if ins.any fun a => env.lanes.get a != .uniform then refuse (.scalarCall callee.id)
    let ins ← operands ins
    emit (.call callee ins (← operands outs))
  | some d =>
    let ins ← packedArguments callee.id d 1 d.params ins
    emit (.call d.decl ins (← operands outs))

/-- The packed code of an instruction. -/
def instr (ps rs : List Operand) : Instr → Widen Unit
  | .label l => do emit (.label (← label l))
  | .goto l => do emit (.goto (← label l))
  | .branch c yes no => do
    if (← laneOf c) = .varying then refuse .varyingBranch
    let c ← operand c
    let yes ← label yes
    emit (.branch c yes (← label no))
  | .assign kind dst args => assign kind dst args
  | .load dst ptr o => load dst ptr o
  | .store ptr o src => store ptr o src
  | .lea dst ptr o => do
    let off ← if (← laneOf ptr) = .packed then do
        let (off, _) ← packedOffset o
        pure (some off)
      else pure o
    let dst ← operand dst
    emit (.lea dst (← operand ptr) off)
  | .alloc .. | .memcpy .. => refuse .heap
  | .call callee ins outs => call callee ins outs
  | i@.params | i@.results =>
    throw (.fault (.broken ("unexpected instruction " ++ i.text ps rs)))

/-- The packed code of instructions. -/
def code (ps rs : List Operand) : List Instr → Widen Unit
  | [] => return
  | i :: is => do
    instr ps rs i
    code ps rs is

/-- The packed version of a function. -/
def packFunction (env : PackEnv) (d : DeclLanes) (f : Function) : Except Stop Function := do
  let build : Widen (List Operand × List Operand) := do
    let params ← operands f.params
    let results ← operands f.results
    code f.params f.results f.instrs
    return (params, results)
  let lanes := Lanes.ofFunction env d f
  let ((params, results), s) ← (build.run { env with lanes }).run {}
  let packed : Function :=
    ⟨d.decl, params, results, s.vars, s.slots, Function.frame s.code⟩
  match packed.verify with
  | none => return packed
  | some flaw => throw (.fault (.broken (flaw.message packed)))

end Lane.Packing
