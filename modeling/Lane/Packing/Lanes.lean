import Lane.Code.Function
import Lane.Packing.Layout

set_option relaxedAutoImplicit false
set_option autoImplicit false

/-!
# Lanes

Packed code works on several instances at once. An operand of scalar code is either shared by all of
them, the address of packed memory, or different in every lane. Which of these it is follows from
the lanes of the parameters: they spread along the instructions until nothing changes any more.

## Main definitions

* `Lane.Packing.LaneKind`: how an operand relates to the instances.
* `Lane.Packing.Lanes`: what is known about the operands of a function.
* `Lane.Packing.Lanes.step`: what follows from one instruction.
* `Lane.Packing.Lanes.settle`: what follows from all instructions.
-/

namespace Lane.Packing

open Lane.Code

/-- How an operand of packed code relates to the instances. -/
inductive LaneKind where
  /-- One value, shared by all instances. -/
  | uniform
  /-- The address of memory that holds the instances lane by lane. -/
  | packed
  /-- A vector with one lane for each instance. -/
  | varying
  deriving DecidableEq, Repr, Inhabited

namespace LaneKind

/-- The word of a lane kind. -/
def name : LaneKind → String
  | .uniform => "uniform"
  | .packed => "packed"
  | .varying => "varying"

/-- The rank of a lane kind: operands only ever rise. -/
def rank : LaneKind → Nat
  | .uniform => 0
  | .packed => 1
  | .varying => 2

/-- The type of an operand with this lane kind. -/
def type (l : LaneKind) (width : Nat) (t : VType) : VType :=
  if l = .varying then t.vector width else t

end LaneKind

/-- The lane kinds of a declaration's parameters and results. -/
structure DeclLanes where
  decl : FuncDecl
  params : List LaneKind
  results : List LaneKind
  deriving Repr, Inhabited

/-- What packing a function may rely on: the packed layouts, and the packed versions of functions by
their scalar identifiers. -/
structure PackEnv where
  layouts : PackedLayouts
  decls : List (String × DeclLanes)
  width : Nat
  deriving Repr, Inhabited

/-- The packed version of a function. -/
def PackEnv.packed? (env : PackEnv) (d : FuncDecl) : Option DeclLanes := env.decls.lookup d.id

/-- What is known about the lanes of operands, the newest entry first. Operands without an entry are
uniform. -/
structure Lanes where
  entries : List (Operand × LaneKind) := []
  deriving Repr, Inhabited, DecidableEq

namespace Lanes

/-- The lane kind of an operand. -/
def get (m : Lanes) (o : Operand) : LaneKind := (m.entries.lookup o).getD .uniform

/-- Set the lane kind of an operand. -/
def set (m : Lanes) (o : Operand) (l : LaneKind) : Lanes := ⟨(o, l) :: m.entries⟩

/-- Whether the lane kind of an operand can rise. -/
def canRise : Operand → Bool
  | .const _ | .absent => false
  | _ => true

/-- Raise an operand to a lane kind, unless it has reached it. -/
def raise (m : Lanes) (o : Operand) (l : LaneKind) : Lanes :=
  if canRise o && (m.get o).rank < l.rank then m.set o l else m

/-- Raise several operands. -/
def raiseAll (m : Lanes) (os : List (Operand × LaneKind)) : Lanes :=
  os.foldl (fun m (o, l) => m.raise o l) m

/-- The lane kind of a value that is read from memory. -/
def loaded (env : PackEnv) (m : Lanes) (ptr : Operand) (o : Option Offset) : LaneKind :=
  if m.get ptr ≠ .packed then .uniform
  else if Offset.isTrivial o then .varying
  else match env.layouts.offset? o with
    | some (_, last) => if last.member.isVector then .varying else .uniform
    | none => .uniform

/-- The lane kind of a computed value. -/
def computed (m : Lanes) (kind : AssignKind) (args : List Operand) : LaneKind :=
  match kind with
  | .move => (args.head?.map m.get).getD .uniform
  | .ptrAdd => .uniform
  | _ => if args.any fun a => m.get a == .varying then .varying else .uniform

/-- The operands that an instruction raises, and how far. -/
def raised (env : PackEnv) (m : Lanes) : Instr → List (Operand × LaneKind)
  | .assign kind dst args => [(dst, m.computed kind args)]
  | .load dst ptr o => [(dst, loaded env m ptr o)]
  | .lea dst ptr _ => if m.get ptr = .packed then [(dst, .packed)] else []
  | .store (.slot s) none src => if m.get src = .varying then [(.slot s, .packed)] else []
  | .call callee _ outs =>
    match env.packed? callee with
    | some d => outs.zip d.results
    | none => []
  | _ => []

/-- What follows from one instruction. -/
def step (env : PackEnv) (m : Lanes) (i : Instr) : Lanes := m.raiseAll (m.raised env i)

/-- What follows from instructions, each looked at once. -/
def sweep (env : PackEnv) (code : List Instr) (m : Lanes) : Lanes := code.foldl (step env) m

/-- The number of operands that an instruction may raise. -/
def raisable : Instr → Nat
  | .assign .. | .load .. | .lea .. | .store .. => 1
  | .call _ _ outs => outs.length
  | _ => 0

/-- Look at all instructions again until nothing changes. Every entry that a sweep adds raises an
operand, and an operand rises twice at most. -/
def settleIn (env : PackEnv) (code : List Instr) : Nat → Lanes → Lanes
  | 0, m => m
  | fuel + 1, m =>
    let m' := m.sweep env code
    if m'.entries.length = m.entries.length then m else settleIn env code fuel m'

/-- What follows from all instructions of a function. -/
def settle (env : PackEnv) (code : List Instr) (m : Lanes) : Lanes :=
  settleIn env code (2 * code.foldr (fun i n => raisable i + n) 0 + 1) m

/-- The lane kinds that are known before the instructions are looked at: those of parameters and
results, and of the slots that hold a class with a packed layout. -/
def start (env : PackEnv) (d : DeclLanes) (f : Function) : Lanes :=
  let bound := (f.params.zip d.params ++ f.results.zip d.results).foldl
    (fun m (o, l) => m.set o l) ({} : Lanes)
  let packed (s : Slot) : Bool :=
    (s.struct.bind fun name => env.layouts.byName.lookup name).isSome
  (f.slots.filter packed).foldl (fun m s => m.set (.slot s) .packed) bound

/-- The lane kinds of the operands of a function. -/
def ofFunction (env : PackEnv) (d : DeclLanes) (f : Function) : Lanes :=
  (start env d f).settle env f.instrs

end Lanes

end Lane.Packing
