import Lane.Code.Function
import Lane.Proofs.Code.Memory
import Lane.Syntax.Basic
import Mathlib.Logic.Function.Basic

set_option relaxedAutoImplicit false
set_option autoImplicit false

/-!
# Execution of straight-line code

A machine for the instructions that compute, load and store. The operators on scalars are left open,
except that indices are multiplied as words. Code that computes new registers one after the other
leaves all else as it is, and in the end its instructions hold as equations.

## Main definitions

* `Lane.Code.State`: all that code works on.
* `Lane.Code.Operators`: what the operators on scalars compute.
* `Lane.Code.Instr.step?`, `Lane.Code.run?`: execution.
* `Lane.Code.Solves`: states in which instructions hold as equations.
* `Lane.Code.Numbered`: code that computes new registers in order.

## Main results

* `Lane.Code.Numbered.run`: code that computes new registers runs, and is solved by the result.
-/

namespace Lane.Code

/-! ## States -/

/-- **What the operators on scalars compute**, by the machine type of their operands. -/
structure Operators where
  unary : UnaryOp → VType → Word → Word
  binary : BinaryOp → VType → Word → Word → Word
  /-- A value of one machine scalar in another. -/
  convert : VType → VType → Word → Word

/-- **Operators that scale indices as words**: products wrap around. -/
def Operators.ScalesIndices (I : Operators) : Prop := ∀ a b, I.binary .mul .index a b = a * b

/-- All that the code of a function works on. The addresses of slots stay as they are. -/
structure State where
  regs : Reg → Word
  vars : Var → Word
  slots : Slot → Word
  mem : Memory

/-- The bits of a constant. -/
def Const.word (c : Const) : Word :=
  if c.type.kind.isReal then .ofNat c.realBits else c.type.kind.cut c.bits

/-- A number is the word of its constant. -/
@[simp] lemma Const.word_ofInt_index (n : UInt64) : (Const.ofInt .index n).word = n := by
  have hlt : n.toNat < 1 <<< Kind.u64.bits := n.toNat_lt
  show UInt64.ofNat (n.toNat % 1 <<< Kind.u64.bits) = n
  rw [Nat.mod_eq_of_lt hlt, UInt64.ofNat_toNat]

/-- The distance of an offset as a word. -/
def Offset.word (o : Option Offset) : Word := (Offset.value o).toUInt64

/-- No offset adds nothing. -/
@[simp] lemma Offset.word_none : Offset.word none = 0 := rfl

/-- An offset of zero adds nothing. -/
lemma Offset.word_eq_zero {o : Option Offset} (h : Offset.value o = 0) : Offset.word o = 0 := by
  rw [Offset.word, h]
  rfl

/-- A step adds the distance of its member. -/
lemma Offset.word_step (o : Option Offset) (m : StructMember) :
    Offset.word (some (Offset.step o m)) = Offset.word o + m.offset.toUInt64 := by
  cases o with
  | none =>
    have hzero : Int64.toUInt64 0 = 0 := rfl
    simp [Offset.word, Offset.value, Offset.step, Offset.add, hzero]
  | some o => simp [Offset.word, Offset.value, Offset.step, Offset.add, Int64.toUInt64_add]

namespace State

/-- The value of an operand. A slot stands for its address. -/
def value (s : State) : Operand → Word
  | .const c => c.word
  | .reg r => s.regs r
  | .var v => s.vars v
  | .slot x => s.slots x
  | .absent => 0

/-- The values of operands with their types. -/
def values (s : State) (os : List Operand) : List (VType × Word) :=
  os.map fun o => (o.type, s.value o)

/-- Put a value in a register or variable. -/
def put? (s : State) (d : Operand) (w : Word) : Option State :=
  match d with
  | .reg r => some { s with regs := Function.update s.regs r w }
  | .var v => some { s with vars := Function.update s.vars v w }
  | _ => none

end State

/-! ## Execution -/

/-- What an assignment computes from scalars. -/
def AssignKind.compute (I : Operators) (t : VType) : AssignKind → List (VType × Word) → Word
  | .move, [a] => a.2
  | .neg, [a] => I.unary .neg a.1 a.2
  | .not, [a] => I.unary .not a.1 a.2
  | .convert, [a] => I.convert a.1 t a.2
  | .ptrAdd, [a, n] => a.2 + n.2
  | .add, [a, b] => I.binary .add a.1 a.2 b.2
  | .sub, [a, b] => I.binary .sub a.1 a.2 b.2
  | .mul, [a, b] => I.binary .mul a.1 a.2 b.2
  | .div, [a, b] => I.binary .div a.1 a.2 b.2
  | .rem, [a, b] => I.binary .mod a.1 a.2 b.2
  | .and, [a, b] => I.binary .and a.1 a.2 b.2
  | .or, [a, b] => I.binary .or a.1 a.2 b.2
  | .xor, [a, b] => I.binary .xor a.1 a.2 b.2
  | .eq, [a, b] => I.binary .eq a.1 a.2 b.2
  | .ne, [a, b] => I.binary .ne a.1 a.2 b.2
  | .lt, [a, b] => I.binary .lt a.1 a.2 b.2
  | .le, [a, b] => I.binary .le a.1 a.2 b.2
  | .gt, [a, b] => I.binary .gt a.1 a.2 b.2
  | .ge, [a, b] => I.binary .ge a.1 a.2 b.2
  | .splat, [a] => a.2
  | .select, [c, a, b] => if c.2 = 0 then b.2 else a.2
  | _, _ => 0

/-- The value that an instruction computes in a state. -/
def Instr.result? (I : Operators) (s : State) : Instr → Option Word
  | .assign k d args => some (k.compute I d.type (s.values args))
  | .load d p o => some (s.mem.scalar d.type.kind (s.value p + Offset.word o))
  | .lea _ p o => some (s.value p + Offset.word o)
  | _ => none

/-- **One instruction**. Jumps, calls and allocations are not for this machine. -/
def Instr.step? (I : Operators) (s : State) : Instr → Option State
  | .store p o a =>
    some { s with mem := s.mem.write a.type (s.value p + Offset.word o) fun _ => s.value a }
  | i => do s.put? (← i.dst?) (← i.result? I s)

/-- **Straight-line code**: one instruction after the other. -/
def run? (I : Operators) : List Instr → State → Option State
  | [], s => some s
  | i :: is, s => (i.step? I s).bind (run? I is)

/-! ## New registers -/

/-- The operands that a computation reads. -/
def Instr.reads : Instr → List Operand
  | .assign _ _ args => args
  | .load _ p _ | .lea _ p _ => [p]
  | _ => []

/-- Operands other than the registers with numbers above `n`. -/
def Operand.Below (n : Nat) (o : Operand) : Prop := ∀ r, o = .reg r → r.id ≤ n

/-- A constant is no register. -/
lemma Operand.below_const (n : Nat) (c : Const) : (Operand.const c).Below n :=
  fun r hr => by cases hr

/-- A variable is no register. -/
lemma Operand.below_var (n : Nat) (v : Var) : (Operand.var v).Below n := fun r hr => by cases hr

/-- Nothing is no register. -/
lemma Operand.below_absent (n : Nat) : Operand.absent.Below n := fun r hr => by cases hr

/-- Registers below a bound are below a greater one. -/
lemma Operand.Below.mono {n m : Nat} {o : Operand} (h : o.Below n) (hm : n ≤ m) : o.Below m :=
  fun r hr => Nat.le_trans (h r hr) hm

/-- **States that agree** up to the registers with numbers above `n`. -/
structure State.Keeps (n : Nat) (s t : State) : Prop where
  vars_eq : t.vars = s.vars
  slots_eq : t.slots = s.slots
  mem_eq : t.mem = s.mem
  regs_eq : ∀ r : Reg, r.id ≤ n → t.regs r = s.regs r

namespace State.Keeps

variable {n m : Nat} {s t u : State}

/-- A state keeps what it has. -/
lemma refl (n : Nat) (s : State) : Keeps n s s := ⟨rfl, rfl, rfl, fun _ _ => rfl⟩

/-- What is kept in two steps is kept in both. -/
lemma trans (h : Keeps n s t) (h' : Keeps m t u) (hm : n ≤ m) : Keeps n s u where
  vars_eq := h'.vars_eq.trans h.vars_eq
  slots_eq := h'.slots_eq.trans h.slots_eq
  mem_eq := h'.mem_eq.trans h.mem_eq
  regs_eq r hr := (h'.regs_eq r (Nat.le_trans hr hm)).trans (h.regs_eq r hr)

/-- What does not read newer registers has the same value. -/
lemma value_eq (h : Keeps n s t) {o : Operand} (ho : o.Below n) : t.value o = s.value o := by
  cases o with
  | reg r => exact h.regs_eq r (ho r rfl)
  | var v => exact congrFun h.vars_eq v
  | slot x => exact congrFun h.slots_eq x
  | const | absent => rfl

/-- Operands that are kept have their values. -/
lemma values_eq (h : Keeps n s t) {os : List Operand} (ho : ∀ o ∈ os, o.Below n) :
    t.values os = s.values os :=
  List.map_congr_left fun o hm => by rw [h.value_eq (ho o hm)]

/-- What reads no newer registers gives the same result. -/
lemma result?_eq (h : Keeps n s t) (I : Operators) {i : Instr} (hi : ∀ o ∈ i.reads, o.Below n) :
    i.result? I t = i.result? I s := by
  cases i with
  | assign k d args =>
    have hargs : t.values args = s.values args := h.values_eq hi
    simp only [Instr.result?, hargs]
  | load d p o => simp only [Instr.result?, h.mem_eq, h.value_eq (hi p (List.mem_singleton_self p))]
  | lea d p o => simp only [Instr.result?, h.value_eq (hi p (List.mem_singleton_self p))]
  | _ => rfl

/-- A register with a number above `n` is assigned. -/
lemma update {r : Reg} (hr : n < r.id) (s : State) (w : Word) :
    Keeps n s { s with regs := Function.update s.regs r w } where
  vars_eq := rfl
  slots_eq := rfl
  mem_eq := rfl
  regs_eq r' hr' := Function.update_of_ne (fun h => by subst h; omega) w s.regs

end State.Keeps

/-- An instruction holds as an equation: the register has the value that is computed. -/
def Instr.Holds (I : Operators) (s : State) (i : Instr) : Prop :=
  ∃ r w, i.dst? = some (.reg r) ∧ i.result? I s = some w ∧ s.regs r = w

/-- **Solutions**: all instructions hold as equations. -/
def Solves (I : Operators) (s : State) (is : List Instr) : Prop := ∀ i ∈ is, i.Holds I s

/-- Whether an instruction does nothing but compute a value. -/
def Instr.computes : Instr → Bool
  | .assign .. | .load .. | .lea .. => true
  | _ => false

/-- **Code that computes new registers**: the next ones after number `n`, from older ones. -/
def Numbered : Nat → List Instr → Prop
  | _, [] => True
  | n, i :: is => i.computes ∧ (∃ r, i.dst? = some (.reg r) ∧ r.id = n + 1) ∧
    (∀ o ∈ i.reads, o.Below n) ∧ Numbered (n + 1) is

/-- Code is numbered if its parts are, one after the other. -/
lemma Numbered.append : ∀ {n : Nat} {is js : List Instr}, Numbered n is →
    Numbered (n + is.length) js → Numbered n (is ++ js)
  | _, [], _, _, h' => h'
  | n, i :: is, js, ⟨hi, hd, hr, h⟩, h' => by
    rw [List.length_cons, Nat.add_comm is.length, ← Nat.add_assoc] at h'
    exact ⟨hi, hd, hr, h.append h'⟩

/-- An instruction that computes a new register sets it to the value in the state before. -/
lemma Instr.step?_eq {I : Operators} {s : State} {i : Instr} {r : Reg} (hi : i.computes)
    (hd : i.dst? = some (.reg r)) : ∃ w, i.result? I s = some w ∧
      i.step? I s = some { s with regs := Function.update s.regs r w } := by
  cases i with
  | assign | load | lea =>
    obtain rfl := Option.some.inj hd
    exact ⟨_, rfl, rfl⟩
  | _ => cases hi

/-- **Code that computes new registers runs**, leaves all else as it is, and is solved by the
result.

**Proof sketch.** By induction on the code. The first register is not assigned again, and neither
are the operands that it was computed from, so its equation still holds in the end. -/
theorem Numbered.run (I : Operators) : ∀ {is : List Instr} {n : Nat}, Numbered n is →
    ∀ s, ∃ t, run? I is s = some t ∧ s.Keeps n t ∧ Solves I t is
  | [], n, _, s => ⟨s, rfl, .refl n s, by simp [Solves]⟩
  | i :: is, n, ⟨hi, ⟨r, hd, hr⟩, hreads, h⟩, s => by
    obtain ⟨w, hw, hstep⟩ := Instr.step?_eq (I := I) (s := s) hi hd
    have hnew : s.Keeps n { s with regs := Function.update s.regs r w } :=
      State.Keeps.update (by omega) s w
    obtain ⟨t, hrun, hk, hsolves⟩ := h.run I { s with regs := Function.update s.regs r w }
    have hkeeps := hnew.trans hk (Nat.le_succ n)
    refine ⟨t, by simp [run?, hstep, hrun], hkeeps, List.forall_mem_cons.2 ⟨?_, hsolves⟩⟩
    refine ⟨r, w, hd, (hkeeps.result?_eq I hreads).trans hw, ?_⟩
    rw [hk.regs_eq r (by omega)]
    exact Function.update_self r w s.regs

end Lane.Code
