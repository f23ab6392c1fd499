import Lane.Proofs.Code.Machine
import Lane.Proofs.Code.Typed

set_option relaxedAutoImplicit false
set_option autoImplicit false

/-!
# Execution of functions on vectors

A machine for whole functions without calls, whose registers and variables hold vectors. A scalar
has a single lane: it is not seen in the other lanes of a vector unless it is spread over them. All
computations are made lane by lane.

## Main definitions

* `Lane.Code.Wide.State`: all that the code of a function works on.
* `Lane.Code.Wide.exec?`: straight-line instructions.
* `Lane.Code.Wide.step?`: one instruction, jumps included.
* `Lane.Code.Wide.EndsIn`, `Lane.Code.Wide.Ends`: executions that come to an end.

## Main results

* `Lane.Code.Wide.Ends.unique`: there is one end at most.
* `Lane.Code.Wide.endsIn_append_iff`: straight-line code is done before what comes after it.
-/

namespace Lane.Code.Wide

/-- All that the code of a function works on. The addresses of slots stay as they are. -/
structure State where
  regs : Reg → Value
  vars : Var → Value
  slots : Slot → Word
  mem : Memory

namespace State

variable {s s' : State} {d o : Operand} {v : Value}

/-- What is held for an operand. -/
def held (s : State) : Operand → Value
  | .const c => fun _ => c.word
  | .reg r => s.regs r
  | .var v => s.vars v
  | .slot x => fun _ => s.slots x
  | .absent => fun _ => 0

/-- **The value of an operand**: its lanes, and nothing in others. -/
def lane (s : State) (o : Operand) : Value := fun i =>
  if i < o.type.width then o.type.kind.cut (s.held o i) else 0

/-- The address at a distance from an operand. -/
def address (s : State) (p : Operand) (o : Option Offset) : Word := s.lane p 0 + Offset.word o

/-- Put a value in a register or variable. -/
def put? (s : State) (d : Operand) (v : Value) : Option State :=
  match d with
  | .reg r => some { s with regs := Function.update s.regs r v }
  | .var x => some { s with vars := Function.update s.vars x v }
  | _ => none

/-- What is put in one operand is not seen in others. -/
lemma held_of_put? (h : s.put? d v = some s') :
    s'.held d = v ∧ (∀ o, o ≠ d → s'.held o = s.held o) ∧ s'.mem = s.mem := by
  cases d with
  | reg r =>
    obtain rfl := Option.some.inj h
    refine ⟨by simp [held], fun o ho => ?_, rfl⟩
    cases o with
    | reg r' => exact Function.update_of_ne (fun he => ho (congrArg Operand.reg he)) v s.regs
    | _ => rfl
  | var x =>
    obtain rfl := Option.some.inj h
    refine ⟨by simp [held], fun o ho => ?_, rfl⟩
    cases o with
    | var x' => exact Function.update_of_ne (fun he => ho (congrArg Operand.var he)) v s.vars
    | _ => rfl
  | const | slot | absent => cases h

/-- What was put in an operand is in its lanes. -/
lemma lane_of_put? (h : s.put? d v = some s') {i : Nat} (hi : i < d.type.width) :
    s'.lane d i = d.type.kind.cut (v i) := by
  rw [lane, if_pos hi, (held_of_put? h).1]

/-- Lanes follow from what an operand holds. -/
lemma lane_congr (h : s'.held o = s.held o) : s'.lane o = s.lane o := by
  unfold lane
  rw [h]

/-- Other operands keep their lanes. -/
lemma lane_of_put?_of_ne (h : s.put? d v = some s') (ho : o ≠ d) : s'.lane o = s.lane o :=
  lane_congr ((held_of_put? h).2.1 o ho)

/-- The bits that a value is made of are all that is seen of it. -/
@[simp] lemma cut_lane (s : State) (o : Operand) (i : Nat) :
    o.type.kind.cut (s.lane o i) = s.lane o i := by
  unfold lane
  split
  · exact Kind.cut_cut _ _
  · simp [Kind.cut]

/-- Registers and variables can be assigned. -/
lemma exists_put? (s : State) (hd : d.IsTarget) (v : Value) : ∃ s', s.put? d v = some s' := by
  cases d with
  | reg | var => exact ⟨_, rfl⟩
  | _ => exact hd.elim

end State

/-- **Computations lane by lane**. A scalar is spread over all lanes. -/
def compute (I : Operators) (kind : AssignKind) (t : VType) (args : List (VType × Value)) : Value :=
  match kind, args with
  | .splat, [a] => fun _ => a.2 0
  | kind, args => fun i => kind.compute I t.elem (args.map fun a => (a.1.elem, a.2 i))

/-- Lanes are computed each on its own, unless a value is spread. -/
lemma compute_of_ne_splat {I : Operators} {kind : AssignKind} {t : VType}
    {args : List (VType × Value)} (h : kind ≠ .splat) : compute I kind t args = fun i =>
      kind.compute I t.elem (args.map fun a => (a.1.elem, a.2 i)) := by
  unfold compute
  split
  · exact absurd rfl h
  · rfl

/-- **One straight-line instruction**. Calls and allocations are not for this machine. -/
def exec? (I : Operators) (s : State) : Instr → Option State
  | .assign kind d args => s.put? d (compute I kind d.type (args.map fun a => (a.type, s.lane a)))
  | .load d p o => s.put? d (s.mem.read d.type (s.address p o))
  | .lea d p o => s.put? d fun _ => s.address p o
  | .store p o a => some { s with mem := s.mem.write a.type (s.address p o) (s.lane a) }
  | _ => none

/-- Straight-line instructions in order. -/
def execAll? (I : Operators) (s : State) : List Instr → Option State
  | [] => some s
  | i :: is => (exec? I s i).bind fun s' => execAll? I s' is

/-- Code of one instruction is executed by executing it. -/
lemma execAll?_singleton (I : Operators) (s : State) (i : Instr) :
    execAll? I s [i] = exec? I s i :=
  Option.bind_fun_some _

/-- Two parts of code are executed one after the other. -/
lemma execAll?_append (I : Operators) {s : State} (is js : List Instr) :
    execAll? I s (is ++ js) = (execAll? I s is).bind fun s' => execAll? I s' js := by
  induction is generalizing s with
  | nil => rfl
  | cons i is ih =>
    simp only [List.cons_append, execAll?, Option.bind_assoc]
    exact congrArg _ (funext fun s' => ih)

/-- What comes after a label. -/
def after? (l : Label) : List Instr → Option (List Instr)
  | [] => none
  | .label m :: is => if m = l then some is else after? l is
  | _ :: is => after? l is

/-- **One instruction** in the code of a function; what is left of the code moves on or jumps. -/
def step? (I : Operators) (body : List Instr) : List Instr → State → Option (List Instr × State)
  | [], _ => none
  | .label _ :: is, s | .params :: is, s | .results :: is, s => some (is, s)
  | .goto l :: _, s => (after? l body).map fun is => (is, s)
  | .branch c yes no :: _, s =>
    (after? (if s.lane c 0 = 0 then no else yes) body).map fun is => (is, s)
  | i :: is, s => (exec? I s i).map fun s' => (is, s')

/-- Straight code makes one step after the other. -/
lemma step?_of_isStraight (I : Operators) (body : List Instr) {i : Instr} (hi : i.isStraight)
    (is : List Instr) (s : State) :
    step? I body (i :: is) s = (exec? I s i).map fun s' => (is, s') := by
  cases i <;> first | rfl | cases hi

/-- **Executions that come to an end** after a number of instructions: from some rest of the code,
all of it is done. -/
inductive EndsIn (I : Operators) (body : List Instr) : Nat → List Instr → State → State → Prop
  | done (s : State) : EndsIn I body 0 [] s s
  | step {n : Nat} {is is' : List Instr} {s s' t : State} (h : step? I body is s = some (is', s'))
      (h' : EndsIn I body n is' s' t) : EndsIn I body (n + 1) is s t

/-- **Executions that come to an end**. -/
def Ends (I : Operators) (body is : List Instr) (s t : State) : Prop :=
  ∃ n, EndsIn I body n is s t

variable {I : Operators} {body is : List Instr} {s t t' : State} {n : Nat}

/-- Code ends in one state only. -/
lemma EndsIn.unique {m : Nat} (h : EndsIn I body n is s t) (h' : EndsIn I body m is s t') :
    t = t' := by
  induction h generalizing m with
  | done =>
    cases h' with
    | done => rfl
    | step h => cases h
  | step h _ ih =>
    cases h' with
    | done => cases h
    | step h' hrest =>
      obtain ⟨rfl, rfl⟩ := Prod.mk.inj (Option.some.inj (h.symm.trans h'))
      exact ih hrest

/-- There is one end at most. -/
lemma Ends.unique (h : Ends I body is s t) (h' : Ends I body is s t') : t = t' := by
  obtain ⟨n, h⟩ := h
  obtain ⟨m, h'⟩ := h'
  exact h.unique h'

/-- The first instruction is done before what comes after it. -/
lemma endsIn_iff_of_step? {is' : List Instr} {s' : State}
    (h : step? I body is s = some (is', s')) :
    EndsIn I body n is s t ↔ ∃ m, n = m + 1 ∧ EndsIn I body m is' s' t := by
  constructor
  · intro he
    cases he with
    | done => cases h
    | step h' hrest =>
      obtain ⟨rfl, rfl⟩ := Prod.mk.inj (Option.some.inj (h.symm.trans h'))
      exact ⟨_, rfl, hrest⟩
  · rintro ⟨m, rfl, he⟩
    exact .step h he

/-- **Straight-line code** is done before what comes after it. -/
lemma endsIn_append_iff {js : List Instr} (hjs : ∀ i ∈ js, i.isStraight) :
    EndsIn I body n (js ++ is) s t ↔
      ∃ m s', n = m + js.length ∧ execAll? I s js = some s' ∧ EndsIn I body m is s' t := by
  induction js generalizing s n with
  | nil => simp [execAll?]
  | cons i js ih =>
    obtain ⟨hi, hjs⟩ := List.forall_mem_cons.1 hjs
    have hstep := step?_of_isStraight I body hi (js ++ is) s
    cases hexec : exec? I s i with
    | none =>
      have hstuck : step? I body (i :: js ++ is) s = none := by
        rw [List.cons_append, hstep, hexec]
        rfl
      constructor
      · intro h
        cases h with
        | step h _ => cases hstuck.symm.trans h
      · rintro ⟨m, s', -, hall, -⟩
        simp [execAll?, hexec] at hall
    | some s₁ =>
      rw [hexec] at hstep
      rw [List.cons_append, endsIn_iff_of_step? hstep]
      simp only [ih hjs, execAll?, hexec, Option.bind_some, List.length_cons]
      constructor
      · rintro ⟨m, rfl, k, s', rfl, hall, hends⟩
        exact ⟨k, s', by omega, hall, hends⟩
      · rintro ⟨m, s', rfl, hall, hends⟩
        exact ⟨m + js.length, by omega, m, s', rfl, hall, hends⟩

end Lane.Code.Wide
