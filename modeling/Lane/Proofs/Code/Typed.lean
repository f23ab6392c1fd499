import Lane.Code.Function
import Mathlib.Data.List.Forall2
import Mathlib.Data.List.Nodup

set_option relaxedAutoImplicit false
set_option autoImplicit false

/-!
# Well-typed code

An instruction is well typed if all its operands are there and their types are the ones that it
works on. A function is well typed if its instructions are, and if it binds operands of the types
that its declaration promises.

## Main definitions

* `Lane.Code.Operand.HasType`, `Lane.Code.Operand.IsTarget`: operands that instructions may use.
* `Lane.Code.Accesses`: a value of some type is read or written at a distance from an address.
* `Lane.Code.Instr.defines`: the registers that an instruction assigns.
* `Lane.Code.Instr.WellTyped`, `Lane.Code.Function.WellTyped`: well-typed code.
* `Lane.Code.AssignKind.ComputesWide`: computations lane by lane.
* `Lane.Code.Instr.WideTyped`, `Lane.Code.Function.WideTyped`: well-typed code on vectors.

## Main results

* `Lane.Code.Function.firstFlaw_eq_none_iff`: what the search for flaws finds.
* `Lane.Code.Function.verify_frame`: when a function is well formed.
-/

namespace Lane.Code

/-! ## Operands -/

namespace Operand

/-- An operand that is there, and has a type. -/
def HasType (o : Operand) (t : VType) : Prop := o ≠ .absent ∧ o.type = t

/-- What instructions may write: registers and variables. -/
def IsTarget : Operand → Prop
  | .reg _ | .var _ => True
  | _ => False

/-- A target is something. -/
lemma IsTarget.ne_absent {o : Operand} (h : o.IsTarget) : o ≠ .absent := by
  rintro rfl
  exact h

/-- A target has its type. -/
lemma IsTarget.hasType {o : Operand} (h : o.IsTarget) : o.HasType o.type := ⟨h.ne_absent, rfl⟩

/-- The register that an operand is. -/
def reg? : Operand → Option Reg
  | .reg r => some r
  | _ => none

end Operand

/-- Numbers: neither truth values nor addresses. -/
def VType.IsNumber (t : VType) : Prop := ∃ k, t = .scalar k ∧ k ≠ .i1 ∧ k ≠ .ptr

/-- **Computations** of a value of type `t` from values of the types `ts`. The computations on
vectors have no place in scalar code. -/
def AssignKind.Computes (kind : AssignKind) (t : VType) (ts : List VType) : Prop :=
  match kind with
  | .move | .neg | .not => ts = [t]
  | .add | .sub | .mul | .div | .rem | .and | .or | .xor => ts = [t, t]
  | .eq | .ne | .lt | .le | .gt | .ge => t = .bool ∧ ∃ u, ts = [u, u]
  | .convert => t.IsNumber ∧ ∃ u, u.IsNumber ∧ ts = [u]
  | .ptrAdd => t = .ptr ∧ ts = [.ptr, .index]
  | .splat | .select => False

/-- **Accesses**: a value of type `t` is read or written at a distance from an address. The last
member on the path is of this type; without a path, a stack slot holds just this value. -/
def Accesses (ptr : Operand) (o : Option Offset) (t : VType) : Prop :=
  ptr.HasType .ptr ∧
    match o.bind fun o => o.path.getLast? with
    | some m => m.type? = some t
    | none => ∀ s, ptr = .slot s → s.struct = none ∧ s.size = t.size

/-! ## Instructions and functions -/

namespace Instr

/-- **Well-typed instructions**. Calls refer to the declarations `D`. -/
def WellTyped (D : FuncDecl → Prop) : Instr → Prop
  | .label _ | .goto _ | .params | .results => True
  | .branch c _ _ => c.HasType .bool
  | .assign kind d args =>
    d.IsTarget ∧ (∀ a ∈ args, a ≠ .absent) ∧ kind.Computes d.type (args.map Operand.type)
  | .load d p o => d.IsTarget ∧ Accesses p o d.type
  | .store p o s => s ≠ .absent ∧ Accesses p o s.type
  | .lea d p _ => d.IsTarget ∧ d.type = .ptr ∧ p.HasType .ptr
  | .alloc d n => d.IsTarget ∧ d.type = .ptr ∧ n.HasType .index
  | .memcpy d s n => d.HasType .ptr ∧ s.HasType .ptr ∧ n.HasType .index
  | .call f ins outs =>
    D f ∧ List.Forall₂ Operand.HasType ins f.params ∧
      List.Forall₂ Operand.HasType outs f.results ∧ ∀ o ∈ outs, o.IsTarget

/-- Whether control goes on with the next instruction, and no other jumps here. -/
def isStraight : Instr → Bool
  | .label _ | .goto _ | .branch .. | .params | .results => false
  | _ => true

/-- Straight code jumps nowhere. -/
lemma targets_of_isStraight {i : Instr} (h : i.isStraight) : i.targets = [] := by
  cases i <;> first | rfl | cases h

/-- The register that an instruction other than a call assigns. -/
def reg? (i : Instr) : Option Reg :=
  match i.dst? with
  | some (.reg r) => some r
  | _ => none

/-- **The registers that an instruction assigns**, those of a call included. -/
def defines : Instr → List Reg
  | .call _ _ outs => outs.filterMap Operand.reg?
  | i => i.reg?.toList

end Instr

/-- The registers that instructions other than calls assign. -/
def assignedRegs (is : List Instr) : List Reg := is.filterMap Instr.reg?

/-- No code assigns no registers. -/
@[simp] lemma assignedRegs_nil : assignedRegs [] = [] := rfl

/-- The registers that two parts of code assign. -/
@[simp] lemma assignedRegs_append (is js : List Instr) :
    assignedRegs (is ++ js) = assignedRegs is ++ assignedRegs js :=
  List.filterMap_append

/-- The register of the first instruction is assigned first. -/
lemma assignedRegs_cons (i : Instr) (is : List Instr) :
    assignedRegs (i :: is) = i.reg?.toList ++ assignedRegs is := by
  unfold assignedRegs
  cases h : i.reg? <;> simp [h]

namespace Function

/-- **Well-typed functions**. -/
structure WellTyped (D : FuncDecl → Prop) (f : Function) : Prop where
  body_typed : ∀ i ∈ f.body, i.WellTyped D
  params_typed : List.Forall₂ Operand.HasType f.params f.decl.params
  results_typed : List.Forall₂ Operand.HasType f.results f.decl.results

/-! ## Well-formed bodies -/

section Flaws

variable {body is : List Instr} {i : Instr} {assigned : List Reg}

/-- One instruction has no flaw if its jumps lead to labels of the body, and the register that it
assigns was not assigned before. -/
lemma firstFlaw_cons_eq_none_iff : firstFlaw body (i :: is) assigned = none ↔
    (∀ l ∈ i.targets, body.any (Instr.isLabelOf l)) ∧ (∀ r, i.reg? = some r → r ∉ assigned) ∧
      firstFlaw body is (i.reg?.toList ++ assigned) = none := by
  rw [firstFlaw]
  split
  · rename_i htargets
    obtain ⟨l, hl, hbody⟩ := List.any_eq_true.1 htargets
    rw [Bool.not_eq_true'] at hbody
    simp only [reduceCtorEq, false_iff]
    exact fun h => Bool.false_ne_true (hbody.symm.trans (h.1 l hl))
  · rename_i htargets
    have hlead : ∀ l ∈ i.targets, body.any (Instr.isLabelOf l) := by
      simpa only [List.any_eq_true, Bool.not_eq_true', not_exists, not_and, Bool.not_eq_false]
        using htargets
    rw [and_iff_right hlead]
    split
    · rename_i r hr
      have hreg : i.reg? = some r := by simp [Instr.reg?, hr]
      rw [hreg]
      by_cases hmem : r ∈ assigned <;> simp [hmem]
    · rename_i hr
      have hreg : i.reg? = none := by
        unfold Instr.reg?
        split
        · rename_i r h
          exact (hr r h).elim
        · rfl
      rw [hreg]
      simp

/-- **What the search for flaws finds**: there is none if and only if the jumps lead to labels of
the body, and every register is assigned once and was not assigned before. -/
lemma firstFlaw_eq_none_iff : firstFlaw body is assigned = none ↔
    (∀ i ∈ is, ∀ l ∈ i.targets, body.any (Instr.isLabelOf l)) ∧ (assignedRegs is).Nodup ∧
      ∀ r ∈ assigned, r ∉ assignedRegs is := by
  induction is generalizing assigned with
  | nil => simp [firstFlaw]
  | cons i is ih =>
    rw [firstFlaw_cons_eq_none_iff, ih, List.forall_mem_cons, assignedRegs_cons]
    cases i.reg? with
    | none => simp [and_assoc]
    | some r =>
      simp only [Option.some.injEq, Option.toList_some, List.cons_append, List.nil_append,
        List.nodup_cons, List.mem_cons]
      grind

/-- A function is verified by its ends and by what is in its body. -/
lemma verify_eq_none_iff {f : Function} : f.verify = none ↔
    opens f.body ∧ closes f.body ∧ firstFlaw f.body f.body [] = none := by
  unfold verify
  cases opens f.body <;> cases closes f.body <;> simp

end Flaws

/-- **Well-formed functions**: a body around instructions that jump to labels of the body only and
assign every register once is well formed. -/
lemma verify_frame {f : Function} {code : List Instr} (hf : f.body = frame code)
    (ht : ∀ i ∈ code, ∀ l ∈ i.targets, Instr.label l ∈ frame code)
    (hn : (assignedRegs code).Nodup) : f.verify = none := by
  have hregs : assignedRegs (frame code) = assignedRegs code := by
    simp [frame, assignedRegs_cons, Instr.reg?, Instr.dst?]
  rw [verify_eq_none_iff, hf, firstFlaw_eq_none_iff, hregs]
  refine ⟨rfl, by simp [frame, closes], fun i hi l hl => ?_, hn, by simp⟩
  refine List.any_eq_true.2 ⟨.label l, ?_, by simp [Instr.isLabelOf]⟩
  simp only [frame, List.mem_append, List.mem_cons, List.not_mem_nil, or_false] at hi
  obtain ((rfl | rfl) | hi) | rfl | rfl := hi
  case inl.inr => exact ht i hi l hl
  all_goals cases hl

/-- The instructions of a body are the ones that the frame was put around. -/
lemma instrs_of_frame {f : Function} {code : List Instr} (hf : f.body = frame code)
    (hl : ∀ l, Instr.label l ∈ code → l.id ≠ Label.epilogue.id) :
    f.instrs = code := by
  unfold instrs
  rw [hf]
  have hdrop : ((frame code).dropWhile fun i => !i.isParams).drop 1 =
      code ++ [.label .epilogue, .results] := rfl
  rw [hdrop, List.takeWhile_append_of_pos]
  · simp [Instr.isLabelOf]
  · intro i hi
    cases i with
    | label l => simpa [Instr.isLabelOf] using hl l hi
    | _ => rfl

end Function

end Lane.Code

/-! ## Well-typed code on vectors

Code on vectors computes lane by lane: its operands are scalars, or vectors of one width. A vector
is made of a scalar in all lanes, or of truth values that are masks in memory. Addresses and
conditions are scalars, as in code on scalars. -/

namespace Lane.Code

/-- **Computations lane by lane** of a value of type `t` from values of the types `ts`: they have as
many lanes as the value, one or `W`. Addresses are computed from scalars; truth values become masks
of as many lanes. -/
def AssignKind.ComputesWide (W : Nat) (kind : AssignKind) (t : VType) (ts : List VType) : Prop :=
  match kind with
  | .splat => t.isVector ∧ t.lanes = W ∧ ts = [t.elem]
  | .ptrAdd => t = .ptr ∧ ts = [.ptr, .index]
  | kind => (t.lanes = 0 ∨ t.isVector ∧ t.lanes = W) ∧ (∀ u ∈ ts, u.lanes = t.lanes) ∧
    (kind.Computes t.elem (ts.map VType.elem) ∨
      kind = .convert ∧ t.isVector ∧ t.kind.isInteger ∧ ts.map VType.elem = [.bool])

/-- **Well-typed instructions** on vectors of `W` lanes. Calls refer to the declarations `D`. -/
def Instr.WideTyped (W : Nat) (D : FuncDecl → Prop) : Instr → Prop
  | .assign kind d args =>
    d.IsTarget ∧ (∀ a ∈ args, a ≠ .absent) ∧ kind.ComputesWide W d.type (args.map Operand.type)
  | i => i.WellTyped D

/-- **Well-typed functions** on vectors of `W` lanes. -/
structure Function.WideTyped (W : Nat) (D : FuncDecl → Prop) (f : Function) : Prop where
  body_typed : ∀ i ∈ f.body, i.WideTyped W D
  params_typed : List.Forall₂ Operand.HasType f.params f.decl.params
  results_typed : List.Forall₂ Operand.HasType f.results f.decl.results

end Lane.Code
