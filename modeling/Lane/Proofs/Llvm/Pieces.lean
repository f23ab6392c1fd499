import Lane.Proofs.Llvm.Blocks

set_option relaxedAutoImplicit false
set_option autoImplicit false

/-!
# What is added to a block

Between labels and jumps, instructions are added to one block. What they are depends on the
registers and on how many instructions were made before, and not on blocks: the same is added to
whatever block comes to be the current one, or emission stops for the same reason.

## Main definitions

* `Lane.Llvm.View`: what is read of a builder.
* `Lane.Llvm.Piece`: what a computation gives and adds.
* `Lane.Llvm.Emits`, `Lane.Llvm.Stops`: what a computation does wherever it runs.
* `Lane.Llvm.IsStraight`: computations that only add instructions.

## Main results

* `Lane.Llvm.isStraight_emitInstr`: instructions other than labels and jumps.
* `Lane.Llvm.emits_allocateVars`, `Lane.Llvm.emits_allocateSlots`: allocations.
-/

namespace Lane.Llvm

open Lane.Code (Operand AssignKind Label Offset VType FuncDecl)

/-! ## Pieces of code -/

/-- Whether an instruction allocates memory, which has a name. -/
def Op.name? : Op → Option String
  | .alloca name .. => some name
  | _ => none

/-- Instructions in the order in which they are made, from a place in this order. -/
def numbered (made : Nat) (ops : List Op) : List Instr :=
  (ops.zipIdx made).map fun p => ⟨p.2, p.1⟩

/-- What computations read of a builder, besides blocks. -/
structure View where
  regs : List (Nat × Value)
  made : Nat
  result : LType
  params : List Param

/-- What a computation gives, the instructions that it adds, and the registers that it leaves. -/
structure Piece (α : Type) where
  value : α
  ops : List Op
  regs : List (Nat × Value)

/-- What is read after a piece. -/
def View.after {α : Type} (σ : View) (p : Piece α) : View :=
  { σ with regs := p.regs, made := σ.made + p.ops.length }

/-- What is read of a builder. -/
def Builder.view (b : Builder) : View :=
  ⟨b.regs, b.function.made, b.function.result, b.function.params⟩

/-- A builder of which this is read, with an empty block. -/
def View.builder (σ : View) : Builder :=
  ⟨⟨"", σ.result, σ.params, #[{ name := "" }], σ.made⟩, 0, σ.regs, []⟩

/-- A builder to whose current block instructions are added. -/
def Builder.add (b : Builder) (ops : List Op) (regs : List (Nat × Value)) : Builder :=
  let blocks := b.function.blocks.modify b.current fun k =>
    { k with instrs := k.instrs ++ (numbered b.function.made ops).toArray }
  { b with function := { b.function with blocks, made := b.function.made + ops.length }, regs }

/-- **Pieces of code**: whatever the blocks are, the computation adds this to the current one. -/
def Emits {α : Type} (env : EmitEnv) (σ : View) (m : Emit α) (p : Piece α) : Prop :=
  ∀ b : Builder, b.view = σ → (m.run env).run b = .ok (p.value, b.add p.ops p.regs)

/-- Whatever the blocks are, the computation stops. -/
def Stops {α : Type} (env : EmitEnv) (σ : View) (m : Emit α) (x : EmitError) : Prop :=
  ∀ b : Builder, b.view = σ → (m.run env).run b = .error x

/-- **Straight computations** add instructions to the current block, none of which allocates memory,
or stop. The blocks have no part in it. -/
def IsStraight {α : Type} (env : EmitEnv) (m : Emit α) : Prop :=
  ∀ σ, (∃ p, Emits env σ m p ∧ ∀ op ∈ p.ops, op.name? = none) ∨ ∃ x, Stops env σ m x

/-- What is seen of a builder made from a view. -/
lemma View.view_builder (σ : View) : σ.builder.view = σ := rfl

/-- The instructions, without their places in the order. -/
lemma map_op_numbered (made : Nat) (ops : List Op) : (numbered made ops).map Instr.op = ops := by
  simp [numbered, Function.comp_def]

/-- Instructions of two parts are numbered in order. -/
lemma numbered_append (made : Nat) (ops ops' : List Op) :
    numbered made (ops ++ ops') = numbered made ops ++ numbered (made + ops.length) ops' := by
  simp [numbered, List.zipIdx_append]

namespace Builder

variable (b : Builder)

/-- What is seen after a piece was added. -/
lemma view_add {α : Type} (p : Piece α) : (b.add p.ops p.regs).view = b.view.after p := rfl

/-- Nothing is added. -/
lemma add_nil : b.add [] b.regs = b := by
  have hsame : (b.function.blocks.modify b.current fun k =>
      { k with instrs := k.instrs ++ (numbered b.function.made []).toArray }) =
      b.function.blocks := by
    refine Array.ext_getElem? fun n => ?_
    rw [Array.getElem?_modify]
    split
    · cases b.function.blocks[n]? <;> simp [numbered]
    · rfl
  unfold add
  rw [hsame]
  rfl

/-- Two pieces are added one after the other. -/
lemma add_add (ops ops' : List Op) (regs regs' : List (Nat × Value)) :
    (b.add ops regs).add ops' regs' = b.add (ops ++ ops') regs' := by
  have hblocks : ((b.function.blocks.modify b.current fun k =>
      { k with instrs := k.instrs ++ (numbered b.function.made ops).toArray }).modify b.current
        fun k => { k with instrs :=
          k.instrs ++ (numbered (b.function.made + ops.length) ops').toArray }) =
      b.function.blocks.modify b.current fun k =>
        { k with instrs := k.instrs ++ (numbered b.function.made (ops ++ ops')).toArray } := by
    refine Array.ext_getElem? fun n => ?_
    simp only [Array.getElem?_modify]
    split
    · cases b.function.blocks[n]? <;> simp [numbered_append]
    · rfl
  simp only [add, hblocks, List.length_append, Nat.add_assoc]

end Builder

/-! ## Straight computations -/

section Combinators

variable {env : EmitEnv} {α β : Type} {m : Emit α} {f : α → Emit β} {σ : View}

/-- A computation goes on after one that succeeds. -/
lemma run_bind_of_ok {b b' : Builder} {a : α} (h : (m.run env).run b = .ok (a, b')) :
    ((m >>= f).run env).run b = ((f a).run env).run b' := by
  rw [ReaderT.run_bind, StateT.run_bind, h]
  rfl

/-- A computation fails if its first part does. -/
lemma run_bind_of_error {b : Builder} {x : EmitError} (h : (m.run env).run b = .error x) :
    ((m >>= f).run env).run b = .error x := by
  rw [ReaderT.run_bind, StateT.run_bind, h]
  rfl

/-- A computation does one thing only. -/
lemma Emits.unique {p q : Piece α} (hp : Emits env σ m p) (hq : Emits env σ m q) : p = q := by
  obtain ⟨hvalue, hadd⟩ := Prod.mk.inj (Except.ok.inj
    ((hp _ σ.view_builder).symm.trans (hq _ σ.view_builder)))
  have hblock := congrArg (fun b : Builder => b.function.blocks[0]?) hadd
  have hops : numbered σ.made p.ops = numbered σ.made q.ops := by
    simpa [View.builder, Builder.add] using hblock
  cases p
  cases q
  refine Piece.mk.injEq .. ▸ ⟨hvalue, ?_, congrArg Builder.regs hadd⟩
  simpa only [map_op_numbered] using congrArg (List.map Instr.op) hops

/-- A computation does not both add something and stop. -/
lemma Emits.not_stops {p : Piece α} {x : EmitError} (hp : Emits env σ m p) : ¬ Stops env σ m x :=
  fun hx => by cases (hp _ σ.view_builder).symm.trans (hx _ σ.view_builder)

/-- A result is an empty piece. -/
lemma Emits.pure {a : α} : Emits env σ (pure a) ⟨a, [], σ.regs⟩ := by
  rintro b rfl
  exact congrArg (fun b' => Except.ok (a, b')) b.add_nil.symm

/-- Two pieces, one after the other. -/
lemma Emits.bind {p : Piece α} {q : Piece β} (hm : Emits env σ m p)
    (hf : Emits env (σ.after p) (f p.value) q) :
    Emits env σ (m >>= f) ⟨q.value, p.ops ++ q.ops, q.regs⟩ := by
  intro b hb
  rw [run_bind_of_ok (hm b hb), hf _ (hb ▸ b.view_add p), Builder.add_add]

/-- Emission stops where its second part does. -/
lemma Emits.stops_bind {p : Piece α} {x : EmitError} (hm : Emits env σ m p)
    (hf : Stops env (σ.after p) (f p.value) x) : Stops env σ (m >>= f) x := fun b hb => by
  rw [run_bind_of_ok (hm b hb), hf _ (hb ▸ b.view_add p)]

/-- An instruction is a piece with its result. -/
lemma emits_instr (op : Op) : Emits env σ (instr op) ⟨.result σ.made op.type, [op], σ.regs⟩ := by
  rintro b rfl
  rfl

/-- A result is straight. -/
lemma IsStraight.pure {a : α} : IsStraight env (pure a : Emit α) :=
  fun _ => .inl ⟨_, .pure, List.forall_mem_nil _⟩

/-- Straight emission, one part after the other. -/
lemma IsStraight.bind (hm : IsStraight env m) (hf : ∀ a, IsStraight env (f a)) :
    IsStraight env (m >>= f) := by
  intro σ
  obtain ⟨p, hp, hops⟩ | ⟨x, hx⟩ := hm σ
  · obtain ⟨q, hq, hops'⟩ | ⟨x, hx⟩ := hf p.value (σ.after p)
    · exact .inl ⟨_, hp.bind hq, List.forall_mem_append.2 ⟨hops, hops'⟩⟩
    · exact .inr ⟨x, hp.stops_bind hx⟩
  · exact .inr ⟨x, fun b hb => run_bind_of_error (hx b hb)⟩

/-- The second part of a computation adds something if the whole does. -/
lemma Emits.of_bind {p : Piece α} {r : Piece β} (h : Emits env σ (m >>= f) r)
    (hf : IsStraight env (f p.value)) (hm : Emits env σ m p) :
    ∃ q, Emits env (σ.after p) (f p.value) q := by
  obtain ⟨q, hq, -⟩ | ⟨x, hx⟩ := hf (σ.after p)
  · exact ⟨q, hq⟩
  · have hrun := h _ σ.view_builder
    rw [run_bind_of_ok (hm _ σ.view_builder), hx _ (σ.builder.view_add p)] at hrun
    cases hrun

/-- What a straight computation adds allocates no memory. -/
lemma IsStraight.name?_eq_none {p : Piece α} (h : IsStraight env m) (hp : Emits env σ m p) :
    ∀ op ∈ p.ops, op.name? = none := by
  obtain ⟨q, hq, hops⟩ | ⟨x, hx⟩ := h σ
  · exact hp.unique hq ▸ hops
  · exact absurd hx hp.not_stops

/-- Failing is straight. -/
lemma IsStraight.throw (x : EmitError) : IsStraight env (throw x : Emit α) :=
  fun _ => .inr ⟨x, fun _ _ => rfl⟩

/-- Rejection is straight. -/
lemma IsStraight.reject (r : Rejection) : IsStraight env (reject r : Emit α) := .throw _

/-- A fault is straight. -/
lemma IsStraight.bug (what : String) : IsStraight env (bug what : Emit α) := .throw _

/-- The environment is looked at. -/
lemma IsStraight.read {g : EmitEnv → Emit α} (h : IsStraight env (g env)) :
    IsStraight env (read >>= g) := h

/-- What is read of the builder is not its blocks. -/
lemma IsStraight.get {g : Builder → Emit α} (h : ∀ b, IsStraight env (g b))
    (hview : ∀ b b' : Builder, b.view = b'.view → g b = g b') : IsStraight env (get >>= g) := by
  intro σ
  have hrun : ∀ b : Builder, b.view = σ → (((MonadState.get : Emit Builder) >>= g).run env).run b =
      ((g σ.builder).run env).run b := fun b hb => by
    rw [hview σ.builder b hb.symm]
    rfl
  refine (h σ.builder σ).imp (fun ⟨p, hp, hops⟩ => ⟨p, fun b hb => ?_, hops⟩) fun ⟨x, hx⟩ =>
    ⟨x, fun b hb => ?_⟩
  · rw [hrun b hb, hp b hb]
  · rw [hrun b hb, hx b hb]

/-- What may be rejected first is straight. -/
lemma IsStraight.guard {c : Prop} [Decidable c] {r : Rejection} {f : Unit → Emit α}
    (h : IsStraight env (f ())) :
    IsStraight env (if c then Llvm.reject r >>= f else f ()) := by
  split
  · exact .bind (.reject r) fun _ => h
  · exact h

/-- Both alternatives are straight. -/
lemma IsStraight.ite {c : Prop} [Decidable c] {m' : Emit α} (h : IsStraight env m)
    (h' : IsStraight env m') : IsStraight env (if c then m else m') := by
  split
  · exact h
  · exact h'

/-- Each element of a list is straight. -/
lemma IsStraight.forM {γ : Type} {f : γ → Emit Unit} {as : List γ}
    (h : ∀ a ∈ as, IsStraight env (f a)) : IsStraight env (as.forM f) := by
  induction as with
  | nil => exact .pure
  | cons a as ih =>
    obtain ⟨ha, has⟩ := List.forall_mem_cons.1 h
    exact .bind ha fun _ => ih has

end Combinators

/-! ## Instructions between labels and jumps -/

section Straight

variable {env : EmitEnv}

/-- An instruction without a name is straight. -/
lemma isStraight_instr {op : Op} (h : op.name? = none) : IsStraight env (instr op) :=
  fun _ => .inl ⟨_, emits_instr op, List.forall_mem_singleton.2 h⟩

/-- Constants are straight. -/
lemma isStraight_constOf (c : Code.Const) : IsStraight env (constOf c) :=
  .ite .pure (.ite .pure (.ite (.reject _) .pure))

/-- Storing is straight. -/
lemma isStraight_storeTo (x y : Value) : IsStraight env (storeTo x y) := by
  have hstore : IsStraight env (do let _ ← instr (.store x y)) :=
    .bind (isStraight_instr rfl) fun _ => .pure
  unfold storeTo
  split
  · exact .guard hstore
  · exact .bind (.reject _) fun _ => hstore

/-- The value of an operand is straight. -/
lemma isStraight_value (o : Operand) : IsStraight env (value o) := by
  cases o with
  | const c => exact .bind (isStraight_constOf c) fun _ => .pure
  | reg r =>
    refine .get (fun b => ?_) fun b b' h => ?_
    · split
      · exact .pure
      · exact .read (.bug _)
    · rw [show b.regs = b'.regs from congrArg View.regs h]
  | var v => exact isStraight_instr rfl
  | slot s => exact .pure
  | absent => exact .bug _

/-- The values of operands are straight. -/
lemma isStraight_values : ∀ os : List Operand, IsStraight env (values os)
  | [] => .pure
  | o :: os => .bind (isStraight_value o) fun _ => .bind (isStraight_values os) fun _ => .pure

/-- Giving a value to an operand is straight. -/
lemma isStraight_define (o : Operand) (v : Value) : IsStraight env (define o v) := by
  cases o with
  | reg r =>
    refine fun σ => .inl ⟨⟨(), [], (r.id, v) :: σ.regs⟩, ?_, List.forall_mem_nil _⟩
    rintro b rfl
    exact congrArg (fun b' : Builder => Except.ok ((), { b' with regs := (r.id, v) :: b.regs }))
      b.add_nil.symm
  | var x => exact isStraight_storeTo v (varPlace x)
  | const c => exact .bug _
  | slot s => exact .bug _
  | absent => exact .bug _

/-- Looking up a type is straight. -/
lemma isStraight_typeOf (o : Operand) : IsStraight env (typeOf o) := by
  cases o with
  | absent => exact .reject _
  | _ => exact .pure

/-- Moving an address is straight. -/
lemma isStraight_moveAddress (x y : Value) : IsStraight env (moveAddress x y) := by
  unfold moveAddress
  refine .guard ?_
  split
  · exact isStraight_instr rfl
  · exact .reject _

/-- Addresses of operands are straight. -/
lemma isStraight_address (o : Operand) (off : Option Offset) : IsStraight env (address o off) :=
  .bind (isStraight_value o) fun _ => .ite .pure (isStraight_moveAddress _ _)

/-- Addresses of values are straight. -/
lemma isStraight_addressTo (x : Value) (t : VType) : IsStraight env (addressTo x t) :=
  isStraight_instr rfl

/-- Comparisons are straight. -/
lemma isStraight_compare (k : Code.Kind) (kind : AssignKind) (x y : Value) :
    IsStraight env (compare k kind x y) := by
  unfold compare
  split
  · exact isStraight_instr rfl
  · exact .reject _

/-- Narrowing is straight. -/
lemma isStraight_narrow (x : Value) (t : LType) : IsStraight env (narrow x t) := by
  unfold narrow
  exact .guard (isStraight_instr rfl)

/-- Conversions are straight. -/
lemma isStraight_convert (x : Value) (source target : VType) :
    IsStraight env (convert x source target) := by
  have hcast : ∀ word, IsStraight env (instr (.cast word x target.llvm)) :=
    fun word => isStraight_instr rfl
  unfold convert
  refine .ite .pure (.ite (.ite (hcast _) (hcast _)) (.ite (hcast _) (.ite (hcast _) ?_)))
  exact .ite .pure (.ite (isStraight_narrow _ _) (.ite (hcast _) (hcast _)))

/-- Spreading a value is straight. -/
lemma isStraight_splat (x : Value) (t : VType) : IsStraight env (splat x t) := by
  unfold splat
  split
  · exact .bind (isStraight_instr rfl) fun _ => isStraight_instr rfl
  · exact .reject _

/-- Assignments are straight. -/
lemma isStraight_assignment (kind : AssignKind) (dst : Operand) (args : List Operand) :
    IsStraight env (assignment kind dst args) := by
  refine .bind (isStraight_values args) fun vs => ?_
  dsimp only
  split
  case h_1 => exact .pure
  case h_2 | h_3 | h_4 | h_5 | h_6 | h_7 | h_8 | h_9 | h_15 => exact isStraight_instr rfl
  case h_10 =>
    exact .ite (isStraight_instr rfl) (.bind (isStraight_constOf _) fun _ => isStraight_instr rfl)
  case h_11 => exact .bind (isStraight_constOf _) fun _ => isStraight_instr rfl
  case h_12 => exact .bind (isStraight_typeOf _) fun _ => isStraight_convert _ _ _
  case h_13 => exact isStraight_moveAddress _ _
  case h_14 => exact .bind (isStraight_typeOf _) fun _ => isStraight_splat _ _
  case h_16 | h_17 | h_18 | h_19 | h_20 | h_21 => exact isStraight_compare _ _ _ _
  case h_22 => exact .reject _

/-- Taking a value apart is straight. -/
lemma isStraight_defineParts (v : Value) : ∀ (i : Nat) (os : List Operand),
    IsStraight env (defineParts v i os)
  | _, [] => .pure
  | i, o :: os => by
    unfold defineParts
    split
    · exact .reject _
    · refine .bind (isStraight_instr rfl) fun _ => .bind (isStraight_define _ _) fun _ => ?_
      exact isStraight_defineParts v _ os

/-- Calls are straight. -/
lemma isStraight_emitCall (callee : FuncDecl) (ins outs : List Operand) :
    IsStraight env (emitCall callee ins outs) := by
  refine .bind (isStraight_values ins) fun _ => .read ?_
  split
  · exact .bug _
  · refine .bind (isStraight_instr rfl) fun _ => ?_
    split
    · exact .pure
    · exact isStraight_define _ _
    · exact isStraight_defineParts _ _ _

/-- Collecting results is straight. -/
lemma isStraight_collect : ∀ (v : Value) (i : Nat) (os : List Operand),
    IsStraight env (collect v i os)
  | _, _, [] => .pure
  | v, i, o :: os => by
    refine .bind (isStraight_value o) fun w => ?_
    dsimp only
    split
    · exact .reject _
    · exact .guard (.bind (isStraight_instr rfl) fun _ => isStraight_collect _ _ os)

/-- **Instructions other than labels and jumps** are straight. -/
theorem isStraight_emitInstr {i : Code.Instr} (h : i.targets = []) :
    IsStraight env (emitInstr i) := by
  cases i with
  | label l => exact .read (.bug _)
  | goto l => cases h
  | branch c yes no => cases h
  | params => exact .read (.bug _)
  | results => exact .read (.bug _)
  | assign kind dst args => exact .bind (isStraight_assignment _ _ _) fun _ => isStraight_define _ _
  | load dst ptr o =>
    refine .bind (isStraight_typeOf dst) fun _ => .bind (isStraight_address ptr o) fun _ => ?_
    refine .bind (isStraight_addressTo _ _) fun _ => .bind (isStraight_instr rfl) fun _ => ?_
    exact isStraight_define _ _
  | store ptr o src =>
    refine .bind (isStraight_typeOf src) fun _ => .bind (isStraight_address ptr o) fun _ => ?_
    refine .bind (isStraight_addressTo _ _) fun _ => .bind (isStraight_value src) fun _ => ?_
    exact isStraight_storeTo _ _
  | lea dst ptr o => exact .bind (isStraight_address ptr o) fun _ => isStraight_define _ _
  | alloc dst n =>
    refine .bind (isStraight_value n) fun _ => .read (.bind (isStraight_instr rfl) fun _ => ?_)
    exact isStraight_define _ _
  | memcpy dst src n =>
    refine .bind (isStraight_values _) fun _ => .read (.bind (isStraight_instr rfl) fun _ => ?_)
    exact .pure
  | call f ins outs => exact isStraight_emitCall f ins outs

end Straight

/-! ## The beginning of a function -/

section Opening

variable {env : EmitEnv} {σ : View}

/-- The allocation of a variable. -/
def varAlloca (v : Code.Var) : Op :=
  .alloca (v.name ++ ".v" ++ toString (v.id - 1)) v.type.llvm none v.type.size.toUInt64

/-- The allocation of a stack slot. -/
def slotAlloca (s : Code.Slot) : Op :=
  .alloca (s.name ++ ".s" ++ toString (s.id - 1)) .byte (some (.int 64 s.size.toInt))
    (if s.align > 1 then s.align.toUInt64 else 0)

/-- Instructions that have no use are added one by one. -/
lemma emits_forM {γ : Type} {f : γ → Emit Unit} {op : γ → Op}
    (h : ∀ a, f a = (do let _ ← instr (op a))) :
    ∀ {σ : View} {as : List γ}, Emits env σ (as.forM f) ⟨(), as.map op, σ.regs⟩
  | _, [] => .pure
  | σ, a :: as => by
    have hinstr : Emits env σ (instr (op a)) _ := emits_instr (op a)
    have hone := hinstr.bind (f := fun _ => Pure.pure ()) .pure
    rw [List.append_nil] at hone
    have hall := hone.bind (f := fun _ => as.forM f) (emits_forM h)
    show Emits env σ (f a >>= fun _ => as.forM f) _
    rw [h a]
    exact hall

/-- Variables are allocated one by one. -/
lemma emits_allocateVars (vs : List Code.Var) :
    Emits env σ (allocateVars vs) ⟨(), vs.map varAlloca, σ.regs⟩ := emits_forM fun _ => rfl

/-- Slots are allocated one by one. -/
lemma emits_allocateSlots (ss : List Code.Slot) :
    Emits env σ (allocateSlots ss) ⟨(), ss.map slotAlloca, σ.regs⟩ := emits_forM fun _ => rfl

/-- Binding parameters is straight. -/
lemma isStraight_bindParams (ps : List Param) : ∀ (i : Nat) (os : List Operand),
    IsStraight env (bindParams ps i os)
  | _, [] => .pure
  | i, o :: os => by
    unfold bindParams
    split
    · exact .reject _
    · exact .bind (isStraight_define _ _) fun _ => isStraight_bindParams ps _ os

end Opening

end Lane.Llvm
