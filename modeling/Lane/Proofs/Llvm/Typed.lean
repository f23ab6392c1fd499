import Lane.Proofs.Llvm.Structure
import Lane.Proofs.Packing.Total

set_option relaxedAutoImplicit false
set_option autoImplicit false

/-!
# Well-typed code in LLVM

Emission gives every operand of well-typed code on scalars a value of its type, and never stops
between the parameters and the results of such code. The registers that hold values are those that
the code has assigned so far, in the order in which it assigned them.

## Main definitions

* `Lane.Llvm.Value.IsOf`: scalar values of a type.
* `Lane.Llvm.AreValues`: the values of the registers that were assigned.
* `Lane.Llvm.Gives`, `Lane.Llvm.AssignsTo`: computations that do not stop.
* `Lane.Llvm.IsTypedCode`: well-typed code on scalars that uses registers after they are assigned.
* `Lane.Llvm.EmitEnv.Serves`: environments in which the functions that are called are declared.
* `Lane.Llvm.CallsRuntime`: what is emitted for an allocation and for a copy.

## Main results

* `Lane.Llvm.emitInstr_assigns`: well-typed instructions are emitted, and assign values of the types
  of their registers.
* `Lane.Llvm.run_emitBody`: so is well-typed code.
* `Lane.Llvm.IsTypedCode.callsRuntime`: allocations and copies in such code call the functions of
  the runtime with values of the types that these take.
-/

namespace Lane.Llvm

open Lane.Code (Operand AssignKind Label Offset VType FuncDecl Reg Confined IsTidy)

/-! ## Values of registers -/

/-- **Scalar values** of a type: they are not listed lane by lane. -/
structure Value.IsOf (v : Value) (t : VType) : Prop where
  type_eq : v.type = t.llvm
  ne_vector : ∀ u elems, v ≠ .const (.vector u elems)

/-- **The values of registers** that were assigned in this order: the last is found first, and each
is of the type of its register. -/
def AreValues (vs : List (Nat × Value)) (rs : List Reg) : Prop :=
  List.Forall₂ (fun p r => p.1 = r.id ∧ p.2.IsOf r.type) vs rs.reverse

/-- **Operands that can be read**: scalars that are there, and that have a value if they are
registers. -/
structure IsReadable (vs : List (Nat × Value)) (o : Operand) : Prop where
  ne_absent : o ≠ .absent
  scalar : o.IsScalar
  has_value : ∀ r, o = .reg r → ∃ v, vs.lookup r.id = some v ∧ v.IsOf r.type

section Values

variable {vs vs' : List (Nat × Value)} {rs rs' : List Reg} {r : Reg} {key : Nat} {t : VType}

/-- The result of an instruction has the type of the instruction. -/
lemma isOf_result {u : LType} (h : u = t.llvm) : (Value.result key u).IsOf t := ⟨h, nofun⟩

/-- No registers have values. -/
lemma AreValues.nil : AreValues [] [] := List.Forall₂.nil

/-- Values of two lists of registers. -/
lemma AreValues.append (h : AreValues vs rs) (h' : AreValues vs' rs') :
    AreValues (vs' ++ vs) (rs ++ rs') := by
  unfold AreValues
  rw [List.reverse_append]
  exact List.rel_append h' h

/-- Registers with numbers of their own are found. -/
lemma exists_lookup : ∀ {vs : List (Nat × Value)} {rs : List Reg},
    List.Forall₂ (fun p r => p.1 = r.id ∧ p.2.IsOf r.type) vs rs → (rs.map Reg.id).Nodup → r ∈ rs →
    ∃ v, vs.lookup r.id = some v ∧ v.IsOf r.type
  | _, [], _, _, hr => by cases hr
  | p :: vs, r' :: rs, .cons ⟨hid, hp⟩ h, hn, hr => by
    obtain ⟨hnew, hn⟩ := List.nodup_cons.1 hn
    rw [List.lookup_cons, hid]
    obtain rfl | hr := List.mem_cons.1 hr
    · exact ⟨p.2, by simp, hp⟩
    · have hne : (r.id == r'.id) = false :=
        beq_eq_false_iff_ne.2 fun he => hnew (he ▸ List.mem_map_of_mem hr)
      rw [hne]
      exact exists_lookup h hn hr

/-- A register is found with a value of its type. -/
lemma AreValues.lookup (h : AreValues vs rs) (hn : (rs.map Reg.id).Nodup) (hr : r ∈ rs) :
    ∃ v, vs.lookup r.id = some v ∧ v.IsOf r.type := by
  refine exists_lookup h ?_ (List.mem_reverse.2 hr)
  rw [List.map_reverse]
  exact List.nodup_reverse.2 hn

end Values

/-! ## Computations that do not stop -/

/-- **Computations that give a value** like this. They add instructions, and assign no register. -/
def Gives {α : Type} (env : EmitEnv) (σ : View) (m : Emit α) (R : α → Prop) : Prop :=
  ∃ p, Emits env σ m p ∧ p.regs = σ.regs ∧ R p.value

/-- **Computations that assign** values to these registers. -/
def AssignsTo (env : EmitEnv) (σ : View) (m : Emit Unit) (rs : List Reg) : Prop :=
  ∃ p vs, Emits env σ m p ∧ p.regs = vs ++ σ.regs ∧ AreValues vs rs

section Combinators

variable {env : EmitEnv} {α β : Type} {σ : View} {m : Emit α} {f : α → Emit β} {R : α → Prop}
  {S : β → Prop} {rs rs' : List Reg}

/-- A result that is known. -/
lemma Gives.pure {a : α} (h : R a) : Gives env σ (pure a) R := ⟨_, .pure, rfl, h⟩

/-- An instruction gives its result. -/
lemma Gives.instr (op : Op) : Gives env σ (instr op) fun v => ∃ key, v = .result key op.type :=
  ⟨_, emits_instr op, rfl, _, rfl⟩

/-- What follows sees the same registers. -/
lemma View.after_of_regs_eq {p : Piece α} (h : p.regs = σ.regs) :
    σ.after p = { σ with made := σ.made + p.ops.length } := by
  rw [View.after, h]

/-- One emission after the other gives what the second gives. -/
lemma Gives.bind (hm : Gives env σ m R)
    (hf : ∀ a n, R a → Gives env { σ with made := n } (f a) S) : Gives env σ (m >>= f) S := by
  obtain ⟨p, hp, hregs, hR⟩ := hm
  obtain ⟨q, hq, hregs', hS⟩ := hf p.value (σ.made + p.ops.length) hR
  exact ⟨_, hp.bind (View.after_of_regs_eq hregs ▸ hq), hregs', hS⟩

/-- Less may be said about what is given. -/
lemma Gives.weaken {R' : α → Prop} (h : Gives env σ m R) (hR : ∀ a, R a → R' a) :
    Gives env σ m R' := by
  obtain ⟨p, hp, hregs, ha⟩ := h
  exact ⟨p, hp, hregs, hR _ ha⟩

/-- What is given is assigned to registers. -/
lemma Gives.assigns {f : α → Emit Unit} (hm : Gives env σ m R)
    (hf : ∀ a n, R a → AssignsTo env { σ with made := n } (f a) rs) :
    AssignsTo env σ (m >>= f) rs := by
  obtain ⟨p, hp, hregs, hR⟩ := hm
  obtain ⟨q, vs, hq, hregs', hvs⟩ := hf p.value (σ.made + p.ops.length) hR
  exact ⟨_, vs, hp.bind (View.after_of_regs_eq hregs ▸ hq), hregs', hvs⟩

/-- Both alternatives give the same. -/
lemma Gives.ite {c : Prop} [Decidable c] {m' : Emit α} (h : c → Gives env σ m R)
    (h' : ¬ c → Gives env σ m' R) : Gives env σ (if c then m else m') R := by
  split
  · exact h ‹_›
  · exact h' ‹_›

/-- Nothing is assigned. -/
lemma AssignsTo.pure : AssignsTo env σ (pure ()) [] := ⟨_, [], .pure, rfl, .nil⟩

/-- The environment is looked at. -/
lemma AssignsTo.read {g : EmitEnv → Emit Unit} (h : AssignsTo env σ (g env) rs) :
    AssignsTo env σ (read >>= g) rs := h

/-- Registers are assigned one after the other. -/
lemma AssignsTo.bind {m : Emit Unit} {f : Unit → Emit Unit} (hm : AssignsTo env σ m rs)
    (hf : ∀ σ, AssignsTo env σ (f ()) rs') : AssignsTo env σ (m >>= f) (rs ++ rs') := by
  obtain ⟨p, vs, hp, hregs, hvs⟩ := hm
  obtain ⟨q, vs', hq, hregs', hvs'⟩ := hf (σ.after p)
  refine ⟨_, vs' ++ vs, hp.bind hq, ?_, hvs.append hvs'⟩
  rw [List.append_assoc, ← hregs]
  exact hregs'

end Combinators

/-! ## Types -/

section Types

variable {t u : VType}

/-- The type of a scalar in LLVM. -/
lemma llvm_of_lanes (h : t.lanes = 0) : t.llvm = t.kind.llvm := by
  simp [VType.llvm, VType.isVector, h]

/-- The type of a kind is the same as itself. -/
lemma same_kind (k : Code.Kind) : k.llvm.same k.llvm = true := by
  cases k <;> simp [Code.Kind.llvm, LType.same, LType.bytePtr, LType.byte]

/-- A type in LLVM is the same as itself. -/
lemma same_llvm (t : VType) : t.llvm.same t.llvm = true := by
  unfold VType.llvm
  split
  · simp [LType.same, same_kind]
  · exact same_kind _

/-- Integers and truth values have the type of their bits. -/
lemma llvm_of_bits {k : Code.Kind} (hr : k.isReal = false) (hp : k ≠ .ptr) :
    k.llvm = .int k.bits := by
  cases k <;> first | rfl | exact absurd rfl hp | cases hr

/-- Scalars of a type are compared. -/
lemma compareType?_llvm (h : t.lanes = 0) :
    compareType? t.kind.isReal t.llvm = some VType.bool.llvm := by
  rw [llvm_of_lanes h]
  cases t.kind <;> rfl

/-- The type of a scalar constant. -/
lemma type_scalarConst (c : Code.Const) : (scalarConst c).type = c.type.kind.llvm := by
  unfold scalarConst
  cases c.type.kind <;> rfl

/-- A scalar constant is no vector. -/
lemma scalarConst_ne_vector (c : Code.Const) (u : LType) (elems : List Const) :
    scalarConst c ≠ .vector u elems := by
  unfold scalarConst
  split <;> nofun

end Types

/-! ## Instructions -/

/-- The instructions that read an operand: variables are loaded. -/
def loadsOf : Operand → List Op
  | .var v => [.load v.type.llvm (varPlace v)]
  | _ => []

section Operands

variable {env : EmitEnv} {σ : View} {o d : Operand} {os : List Operand} {v x y : Value} {t : VType}

/-- A constant is given by its type. -/
lemma gives_constOf {c : Code.Const} (h : c.type.lanes = 0) :
    Gives env σ (constOf c) fun k => (Value.const k).IsOf c.type := by
  have hconst : constOf c = pure (scalarConst c) := by simp [constOf, VType.isVector, h]
  rw [hconst]
  refine .pure ⟨?_, fun u elems he => scalarConst_ne_vector c u elems (Value.const.inj he)⟩
  rw [llvm_of_lanes h]
  exact type_scalarConst c

/-- **What reads an operand**: a load if it is a variable, and nothing if it is not. -/
lemma emits_value (env : EmitEnv) (h : IsReadable σ.regs o) :
    ∃ v, Emits env σ (value o) ⟨v, loadsOf o, σ.regs⟩ ∧ v.IsOf o.type := by
  cases o with
  | const c =>
    refine ⟨.const (scalarConst c), ?_, ?_, fun u elems he =>
      scalarConst_ne_vector c u elems (Value.const.inj he)⟩
    · have hconst : value (.const c) = pure (.const (scalarConst c)) := by
        simp [value, constOf, VType.isVector, show c.type.lanes = 0 from h.scalar]
      rw [hconst]
      exact .pure
    · rw [llvm_of_lanes h.scalar]
      exact type_scalarConst c
  | reg r =>
    obtain ⟨v, hv, ht⟩ := h.has_value r rfl
    refine ⟨v, ?_, ht⟩
    rintro b rfl
    unfold value
    rw [run_bind_of_ok (show ((get : Emit Builder).run env).run b = .ok (b, b) from rfl),
      show b.regs.lookup r.id = some v from hv]
    exact Emits.pure b rfl
  | var v => exact ⟨_, emits_instr _, isOf_result rfl⟩
  | slot s => exact ⟨_, .pure, rfl, fun _ _ he => by cases he⟩
  | absent => exact absurd rfl h.ne_absent

/-- An operand that can be read has a value of its type. -/
lemma gives_value (h : IsReadable σ.regs o) : Gives env σ (value o) (·.IsOf o.type) := by
  obtain ⟨v, hv, ht⟩ := emits_value env h
  exact ⟨_, hv, rfl, ht⟩

/-- Operands that can be read are loaded one by one. -/
lemma emits_values (env : EmitEnv) : ∀ {os : List Operand} {σ : View},
    (∀ o ∈ os, IsReadable σ.regs o) → ∃ vs, Emits env σ (values os)
      ⟨vs, os.flatMap loadsOf, σ.regs⟩ ∧ List.Forall₂ Value.IsOf vs (os.map Operand.type)
  | [], _, _ => ⟨[], .pure, .nil⟩
  | o :: os, σ, h => by
    obtain ⟨ho, hos⟩ := List.forall_mem_cons.1 h
    obtain ⟨v, hv, ht⟩ := emits_value env ho
    obtain ⟨vs, hvs, hts⟩ := emits_values env (σ := σ.after ⟨v, loadsOf o, σ.regs⟩) hos
    have hrest := hvs.bind (f := fun vs => Pure.pure (v :: vs)) .pure
    rw [List.append_nil] at hrest
    exact ⟨v :: vs, hv.bind (f := fun v => do return v :: (← values os)) hrest, .cons ht hts⟩

/-- Operands that can be read have values of their types. -/
lemma gives_values (h : ∀ o ∈ os, IsReadable σ.regs o) :
    Gives env σ (values os) fun vs => List.Forall₂ Value.IsOf vs (os.map Operand.type) := by
  obtain ⟨vs, hvs, ht⟩ := emits_values env h
  exact ⟨_, hvs, rfl, ht⟩

/-- A value is stored at a pointer to its type. -/
lemma gives_storeTo (hx : x.type = t.llvm) (hy : y.type = .ptr t.llvm) :
    Gives env σ (storeTo x y) fun _ => True := by
  have hstore : Gives env σ (do let _ ← instr (.store x y)) fun _ => True :=
    .bind (.instr _) fun _ _ _ => .pure trivial
  unfold storeTo
  rw [hy, hx]
  simpa [same_llvm] using hstore

/-- A value for a register. -/
lemma emits_define_reg (r : Reg) (v : Value) :
    Emits env σ (define (.reg r) v) ⟨(), [], (r.id, v) :: σ.regs⟩ := by
  rintro b rfl
  exact congrArg (fun b' : Builder => Except.ok ((), { b' with regs := (r.id, v) :: b.regs }))
    b.add_nil.symm

/-- **A value for a register or a variable**. -/
lemma define_assigns (ho : o.IsTarget) (hv : v.IsOf o.type) :
    AssignsTo env σ (define o v) o.reg?.toList := by
  cases o with
  | reg r => exact ⟨_, [(r.id, v)], emits_define_reg r v, rfl, .cons ⟨rfl, hv⟩ .nil⟩
  | var w =>
    obtain ⟨p, hp, hregs, -⟩ : Gives env σ (storeTo v (varPlace w)) fun _ => True :=
      gives_storeTo hv.type_eq rfl
    exact ⟨p, [], hp, hregs, .nil⟩
  | const | slot | absent => exact ho.elim

/-- The type of what is not absent is given. -/
lemma gives_typeOf (h : o ≠ .absent) : Gives env σ (typeOf o) (· = o.type) := by
  cases o with
  | absent => exact absurd rfl h
  | _ => exact .pure rfl

/-! ### Addresses -/

/-- An address that is moved is an address. -/
lemma gives_moveAddress (hx : x.type = .bytePtr) (hy : y.IsOf .index) :
    Gives env σ (moveAddress x y) (·.IsOf .ptr) := by
  have hindex : isIndex y = true ∧ indexLanes? y = none := by
    obtain ⟨ht, hne⟩ := hy
    match y with
    | .const (.vector u elems) => exact absurd rfl (hne u elems)
    | .const (.real s _) => cases s <;> cases ht
    | .const .null => cases ht
    | .const (.int n k) => exact ⟨rfl, rfl⟩
    | .const (.zero u) => exact ⟨rfl, rfl⟩
    | .const (.undef u) | .param _ u | .named _ u | .result _ u =>
      obtain rfl : u = .int 64 := ht
      exact ⟨rfl, rfl⟩
  have hmove : moveAddress x y = instr (.gep .bytePtr x y) := by
    simp [moveAddress, hindex.1, addressType?, hx, hindex.2, LType.bytePtr, LType.byte]
  rw [hmove]
  refine (Gives.instr _).weaken ?_
  rintro _ ⟨key, rfl⟩
  exact isOf_result rfl

/-- The address of an operand that can be read. -/
lemma gives_address (h : IsReadable σ.regs o) (ht : o.type = .ptr) (off : Option Offset) :
    Gives env σ (address o off) (·.IsOf .ptr) := by
  refine .bind (gives_value h) fun p n hp => ?_
  rw [ht] at hp
  split
  · exact .pure hp
  · exact gives_moveAddress hp.type_eq ⟨rfl, nofun⟩

/-! ### Assignments -/

/-- Arithmetic gives a value of the same type. -/
lemma gives_binary (word : String) (hx : x.IsOf t) :
    Gives env σ (instr (.binary word x y)) (·.IsOf t) := by
  refine (Gives.instr _).weaken ?_
  rintro _ ⟨key, rfl⟩
  exact isOf_result hx.type_eq

/-- A comparison gives a truth value. -/
lemma gives_compare (kind : AssignKind) (ht : t.lanes = 0) (hx : x.IsOf t) :
    Gives env σ (compare t.kind kind x y) (·.IsOf .bool) := by
  unfold compare
  rw [hx.type_eq, compareType?_llvm ht]
  refine (Gives.instr _).weaken ?_
  rintro _ ⟨key, rfl⟩
  exact isOf_result rfl

/-- A conversion gives a value of its target. -/
lemma gives_convert {s : VType} (hs : s.IsNumber) (ht : t.IsNumber) (hx : x.IsOf s) :
    Gives env σ (convert x s t) (·.IsOf t) := by
  obtain ⟨a, rfl, -, ha⟩ := hs
  obtain ⟨b, rfl, -, hb⟩ := ht
  have hcast : ∀ word, Gives env σ (instr (.cast word x (VType.scalar b).llvm))
      (·.IsOf (.scalar b)) := fun word => by
    refine (Gives.instr _).weaken ?_
    rintro _ ⟨key, rfl⟩
    exact isOf_result rfl
  have hx' : x.type = (VType.scalar a).kind.llvm := hx.type_eq
  have hab : ∀ {k : Code.Kind}, (VType.scalar k).kind.isReal = false → k ≠ .ptr →
      (VType.scalar k).kind.llvm = .int (VType.scalar k).kind.bits := fun h h' => llvm_of_bits h h'
  unfold convert
  refine .ite (fun heq => ?_) fun _ => .ite (fun _ => .ite (fun _ => hcast _) fun _ => hcast _)
    fun _ => .ite (fun _ => hcast _) fun hra => .ite (fun _ => hcast _) fun hrb =>
      .ite (fun hbits => ?_) fun _ => .ite (fun hlt => ?_) fun _ => .ite (fun _ => hcast _)
        fun _ => hcast _
  · obtain rfl : a = b := heq
    exact .pure hx
  · refine .pure ⟨?_, hx.ne_vector⟩
    rw [hx', hab (Bool.eq_false_iff.2 hra) ha, llvm_of_lanes rfl, hab (Bool.eq_false_iff.2 hrb) hb]
    exact congrArg LType.int hbits
  · have hnarrows : narrows x.type (VType.scalar b).llvm = true := by
      rw [hx', hab (Bool.eq_false_iff.2 hra) ha, llvm_of_lanes rfl,
        hab (Bool.eq_false_iff.2 hrb) hb]
      exact decide_eq_true (Nat.le_of_lt hlt)
    unfold narrow
    simpa [hnarrows] using hcast "trunc"

/-- **Computations of well-typed assignments** give values of the type of the destination. -/
lemma gives_assignment {kind : AssignKind} {args : List Operand} (hd : d ≠ .absent)
    (hc : kind.Computes d.type (args.map Operand.type)) (hargs : ∀ o ∈ args, IsReadable σ.regs o) :
    Gives env σ (assignment kind d args) (·.IsOf d.type) := by
  refine .bind (gives_values hargs) fun vs n hvs => ?_
  have hsource : (args.head?.map Operand.type).getD .bool =
      (args.map Operand.type).head?.getD .bool := by rw [List.head?_map]
  have hlanes : ∀ t ∈ args.map Operand.type, t.lanes = 0 :=
    List.forall_mem_map.2 fun o ho => (hargs o ho).scalar
  -- The case on the kind needs the types of the arguments as a list of their own.
  dsimp only
  rw [hsource]
  revert hc hvs hlanes
  generalize args.map Operand.type = ts
  intro hc hvs hlanes
  cases kind with
  | move =>
    obtain rfl := hc
    obtain _ | ⟨hx, _ | _⟩ := hvs
    exact .pure hx
  | add | sub | mul | div | rem | and | or | xor =>
    obtain rfl := hc
    obtain _ | ⟨hx, _ | ⟨hy, _ | _⟩⟩ := hvs
    exact gives_binary _ hx
  | neg =>
    obtain rfl := hc
    obtain _ | ⟨hx, _ | _⟩ := hvs
    refine .ite (fun _ => ?_) fun _ => ?_
    · refine (Gives.instr _).weaken ?_
      rintro _ ⟨key, rfl⟩
      exact isOf_result hx.type_eq
    · exact .bind (gives_constOf (c := .zero d.type) (hlanes _ List.mem_cons_self))
        fun c n hc => gives_binary _ hc
  | not =>
    obtain rfl := hc
    obtain _ | ⟨hx, _ | _⟩ := hvs
    have hones : (allOnes d.type).type = d.type := by
      unfold allOnes
      split <;> rfl
    exact .bind (gives_constOf (c := allOnes d.type) (by
      rw [hones]
      exact hlanes _ List.mem_cons_self)) fun c n _ => gives_binary _ hx
  | eq | ne | lt | le | gt | ge =>
    obtain ⟨hbool, u, rfl⟩ := hc
    obtain _ | ⟨hx, _ | ⟨hy, _ | _⟩⟩ := hvs
    rw [hbool]
    exact gives_compare _ (hlanes _ List.mem_cons_self) hx
  | convert =>
    obtain ⟨hnum, u, hu, rfl⟩ := hc
    obtain _ | ⟨hx, _ | _⟩ := hvs
    refine .bind (gives_typeOf hd) fun t n ht => ?_
    obtain rfl := ht
    exact gives_convert hu hnum hx
  | ptrAdd =>
    obtain ⟨hptr, rfl⟩ := hc
    obtain _ | ⟨hx, _ | ⟨hy, _ | _⟩⟩ := hvs
    rw [hptr]
    exact gives_moveAddress hx.type_eq hy
  | splat | select => exact hc.elim

end Operands

/-! ### Calls -/

/-- **Functions that match**: they have the same name, and take and return the same types. -/
structure Function.Matches (f g : Function) : Prop where
  name_eq : f.name = g.name
  result_eq : f.result = g.result
  params_eq : f.params.map Param.type = g.params.map Param.type

/-- **What emission relies on**: the functions `D` are declared, and those of the runtime are what
it takes them for. -/
structure EmitEnv.Serves (env : EmitEnv) (D : FuncDecl → Prop) : Prop where
  calls : ∀ d, D d → env.functions.lookup d.id = some (declared d)
  malloc : env.malloc.Matches mallocDecl
  memcpy : env.memcpy.Matches memcpyDecl

section Instructions

variable {env : EmitEnv} {D : FuncDecl → Prop} {σ : View} {i : Code.Instr}

/-- A call gives the result of its function. -/
lemma gives_call (f : Function) (args : List Value) :
    Gives env σ (callFunction f args) fun v => ∃ key, v = .result key f.result := .instr _

/-- The parts of what a function returns are assigned in order. -/
lemma defineParts_assigns {v : Value} {fields : List LType} (hv : v.type = .struct "" fields) :
    ∀ {i : Nat} {os : List Operand} {ts : List VType} {σ : View},
    List.Forall₂ Operand.HasType os ts → (∀ o ∈ os, o.IsTarget) →
    fields.drop i = ts.map VType.llvm →
    AssignsTo env σ (defineParts v i os) (os.filterMap Operand.reg?) := by
  intro i os ts σ h
  induction h generalizing i σ with
  | nil => exact fun _ _ => .pure
  | @cons o t os ts ho _ ih =>
    intro htargets hfields
    obtain ⟨htarget, htargets⟩ := List.forall_mem_cons.1 htargets
    have hpart : partType? v.type i = some t.llvm := by
      rw [hv]
      show fields[i]? = _
      rw [← Nat.add_zero i, ← List.getElem?_drop, hfields]
      rfl
    have hrest : fields.drop (i + 1) = ts.map VType.llvm := by
      rw [← List.drop_drop, hfields]
      rfl
    have hregs : (o :: os).filterMap Operand.reg? = o.reg?.toList ++ os.filterMap Operand.reg? := by
      cases o <;> rfl
    unfold defineParts
    rw [hpart, hregs]
    refine Gives.assigns (.instr _) ?_
    rintro _ n ⟨key, rfl⟩
    exact (define_assigns htarget (isOf_result (congrArg VType.llvm ho.2.symm))).bind
      fun _ => ih htargets hrest

/-- A call assigns the registers into which it returns. -/
lemma emitCall_assigns (hs : env.Serves D) {callee : FuncDecl} {ins outs : List Operand}
    (hD : D callee) (hins : ∀ o ∈ ins, IsReadable σ.regs o)
    (houts : List.Forall₂ Operand.HasType outs callee.results) (htargets : ∀ o ∈ outs, o.IsTarget) :
    AssignsTo env σ (emitCall callee ins outs) (outs.filterMap Operand.reg?) := by
  refine Gives.assigns (gives_values hins) fun args n _ => AssignsTo.read ?_
  simp only [hs.calls _ hD]
  refine Gives.assigns (gives_call _ _) ?_
  rintro _ n ⟨key, rfl⟩
  generalize hts : callee.results = ts at houts
  cases houts with
  | nil => exact .pure
  | @cons o t os ts ho hrest =>
    cases hrest with
    | nil =>
      have hone : resultType callee = o.type.llvm := by
        rw [resultType, hts, ho.2]
      have hregs : [o].filterMap Operand.reg? = o.reg?.toList := by cases o <;> rfl
      rw [hregs]
      exact define_assigns (htargets o List.mem_cons_self) (isOf_result hone)
    | @cons o' t' os ts ho' hrest =>
      have hall : resultType callee = .struct "" ((t :: t' :: ts).map VType.llvm) := by
        rw [resultType, hts]
      exact defineParts_assigns (v := .result key (declared callee).result) hall
        (.cons ho (.cons ho' hrest)) htargets rfl

/-- The operands that a well-typed instruction uses are there. -/
lemma ne_absent_of_uses (hi : i.WellTyped D) : ∀ o ∈ i.uses, o ≠ .absent := by
  cases i with
  | branch c yes no => exact List.forall_mem_singleton.2 hi.1
  | assign kind d args => exact hi.2.1
  | load d p o => exact List.forall_mem_singleton.2 hi.2.1.1
  | lea d p o => exact List.forall_mem_singleton.2 hi.2.2.1
  | store p o s => exact List.forall_mem_cons.2 ⟨hi.2.1.1, List.forall_mem_singleton.2 hi.1⟩
  | alloc d n => exact List.forall_mem_singleton.2 hi.2.2.1
  | memcpy d s n =>
    exact List.forall_mem_cons.2 ⟨hi.1.1, List.forall_mem_cons.2
      ⟨hi.2.1.1, List.forall_mem_singleton.2 hi.2.2.1⟩⟩
  | call f ins outs => exact Packing.ne_absent_of_forall₂ hi.2.1
  | _ => exact List.forall_mem_nil _

/-- An address as one of values of a type. -/
lemma gives_addressTo (x : Value) (t : VType) :
    Gives env σ (addressTo x t) fun v => ∃ key, v = .result key (.ptr t.llvm) := .instr _

/-- **Well-typed instructions** are emitted, unless they are labels or jumps, and assign values of
the types of their registers. -/
theorem emitInstr_assigns (hs : env.Serves D) (hi : i.WellTyped D) (hstraight : i.isStraight)
    (hread : ∀ o ∈ i.uses, IsReadable σ.regs o) : AssignsTo env σ (emitInstr i) i.defines := by
  have hdefines : ∀ {d : Operand}, i.dst? = some d → i.defines = d.reg?.toList := by
    intro d hd
    cases i <;> cases hd <;> cases d <;> rfl
  cases i with
  | assign kind d args =>
    rw [hdefines rfl]
    exact Gives.assigns (gives_assignment hi.1.ne_absent hi.2.2 hread)
      fun v n hv => define_assigns hi.1 hv
  | load d p o =>
    rw [hdefines rfl]
    refine Gives.assigns (gives_typeOf hi.1.ne_absent) fun t n ht => ?_
    subst ht
    refine Gives.assigns (gives_address (σ := { σ with made := n }) (hread p List.mem_cons_self)
      hi.2.1.2 o) fun a n ha => ?_
    refine Gives.assigns (gives_addressTo a d.type) fun a n _ => ?_
    refine Gives.assigns (.instr _) ?_
    rintro _ n ⟨key, rfl⟩
    exact define_assigns hi.1 (isOf_result rfl)
  | store p o s =>
    obtain ⟨hp, hsrc⟩ := List.forall_mem_cons.1 hread
    refine Gives.assigns (gives_typeOf hi.1) fun t n ht => ?_
    subst ht
    refine Gives.assigns (gives_address (σ := { σ with made := n }) hp hi.2.1.2 o) fun a n ha => ?_
    refine Gives.assigns (gives_addressTo a s.type) ?_
    rintro _ n ⟨key, rfl⟩
    refine Gives.assigns (gives_value (σ := { σ with made := n }) (hsrc s List.mem_cons_self))
      fun v n hv => ?_
    obtain ⟨q, hq, hregs, -⟩ : Gives env { σ with made := n }
      (storeTo v (.result key (.ptr s.type.llvm))) fun _ => True := gives_storeTo hv.type_eq rfl
    exact ⟨q, [], hq, hregs, .nil⟩
  | lea d p o =>
    rw [hdefines rfl]
    refine Gives.assigns (gives_address (hread p List.mem_cons_self) hi.2.2.2 o) fun a n ha => ?_
    exact define_assigns hi.1 (hi.2.1 ▸ ha)
  | alloc d n =>
    rw [hdefines rfl]
    refine Gives.assigns (gives_value (hread n List.mem_cons_self)) fun v m _ => .read ?_
    refine Gives.assigns (gives_call _ _) ?_
    rintro _ m ⟨key, rfl⟩
    exact define_assigns hi.1 (isOf_result (hi.2.1 ▸ hs.malloc.result_eq))
  | memcpy d s n =>
    refine Gives.assigns (gives_values hread) fun vs m _ => .read ?_
    exact Gives.assigns (gives_call _ _) fun _ _ _ => .pure
  | call f ins outs => exact emitCall_assigns hs hi.1 hread hi.2.2.1 hi.2.2.2
  | _ => cases hstraight

end Instructions

/-! ## Code -/

/-- **Well-typed code on scalars**: it is not of a frame, registers are assigned once and used after
they are assigned, and the addresses of memory that is allocated are in registers. -/
structure IsTypedCode (D : FuncDecl → Prop) (code : List Code.Instr) : Prop where
  typed : ∀ i ∈ code, i.WellTyped D
  scalar : ∀ i ∈ code, ∀ o ∈ i.uses, o.IsScalar
  inner : ∀ i ∈ code, i.isOfFrame = false
  confined : Confined [] code
  numbers_nodup : ((code.flatMap Code.Instr.defines).map Reg.id).Nodup
  fresh : ∀ d n, .alloc d n ∈ code → ∃ r, d = .reg r

section Code

variable {env : EmitEnv} {D : FuncDecl → Prop} {b b' : Builder} {i : Code.Instr}
  {code before after : List Code.Instr} {vs : List (Nat × Value)}

/-- **What an instruction uses can be read** once the code before it has assigned its registers. -/
lemma IsTypedCode.readable (h : IsTypedCode D code) (hsplit : code = before ++ i :: after)
    (hvs : AreValues vs (before.flatMap Code.Instr.defines)) : ∀ o ∈ i.uses, IsReadable vs o := by
  have hi : i ∈ code := by simp [hsplit]
  have hn := h.numbers_nodup
  rw [hsplit, List.flatMap_append, List.map_append] at hn
  refine fun o ho => ⟨ne_absent_of_uses (h.typed i hi) o ho, h.scalar i hi o ho, ?_⟩
  rintro r rfl
  obtain ⟨earlier, d, between, hbefore, hd, -⟩ := (hsplit ▸ h.confined).exists_defines ho
  exact hvs.lookup hn.of_append_left (List.mem_flatMap.2 ⟨d, by simp [hbefore], hd⟩)

/-- **One instruction** of well-typed code is emitted. -/
lemma exists_emitStep (hs : env.Serves D) (hi : i.WellTyped D) (hframe : i.isOfFrame = false)
    (hread : ∀ o ∈ i.uses, IsReadable b.regs o) :
    ∃ b' vs, ((emitStep i).run env).run b = .ok ((), b') ∧ b'.regs = vs ++ b.regs ∧
      AreValues vs i.defines := by
  have hregs : ∀ {c : Builder}, c.view = b.view → c.regs = [] ++ b.regs := fun h =>
    congrArg View.regs h
  cases hstraight : i.isStraight with
  | true =>
    obtain ⟨p, vs, hp, hvs, hassigns⟩ := emitInstr_assigns (σ := b.view) hs hi hstraight hread
    have hi : i.isLabel = false ∧ i.isResults = false := by
      cases i <;> first | exact ⟨rfl, rfl⟩ | cases hstraight
    exact ⟨_, vs, (run_emitStep hi.1 hi.2).trans (hp _ b.view_opened), hvs, hassigns⟩
  | false =>
    cases i with
    | label l => exact ⟨_, [], run_enter l, hregs (b.view_entered l), .nil⟩
    | goto l =>
      refine ⟨(b.opened.need l).ended (.jump ((b.opened.need l).place l)), [], ?_,
        hregs (c := b.opened.need l) (Builder.view_need.trans b.view_opened), .nil⟩
      rw [run_emitStep rfl rfl, emitInstr, run_bind_of_ok (run_blockOf l)]
      rfl
    | branch c yes no =>
      obtain ⟨v, hv, -⟩ := emits_value env (σ := b.view) (hread c List.mem_cons_self)
      have hadd : (b.opened.add (loadsOf c) b.regs).view.regs = b.regs := rfl
      let c' := ((b.opened.add (loadsOf c) b.regs).need yes).need no
      refine ⟨c'.ended (.branch v (((b.opened.add (loadsOf c) b.regs).need yes).place yes)
        (c'.place no)), [], ?_, ?_, .nil⟩
      · rw [run_emitStep rfl rfl, emitInstr, run_bind_of_ok (hv _ b.view_opened),
          run_bind_of_ok (run_blockOf yes), run_bind_of_ok (run_blockOf no)]
        rfl
      · exact (congrArg View.regs (Builder.view_need.trans Builder.view_need)).trans hadd
    | params | results => cases hframe
    | _ => cases hstraight

/-- **Well-typed code is emitted**, and every register gets a value of its type.

**Proof sketch.** Induction on the code. What an instruction uses was assigned before in the same
code, so it can be read, and `emitInstr_assigns` is about the instruction. -/
theorem run_emitBody (hs : env.Serves D) (h : IsTypedCode D code) :
    ∀ {is before : List Code.Instr} {b : Builder}, code = before ++ is ++ after →
    AreValues b.regs (before.flatMap Code.Instr.defines) →
    ∃ b', ((emitBody is).run env).run b = .ok ((), b') ∧
      AreValues b'.regs ((before ++ is).flatMap Code.Instr.defines)
  | [], before, b, _, hvs => ⟨b, rfl, (List.append_nil before).symm ▸ hvs⟩
  | i :: is, before, b, hsplit, hvs => by
    have hsplit' : code = before ++ i :: (is ++ after) := by simp [hsplit]
    have hi : i ∈ code := by simp [hsplit]
    obtain ⟨c, us, hc, hregs, hus⟩ := exists_emitStep (b := b) hs (h.typed i hi) (h.inner i hi)
      (h.readable hsplit' hvs)
    have hnext : AreValues c.regs ((before ++ [i]).flatMap Code.Instr.defines) := by
      rw [hregs, List.flatMap_append]
      exact hvs.append (by simpa using hus)
    have hsplit'' : code = before ++ [i] ++ is ++ after := by simp [hsplit]
    obtain ⟨b', hb', hvs'⟩ := run_emitBody hs h hsplit'' hnext
    refine ⟨b', ?_, by simpa using hvs'⟩
    rw [emitBody_cons, run_bind_of_ok hc]
    exact hb'

/-! ## The beginning of a function -/

/-- Variables can be stored to without a change of registers. -/
lemma regs_of_storeTo {x y : Value} (hrun : ((storeTo x y).run env).run b = .ok ((), b')) :
    b'.regs = b.regs := by
  have hstore : ∀ {c}, ((do let _ ← instr (.store x y)).run env).run b = .ok ((), c) →
      c.regs = b.regs := by
    intro c hc
    obtain rfl := (Prod.mk.inj (Except.ok.inj hc)).2
    rfl
  unfold storeTo at hrun
  split at hrun
  · split at hrun
    · cases hrun
    · exact hstore hrun
  · cases hrun

/-- Parameters that are variables get values without a change of registers. -/
lemma regs_of_bindParams {ps : List Param} : ∀ {k : Nat} {os : List Operand} {b b' : Builder},
    (∀ o ∈ os, ∃ v, o = .var v) → ((bindParams ps k os).run env).run b = .ok ((), b') →
    b'.regs = b.regs
  | _, [], b, b', _, hrun => by
    obtain rfl := (Prod.mk.inj (Except.ok.inj hrun)).2
    rfl
  | k, o :: os, b, b', hos, hrun => by
    obtain ⟨⟨v, rfl⟩, hrest⟩ := List.forall_mem_cons.1 hos
    unfold bindParams at hrun
    split at hrun
    · cases hrun
    · rename_i a _
      obtain ⟨⟨⟩, c, hdefine, hbind⟩ := of_run_bind hrun
      have hstore : c.regs = b.regs :=
        regs_of_storeTo (x := .param k a.type) (y := varPlace v) hdefine
      exact (regs_of_bindParams hrest hbind).trans hstore

/-- The opening of a function assigns no registers. -/
lemma regs_of_emitOpening {f : Code.Function} (hps : ∀ o ∈ f.params, ∃ v, o = .var v)
    (hrun : ((emitOpening f).run env).run b = .ok ((), b')) : b'.regs = b.regs := by
  unfold emitOpening at hrun
  rw [run_bind_of_ok (emits_allocateVars f.vars b rfl)] at hrun
  rw [run_bind_of_ok (emits_allocateSlots f.slots _ rfl)] at hrun
  exact (regs_of_bindParams hps hrun).trans rfl

/-- **Registers have values of their types** wherever emission comes to in well-typed code. -/
theorem areValues_of_emitUpTo (hs : env.Serves D) (h : IsTypedCode D code) {f : Code.Function}
    (hps : ∀ o ∈ f.params, ∃ v, o = .var v) (hsplit : code = before ++ after)
    (hb : b.function.blocks = #[]) (hregs : b.regs = [])
    (hrun : ((emitUpTo f before).run env).run b = .ok ((), b')) :
    AreValues b'.regs (before.flatMap Code.Instr.defines) := by
  rw [run_emitUpTo hb] at hrun
  obtain ⟨⟨⟩, c, hopening, hbody⟩ := of_run_bind hrun
  have hc : c.regs = [] := (regs_of_emitOpening hps hopening).trans hregs
  have hsplit' : code = [] ++ before ++ after := hsplit
  obtain ⟨b'', hrun', hvs⟩ := run_emitBody (b := c) hs h hsplit' (hc ▸ AreValues.nil)
  obtain ⟨-, rfl⟩ := Prod.mk.inj (Except.ok.inj (hbody.symm.trans hrun'))
  exact hvs

/-! ## Allocations and copies -/

/-- **What is emitted for an allocation and for a copy**: the variables that it uses are loaded, and
then a function of the runtime is called with values of the types that it takes. The address that an
allocation gives becomes the value of its register. -/
def CallsRuntime (env : EmitEnv) (b : Builder) : Code.Instr → Prop
  | .alloc d n => ∃ r v, d = .reg r ∧ v.type = .int 64 ∧
    ((emitStep (.alloc d n)).run env).run b = .ok ((),
      b.opened.add (loadsOf n ++ [.call .bytePtr "malloc" [v]])
        ((r.id, .result (b.function.made + (loadsOf n).length) .bytePtr) :: b.regs))
  | .memcpy d s n => ∃ x y z, x.type = .bytePtr ∧ y.type = .bytePtr ∧ z.type = .int 64 ∧
    ((emitStep (.memcpy d s n)).run env).run b = .ok ((),
      b.opened.add ([d, s, n].flatMap loadsOf ++ [.call .bytePtr "memcpy" [x, y, z]]) b.regs)
  | _ => True

/-- **Allocations and copies in well-typed code** call the runtime. -/
theorem IsTypedCode.callsRuntime (hs : env.Serves D) (h : IsTypedCode D code)
    {f : Code.Function} (hps : ∀ o ∈ f.params, ∃ v, o = .var v)
    (hsplit : code = before ++ i :: after) (hb : b.function.blocks = #[]) (hregs : b.regs = [])
    (hrun : ((emitUpTo f before).run env).run b = .ok ((), b')) : CallsRuntime env b' i := by
  have hread := h.readable hsplit (areValues_of_emitUpTo hs h hps hsplit hb hregs hrun)
  have hi : i ∈ code := by simp [hsplit]
  have htyped := h.typed i hi
  cases i with
  | alloc d n =>
    obtain ⟨r, rfl⟩ := h.fresh d n hi
    obtain ⟨v, hv, ht⟩ := emits_value env (σ := b'.view) (hread n List.mem_cons_self)
    have hemits := hv.bind (f := fun v => do define (.reg r) (← callFunction env.malloc [v]))
      (Emits.bind (emits_instr _) (emits_define_reg r _))
    refine ⟨r, v, rfl, ht.type_eq.trans (congrArg VType.llvm htyped.2.2.2), ?_⟩
    rw [run_emitStep rfl rfl, ← show env.malloc.name = "malloc" from hs.malloc.name_eq,
      ← show env.malloc.result = .bytePtr from hs.malloc.result_eq]
    exact hemits _ b'.view_opened
  | memcpy d s n =>
    obtain ⟨vs, hvs, ht⟩ := emits_values env (σ := b'.view) hread
    obtain _ | ⟨hx, _ | ⟨hy, _ | ⟨hz, _ | _⟩⟩⟩ := ht
    have hemits := hvs.bind (f := fun vs => do let _ ← callFunction env.memcpy vs)
      (Emits.bind (emits_instr _) .pure)
    refine ⟨_, _, _, hx.type_eq.trans (congrArg VType.llvm htyped.1.2),
      hy.type_eq.trans (congrArg VType.llvm htyped.2.1.2),
      hz.type_eq.trans (congrArg VType.llvm htyped.2.2.2), ?_⟩
    rw [run_emitStep rfl rfl, ← show env.memcpy.name = "memcpy" from hs.memcpy.name_eq,
      ← show env.memcpy.result = .bytePtr from hs.memcpy.result_eq]
    exact hemits _ b'.view_opened
  | _ => trivial

end Code

end Lane.Llvm
