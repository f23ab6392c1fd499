import Lane.Analysis.Elaborated
import Lane.Lowering.Layout
import Lane.Proofs.Code.Machine
import Lane.Proofs.Lowering.Expr

set_option relaxedAutoImplicit false
set_option autoImplicit false

/-!
# Lowered expressions compute what expressions stand for

The code of an expression without calls computes new registers, so it is enough to look at states in
which all of its instructions hold as equations: there, the operand that the lowering gives has the
value that the expression stands for, and the place that it gives is the place.

## Main definitions

* `Lane.Meaning`: values and places.
* `Lane.World`: what expressions are evaluated in.
* `Lane.TExpr.isCallFree`: expressions that call no function.
* `Lane.TExpr.eval`: what an expression stands for.
* `Lane.Lowering.Computes`: computations of new registers, with what holds in their solutions.
* `Lane.Lowering.worldOf`: what expressions are evaluated in, if code is in some state.
* `Lane.Lowering.Lowered.Evaluates`: expressions that are lowered to what they stand for.

## Main results

* `Lane.Lowering.expr_evaluates`: typed expressions without calls are lowered to what they stand
  for.
-/

/-! ## Evaluation of expressions

What an expression without calls stands for, read off its syntax: a value, or a place in memory. A
member is at its distance from the start of the instance, an element at its number times the size of
the elements from the start of the data. -/

namespace Lane

open Code Lowering

/-- **What an expression stands for**: a value, or the place of one in memory. -/
inductive Meaning where
  | value (w : Word)
  | place (a : Word)

namespace Meaning

/-- The address of a place; a value that is none by itself is an address. -/
def address : Meaning → Word
  | .value w | .place w => w

/-- The value: atomic values are read from their places, all others are handled by address. -/
def read (mem : Memory) (t : Ty) : Meaning → Word
  | .value w => w
  | .place a => if t.isAtomic then mem.scalar t.code.kind a else a

end Meaning

/-- **What expressions are evaluated in**: the operators on scalars, the layouts of classes, what
the locals stand for, and the memory. -/
structure World where
  ops : Operators
  layouts : Layouts
  locals : Nat → Option Meaning
  mem : Memory

namespace World

/-- The size of values of a type. A container is a data address and a number of elements. -/
def size? (W : World) : Ty → Option Word
  | .cls _ c => (W.layouts.struct? c).map fun s => s.size.toUInt64
  | .container .. => some 16
  | t => some (.ofNat t.atomicSize)

/-- The distance of a member variable from the start of an instance. -/
def distance? (W : World) (v : MemberVar) : Option Word := do
  let s ← W.layouts.struct? v.cls
  let m ← s.member? v.name
  return m.offset.toUInt64

end World

/-- The value of a literal, in as many bits as its type has. -/
def Literal.word (l : Literal) : Word :=
  let k := ((ScalarKind.ofName? l.typeName).getD .int32).code
  match l.value with
  | .bool b => if b then 1 else 0
  | .int n => k.cut n
  | .real x =>
    if k = .f32 then
      .ofNat ((if x.isNegative then BinaryFormat.single.signWord else 0) + x.toSingle)
    else x.bits

namespace TExpr

/-- Whether an expression calls no function. Operators of a class are functions, conversions of
scalars are not. -/
def isCallFree : TExpr → Bool
  | .ident .. | .self .. | .literal .. => true
  | .unary _ _ _ f x => f.isNone && x.isCallFree
  | .binary _ _ _ f x y => f.isNone && x.isCallFree && y.isCallFree
  | .member _ _ x _ _ _ | .deref _ _ x => x.isCallFree
  | .index _ _ x i => x.isCallFree && i.isCallFree
  | .routine _ _ _ _ [x] (some (.convert _)) => x.isCallFree
  | _ => false

/-- **What an expression without calls stands for.** -/
def eval (W : World) : TExpr → Option Meaning
  | .ident _ _ _ l | .self _ _ l => do W.locals (← l).id
  | .literal _ _ l => some (.value l.word)
  | .unary _ _ op none x => do
    let t ← x.type?
    return .value (W.ops.unary op t.code ((← x.eval W).read W.mem t))
  | .binary _ _ op none x y => do
    let t ← x.type?
    let u ← y.type?
    let a := (← x.eval W).read W.mem t
    return .value (W.ops.binary op t.code a ((← y.eval W).read W.mem u))
  | .member _ _ x _ (some v) _ => do
    let t ← x.type?
    let m ← x.eval W
    let start := if t.isPtr then m.read W.mem t else m.address
    return .place (start + (← W.distance? v))
  | .member _ _ x _ none _ => do
    return .value (W.mem.scalar .u64 ((← x.eval W).address + 8))
  | .index _ _ x i => do
    let .container _ _ inner ← x.type? | none
    let u ← i.type?
    let data := W.mem.scalar .ptr (← x.eval W).address
    return .place (data + (← i.eval W).read W.mem u * (← W.size? inner))
  | .deref _ _ x => do
    let t ← x.type?
    return .place ((← x.eval W).read W.mem t)
  | .routine _ _ _ _ [x] (some (.convert k)) => do
    let t ← x.type?
    return .value (W.ops.convert t.code (.scalar k.code) ((← x.eval W).read W.mem t))
  | _ => none

/-- The value of an expression without calls. -/
def value? (W : World) (x : TExpr) : Option Word := do
  return (← x.eval W).read W.mem (← x.type?)

end TExpr

end Lane

namespace Lane.Lowering

open Code

/-! ## Computations of new registers -/

/-- **Computations of new registers**: if they succeed from the locals `L` and at least `n`
registers, the code that they emit computes the next registers from older operands. The result
satisfies `R` together with the number of registers in the end, and `Q` in all solutions of the
code. -/
def Computes {α : Type} (I : Operators) (env : Env) (L : Locals) (n : Nat) (m : Lower α)
    (R : Nat → α → Prop) (Q : State → α → Prop) : Prop :=
  ∀ b a b', b.locals = L → n ≤ b.regs → (m.run env).run b = .ok (a, b') →
    ∃ is, b'.code = b.code ++ is ∧ b'.locals = L ∧ b'.regs = b.regs + is.length ∧
      Numbered b.regs is ∧ R b'.regs a ∧ ∀ s, Solves I s is → Q s a

section Computes

variable {α β : Type} {I : Operators} {env : Env} {L : Locals} {n : Nat} {m : Lower α}
  {f : α → Lower β} {R : Nat → α → Prop} {S : Nat → β → Prop} {P : State → α → Prop}
  {Q : State → β → Prop} {t : VType}

/-- A run of two computations is a run of each. -/
lemma of_run_bind {b b'' : Builder} {c : β} (h : ((m >>= f).run env).run b = .ok (c, b'')) :
    ∃ a b', (m.run env).run b = .ok (a, b') ∧ ((f a).run env).run b' = .ok (c, b'') := by
  rw [ReaderT.run_bind, StateT.run_bind] at h
  cases hm : (m.run env).run b with
  | error x =>
    rw [hm] at h
    cases h
  | ok q =>
    rw [hm] at h
    exact ⟨q.1, q.2, rfl, h⟩

/-- A result computes nothing new. -/
lemma Computes.pure {a : α} (hR : ∀ k, n ≤ k → R k a) (hP : ∀ s, P s a) :
    Computes I env L n (pure a) R P := by
  intro b a' b' hb hn hrun
  obtain ⟨rfl, rfl⟩ := Prod.mk.inj (Except.ok.inj hrun)
  exact ⟨[], by simp, hb, rfl, trivial, hR _ hn, fun s _ => hP s⟩

/-- One computation after the other. -/
lemma Computes.bind (hm : Computes I env L n m R P)
    (hf : ∀ a k, n ≤ k → R k a → Computes I env L k (f a) S fun s c => P s a → Q s c) :
    Computes I env L n (m >>= f) S Q := by
  intro b c b'' hb hn hrun
  obtain ⟨a, b', hrun, hrun'⟩ := of_run_bind hrun
  obtain ⟨is, hcode, hl, hregs, hnum, hR, hP⟩ := hm b a b' hb hn hrun
  obtain ⟨js, hcode', hl', hregs', hnum', hS, hQ⟩ :=
    hf a b'.regs (by omega) hR b' c b'' hl (Nat.le_refl _) hrun'
  refine ⟨is ++ js, by rw [hcode', hcode, List.append_assoc], hl', ?_, ?_, hS, fun s hs => ?_⟩
  · rw [hregs', hregs, List.length_append, Nat.add_assoc]
  · exact hnum.append (hregs ▸ hnum')
  · obtain ⟨his, hjs⟩ := List.forall_mem_append.1 hs
    exact hQ s hjs (hP s his)

/-- Less may be said about what is computed. -/
lemma Computes.weaken {R' : Nat → α → Prop} {P' : State → α → Prop}
    (hm : Computes I env L n m R P) (hR : ∀ k a, R k a → R' k a) (hP : ∀ s a, P s a → P' s a) :
    Computes I env L n m R' P' := by
  intro b a b' hb hn hrun
  obtain ⟨is, hcode, hl, hregs, hnum, hRa, hPa⟩ := hm b a b' hb hn hrun
  exact ⟨is, hcode, hl, hregs, hnum, hR _ _ hRa, fun s hs => hP s a (hPa s hs)⟩

/-- What is known about the result in any case. -/
lemma Computes.and {T : Prop} {R' : α → Prop} (hm : Computes I env L n m R P)
    (hy : Yields env T L m R') : Computes I env L n m (fun k a => R k a ∧ R' a) P := by
  intro b a b' hb hn hrun
  obtain ⟨is, hcode, hl, hregs, hnum, hRa, hPa⟩ := hm b a b' hb hn hrun
  obtain ⟨c, b'', -, hrun', -, -, hc⟩ := hy b hb
  obtain ⟨rfl, rfl⟩ := Prod.mk.inj (Except.ok.inj (hrun.symm.trans hrun'))
  exact ⟨is, hcode, hl, hregs, hnum, ⟨hRa, hc⟩, hPa⟩

/-- A computation that emits nothing and whose result is known. -/
lemma Computes.of_run {A : Prop} {a : α}
    (h : ∀ b a' b', b.locals = L → (m.run env).run b = .ok (a', b') → b' = b ∧ a' = a ∧ A)
    (hR : A → ∀ k, n ≤ k → R k a) (hP : A → ∀ s, P s a) : Computes I env L n m R P := by
  intro b a' b' hb hn hrun
  obtain ⟨rfl, rfl, hA⟩ := h b a' b' hb hrun
  exact ⟨[], by simp, hb, rfl, trivial, hR hA _ hn, fun s _ => hP hA s⟩

/-- Nothing is known about a computation that does not succeed. -/
lemma Computes.fails (h : Fails env m) : Computes I env L n m R P := by
  intro b a b' _ _ hrun
  obtain ⟨x, hx⟩ := h b
  cases hx.symm.trans hrun

/-- The environment is looked at. -/
lemma Computes.read {R : Nat → Env → Prop} {P : State → Env → Prop} (hR : ∀ k, n ≤ k → R k env)
    (hP : ∀ s, P s env) : Computes I env L n read R P := by
  intro b a b' hb hn hrun
  obtain ⟨rfl, rfl⟩ := Prod.mk.inj (Except.ok.inj hrun)
  exact ⟨[], by simp, hb, rfl, trivial, hR _ hn, fun s _ => hP s⟩

/-- A value is computed from older operands into a new register. -/
lemma Computes.define {i : Operand → Instr} {v : State → Word}
    (hi : ∀ r : Reg, r.type = t → (i (.reg r)).computes ∧ (i (.reg r)).dst? = some (.reg r) ∧
      (∀ o ∈ (i (.reg r)).reads, o.Below n) ∧ ∀ s, (i (.reg r)).result? I s = some (v s)) :
    Computes I env L n (do
      let r ← newReg t
      emit (i r)
      return r) (fun k o => o.Below k) (fun s o => s.value o = v s) := by
  intro b o b' hb hn hrun
  obtain ⟨rfl, rfl⟩ := Prod.mk.inj (Except.ok.inj hrun)
  obtain ⟨hcomp, hdst, hreads, hresult⟩ := hi ⟨b.regs + 1, t⟩ rfl
  refine ⟨[i (.reg ⟨b.regs + 1, t⟩)], rfl, hb, rfl, ⟨hcomp, ⟨_, hdst, rfl⟩, ?_, trivial⟩, ?_, ?_⟩
  · exact fun o ho => (hreads o ho).mono hn
  · intro r hr
    obtain rfl := Operand.reg.inj hr
    exact Nat.le_refl _
  · intro s hs
    obtain ⟨r, w, hd, hw, hr⟩ := hs _ (List.mem_singleton_self _)
    obtain rfl := Operand.reg.inj (Option.some.inj (hdst.symm.trans hd))
    exact hr.trans (Option.some.inj (hw.symm.trans (hresult s)))

/-- An assignment to a new register. -/
lemma compute_computes {kind : AssignKind} {args : List Operand} (h : ∀ o ∈ args, o.Below n) :
    Computes I env L n (compute kind t args) (fun k o => o.Below k)
      (fun s o => s.value o = kind.compute I t (s.values args)) :=
  Computes.define fun r hr => ⟨rfl, rfl, h, fun s => by rw [← hr]; rfl⟩

end Computes

/-! ## Places -/

/-- Places whose base is no register with a number above `n`. -/
def Place.Below (n : Nat) (p : Place) : Prop := p.base.Below n

/-- What a place stands for in a state. -/
def Place.meaning (s : State) : Place → Meaning
  | .var v _ => .value (s.vars v)
  | .memory base off _ => .place (s.value base + Offset.word off)

section Places

variable {I : Operators} {env : Env} {L : Locals} {n : Nat} {p : Place}

/-- The address of a place in memory. -/
lemma address_computes (hp : p.Below n) (hm : p.IsMemory) :
    Computes I env L n (address p) (fun k o => o.Below k)
      (fun s o => s.value o = (p.meaning s).address) := by
  cases p with
  | var => exact hm.elim
  | memory base off t =>
    simp only [address]
    split
    · rename_i hzero
      refine Computes.pure (fun k hk => Operand.Below.mono hp hk) fun s => ?_
      simp [Place.meaning, Meaning.address, Offset.word_eq_zero hzero]
    · exact Computes.define fun r _ => ⟨rfl, rfl, List.forall_mem_singleton.2 hp, fun s => rfl⟩

/-- The value at a place. -/
lemma fetch_computes (hp : p.Below n) :
    Computes I env L n (fetch p) (fun k o => o.Below k)
      (fun s o => s.value o = (p.meaning s).read s.mem p.type) := by
  cases p with
  | var v t => exact Computes.pure (fun k _ => Operand.below_var k v) fun s => rfl
  | memory base off t =>
    simp only [fetch]
    split
    · rename_i ht
      have ht : t.isAtomic = false := by simpa using ht
      refine (address_computes hp trivial).weaken (fun _ _ h => h) fun s o h => ?_
      simpa [Place.meaning, Meaning.read, Meaning.address, Place.type, ht] using h
    · rename_i ht
      have ht : t.isAtomic = true := by simpa using ht
      refine Computes.define fun r hr => ⟨rfl, rfl, List.forall_mem_singleton.2 hp, fun s => ?_⟩
      simp [Instr.result?, Place.meaning, Meaning.read, Place.type, ht, Operand.type, hr]

/-- A field of the header of a container. -/
lemma loadField_computes (hp : p.Below n) (hm : p.IsMemory) {m : StructMember} {t : VType}
    (ht : m.type? = some t) : Computes I env L n (loadField p m) (fun k o => o.Below k)
      (fun s o => s.value o = s.mem.scalar t.kind ((p.meaning s).address + m.offset.toUInt64)) := by
  cases p with
  | var => exact hm.elim
  | memory base off u =>
    refine Computes.define fun r hr => ⟨rfl, rfl, List.forall_mem_singleton.2 hp, fun s => ?_⟩
    simp only [ht, Option.getD_some] at hr
    simp only [Instr.result?, Operand.type, hr, Place.offset?, Place.base, Offset.word_step,
      Place.meaning, Meaning.address, UInt64.add_assoc]

end Places

/-! ## Layouts -/

section Layouts

variable {I : Operators} {env : Env} {L : Locals} {n : Nat}

/-- The type of an expression that yields one value. -/
lemma typeOf_computes {x : TExpr} : Computes I env L n (typeOf x)
    (fun _ t => x.type? = some t) (fun _ _ => True) := by
  unfold typeOf
  cases x.type? with
  | none => exact Computes.fails (Fails.bug _)
  | some t => exact Computes.pure (fun _ _ => rfl) fun _ => trivial

/-- The layout entry of a member variable says how far it is from the start of an instance. -/
lemma memberOf_computes (v : MemberVar) : Computes I env L n (memberOf v)
    (fun _ m => ∀ W : World, W.layouts = env.layouts → W.distance? v = some m.offset.toUInt64)
    (fun _ _ => True) := by
  unfold memberOf
  refine Computes.bind (R := fun _ e => e = env) (P := fun _ _ => True)
    (Computes.read (fun _ _ => rfl) fun _ => trivial) fun env' k _ henv => ?_
  subst henv
  cases hs : env'.layouts.struct? v.cls with
  | none => exact Computes.fails (Fails.throw _)
  | some s =>
    dsimp only
    cases hm : s.member? v.name with
    | none => exact Computes.fails (Fails.throw _)
    | some m =>
      refine Computes.pure (fun _ _ W hW => ?_) fun _ _ => trivial
      simp [World.distance?, hW, hs, hm]

/-- The size of values of a type. -/
lemma sizeOf_computes (t : Ty) : Computes I env L n (sizeOf t)
    (fun _ q => ∀ W : World, W.layouts = env.layouts → W.size? t = some q.1.toUInt64)
    (fun _ _ => True) := by
  have atomic : ∀ k : Nat, (UInt64.ofNat k) = (Int64.ofNat k).toUInt64 := fun _ => rfl
  cases t with
  | cls m c =>
    simp only [sizeOf]
    refine Computes.bind (R := fun _ e => e = env) (P := fun _ _ => True)
      (Computes.read (fun _ _ => rfl) fun _ => trivial) fun env' k _ henv => ?_
    subst henv
    cases hs : env'.layouts.struct? c with
    | none => exact Computes.fails (Fails.throw _)
    | some s =>
      refine Computes.pure (fun _ _ W hW => ?_) fun _ _ => trivial
      simp [World.size?, hW, hs]
  | container m k u => exact Computes.pure (fun _ _ W _ => rfl) fun _ => trivial
  | scalar | ptr | error =>
    exact Computes.pure (fun _ _ W _ => congrArg some (atomic _)) fun _ => trivial

end Layouts

/-! ## Lowered expressions -/

/-- What a local stands for by its storage. -/
def Storage.meaning (s : State) : Storage → Meaning
  | .var v => .value (s.vars v)
  | .memory a => .place (s.value a)

/-- **What expressions are evaluated in**, if locals have the storage `L` and code is in state
`s`. -/
def worldOf (I : Operators) (env : Env) (L : Locals) (s : State) : World where
  ops := I
  layouts := env.layouts
  locals i := (L.lookup i).map (Storage.meaning s)
  mem := s.mem

/-- The operators of the world in a state. -/
@[simp] lemma worldOf_ops (I : Operators) (env : Env) (L : Locals) (s : State) :
    (worldOf I env L s).ops = I := rfl

/-- The layouts of the world in a state. -/
@[simp] lemma worldOf_layouts (I : Operators) (env : Env) (L : Locals) (s : State) :
    (worldOf I env L s).layouts = env.layouts := rfl

/-- The memory of the world in a state. -/
@[simp] lemma worldOf_mem (I : Operators) (env : Env) (L : Locals) (s : State) :
    (worldOf I env L s).mem = s.mem := rfl

/-- **Expressions that are lowered to what they stand for.** -/
structure Lowered.Evaluates (I : Operators) (env : Env) (L : Locals) (x : Lowered) : Prop where
  place : ∀ n, x.expr.isAddressable →
    Computes I env L n x.place (fun k p => p.Below k ∧ x.expr.type? = some p.type)
      fun s p => x.expr.eval (worldOf I env L s) = some (p.meaning s)
  value : ∀ n, Computes I env L n x.value (fun k o => o.Below k)
    fun s o => x.expr.value? (worldOf I env L s) = some (s.value o)

section Expressions

variable {I : Operators} {env : Env} {e : Elaborated} {L : Locals} {Γ : List Local} {n : Nat}
  {x y : TExpr} {t : Ty}

/-- The value of a place is fetched from it. -/
lemma value_ofPlace (x : TExpr) (place : Lower Place) :
    (Lowered.ofPlace x place).value = place >>= fetch := by
  simp [Lowered.value, Lowered.ofPlace]

/-- The value of an expression that is a value. -/
lemma value_ofValue (x : TExpr) (value : Lower Operand) :
    (Lowered.ofValue x value).value = value := by
  simp [Lowered.value, Lowered.ofValue, Lowered.ofValues]

/-- The type of an expression with one type. -/
lemma type?_of_types (ht : x.types = [t]) : x.type? = some t := by simp [TExpr.type?, ht]

/-- An expression with a value stands for something with that value. -/
lemma TExpr.of_value?_eq_some {W : World} {w : Word} (h : x.value? W = some w)
    (ht : x.types = [t]) : ∃ m, x.eval W = some m ∧ m.read W.mem t = w := by
  simpa [TExpr.value?, type?_of_types ht, Option.bind_eq_some_iff] using h

/-- An expression that stands for a place. -/
lemma evaluates_ofPlace {place : Lower Place}
    (hp : ∀ n, Computes I env L n place (fun k p => p.Below k ∧ x.type? = some p.type)
      fun s p => x.eval (worldOf I env L s) = some (p.meaning s)) :
    (Lowered.ofPlace x place).Evaluates I env L where
  place n _ := hp n
  value n := by
    rw [value_ofPlace]
    refine Computes.bind (hp n) fun p k _ h => ?_
    refine (fetch_computes h.1).weaken (fun _ _ h => h) fun s o ho hm => ?_
    show x.value? _ = _
    simp [TExpr.value?, hm, h.2, ho]

/-- An expression that has one value and is no place. -/
lemma Lowered.Evaluates.of_value {x : Lowered} (hx : x.expr.isAddressable = false)
    (ht : x.expr.types = [t]) (hv : ∀ n, Computes I env L n x.value (fun k o => o.Below k)
      fun s o => x.expr.eval (worldOf I env L s) = some (.value (s.value o))) :
    x.Evaluates I env L where
  place n ha := by
    rw [hx] at ha
    cases ha
  value n := (hv n).weaken (fun _ _ h => h) fun s o h => by
    simp [TExpr.value?, h, type?_of_types ht, Meaning.read]

/-- The value of an expression, with its type. -/
lemma Lowered.Evaluates.typed_value {x : Lowered} (hx : x.Evaluates I env L)
    (hs : x.Sound env True L) (ht : x.expr.types = [t]) (n : Nat) :
    Computes I env L n x.value (fun k o => o.Below k ∧ o.type = t.code)
      fun s o => ∃ m, x.expr.eval (worldOf I env L s) = some m ∧ m.read s.mem t = s.value o :=
  ((hx.value n).and (hs.value_yields ht)).weaken (fun _ _ h => ⟨h.1, (h.2 trivial).1.2⟩)
    fun _ _ h => TExpr.of_value?_eq_some h ht

/-- The place of a value that is not atomic. -/
lemma Lowered.Evaluates.object {x : Lowered} (hx : x.Evaluates I env L)
    (hs : x.Sound env True L) (ht : x.expr.types = [t]) (hat : t.isAtomic = false) (n : Nat) :
    Computes I env L n x.object (fun k p => p.Below k ∧ p.IsMemory)
      fun s p => ∃ m, x.expr.eval (worldOf I env L s) = some m ∧
        m.address = (p.meaning s).address := by
  have hobject : Computes I env L n x.object (fun k p => p.Below k)
      fun s p => ∃ m, x.expr.eval (worldOf I env L s) = some m ∧
        m.address = (p.meaning s).address := by
    unfold Lowered.object
    split
    · rename_i ha
      exact (hx.place n ha).weaken (fun _ _ h => h.1) fun s p h => ⟨_, h, rfl⟩
    · refine Computes.bind (hx.typed_value hs ht n) fun o k _ ho => ?_
      refine Computes.bind typeOf_computes fun u k' hk _ => ?_
      refine Computes.pure (fun _ hk' => Operand.Below.mono ho.1 (Nat.le_trans hk hk')) ?_
      rintro s - ⟨m, hm, hread⟩
      refine ⟨m, hm, ?_⟩
      cases m <;> simpa [Meaning.read, hat, Place.meaning, Meaning.address] using hread
  exact (hobject.and (hs.object_yields ht hat)).weaken (fun _ _ h => ⟨h.1, h.2.2.2⟩)
    fun _ _ h => h

/-- The place of a local. -/
lemma localPlace_computes (hL : Houses True Γ L) {l : Local} (hl : l ∈ Γ) :
    Computes I env L n (localPlace x (some l)) (fun k p => p.Below k ∧ x.type? = some p.type)
      fun s p => (worldOf I env L s).locals l.id = some (p.meaning s) := by
  obtain ⟨st, hst, hsound⟩ := hL l hl
  refine Computes.bind typeOf_computes fun t k _ ht => ?_
  have hstorage : Computes I env L k (storageOf l) (fun _ st' => st' = st) fun _ _ => True := by
    refine Computes.of_run (A := True) (fun b st' b' hb hrun => ?_) (fun _ _ _ => rfl)
      fun _ _ => trivial
    obtain ⟨b₁, b₂, hget, hrun⟩ := of_run_bind hrun
    obtain ⟨rfl, rfl⟩ := Prod.mk.inj (Except.ok.inj hget)
    rw [hb, hst] at hrun
    obtain ⟨rfl, rfl⟩ := Prod.mk.inj (Except.ok.inj hrun)
    exact ⟨rfl, rfl, trivial⟩
  refine Computes.bind hstorage fun st' k' _ hst' => ?_
  subst hst'
  cases st' with
  | var v =>
    exact Computes.pure (fun k _ => ⟨Operand.below_absent k, ht⟩) fun s _ _ => by
      simp [worldOf, hst, Storage.meaning, Place.ofStorage, Place.meaning]
  | memory a =>
    exact Computes.pure (fun _ _ => ⟨fun r hr => (hsound.settled a rfl r hr).elim, ht⟩)
      fun s _ _ => by simp [worldOf, hst, Storage.meaning, Place.ofStorage, Place.meaning]

/-- The place of a member variable. -/
lemma memberPlace_computes {x : Lowered} (hx : x.Evaluates I env L) (hs : x.Sound env True L)
    (ht : x.expr.types = [t]) {c : ClassRef} (hc : t.classOf? = some c) {v : MemberVar}
    {pos : Position} {ts : List Ty} {name : String} {foldable : Bool}
    (hy : y = .member pos ts x.expr name (some v) foldable) :
    Computes I env L n (memberPlace y x v) (fun k p => p.Below k ∧ y.type? = some p.type)
      fun s p => y.eval (worldOf I env L s) = some (p.meaning s) := by
  refine Computes.bind typeOf_computes fun u k _ hu => ?_
  refine Computes.bind (memberOf_computes v) fun m k' _ hm => ?_
  refine Computes.bind typeOf_computes fun t' k'' _ ht' => ?_
  obtain rfl : t = t' := Option.some.inj ((type?_of_types ht).symm.trans ht')
  subst hy
  split
  · rename_i hptr
    refine Computes.bind (hx.typed_value hs ht k'') fun base k₃ _ hbase => ?_
    refine Computes.pure (fun _ hk => ⟨Operand.Below.mono hbase.1 hk, hu⟩) ?_
    rintro s ⟨w, hw, hread⟩ - - -
    simp [TExpr.eval, ht', hw, hread, hptr, hm _ (worldOf_layouts I env L s), Place.meaning,
      Offset.ofPath, Offset.word, Offset.value, Offset.add]
  · rename_i hptr
    have hat : t.isAtomic = false := by
      cases t <;> first | rfl | cases hc | exact absurd rfl hptr
    refine Computes.bind (hx.object hs ht hat k'') fun p k₃ _ hp => ?_
    refine Computes.pure (fun _ hk => ⟨Operand.Below.mono hp.1 hk, hu⟩) ?_
    rintro s ⟨w, hw, haddr⟩ - - -
    cases p with
    | var => exact hp.2.elim
    | memory base off u' =>
      have haddr : w.address = s.value base + Offset.word off := haddr
      simp [TExpr.eval, ht', hw, haddr, hptr, hm _ (worldOf_layouts I env L s), Place.meaning,
        Place.field, Place.base, Place.offset?, Offset.word_step, UInt64.add_assoc]

/-- The place of an element of a container. -/
lemma elementPlace_computes (hI : I.ScalesIndices) {x i : Lowered} (hx : x.Evaluates I env L)
    (hsx : x.Sound env True L)
    (hi : i.Evaluates I env L) (hsi : i.Sound env True L) {m m' : Modifier} {k : SeqKind}
    (ht : x.expr.types = [.container m k t]) (hn : i.expr.types = [.scalar m' .index])
    {pos : Position} {ts : List Ty} (hy : y = .index pos ts x.expr i.expr) :
    Computes I env L n (elementPlace y x i) (fun k p => p.Below k ∧ y.type? = some p.type)
      fun s p => y.eval (worldOf I env L s) = some (p.meaning s) := by
  refine Computes.bind typeOf_computes fun u k₁ _ hu => ?_
  refine Computes.bind typeOf_computes fun t' k₂ _ ht' => ?_
  obtain rfl : Ty.container m k t = t' := Option.some.inj ((type?_of_types ht).symm.trans ht')
  dsimp only
  refine Computes.bind (hx.object hsx ht rfl k₂) fun header k₃ _ hheader => ?_
  refine Computes.bind (loadField_computes hheader.1 hheader.2 rfl) fun data k₄ hk₄ hdata => ?_
  refine Computes.bind (hi.typed_value hsi hn k₄) fun o k₅ hk₅ ho => ?_
  refine Computes.bind (sizeOf_computes t) fun q k₆ hk₆ hq => ?_
  -- the address is computed from the number of the element times the size of the elements
  have element : ∀ (n' : Operand) (k₇ : ℕ), k₆ ≤ k₇ → n'.Below k₇ →
      Computes I env L k₇ (do
        let addr ← compute .ptrAdd .ptr [data, n']
        return Place.memory addr none u) (fun k p => p.Below k ∧ y.type? = some p.type)
        fun s p => p.meaning s = .place (s.value data + s.value n') := by
    intro n' k₇ hk₇ hn'
    refine Computes.bind (compute_computes ?_) fun addr k₈ _ haddr =>
      Computes.pure (fun _ hk => ⟨haddr.mono hk, hu⟩) fun s h => ?_
    · refine List.forall_mem_cons.2 ⟨hdata.mono ?_, List.forall_mem_singleton.2 hn'⟩
      omega
    · simp [Place.meaning, h, State.values, AssignKind.compute]
  have address : ∀ {s : State} {p : Place},
      p.meaning s = .place (s.value data + s.value o * q.1.toUInt64) →
      (∃ w, i.expr.eval (worldOf I env L s) = some w ∧
        w.read s.mem (.scalar m' .index) = s.value o) →
      s.value data = s.mem.scalar .ptr ((header.meaning s).address + 0) →
      (∃ w, x.expr.eval (worldOf I env L s) = some w ∧ w.address = (header.meaning s).address) →
      y.eval (worldOf I env L s) = some (p.meaning s) := by
    rintro s p hp ⟨w, hw, hread⟩ hd ⟨v, hv, haddr⟩
    subst hy
    simp [TExpr.eval, type?_of_types ht, type?_of_types hn, hw, hv, hread, haddr, hp, hd,
      hq _ (worldOf_layouts I env L s)]
  split
  · rename_i hone
    refine (element o k₆ (Nat.le_refl _) (ho.1.mono hk₆)).weaken (fun _ _ h => h) ?_
    rintro s p hp - hi hd hx - -
    have hsize : q.1.toUInt64 = 1 := congrArg Int64.toUInt64 hone
    exact address (by rw [hp, hsize, UInt64.mul_one]) hi hd hx
  · refine Computes.bind (compute_computes ?_) fun o' k₇ hk₇ ho' => ?_
    · exact List.forall_mem_cons.2 ⟨ho.1.mono hk₆,
        List.forall_mem_singleton.2 (Operand.below_const _ _)⟩
    refine (element o' k₇ hk₇ ho').weaken (fun _ _ h => h) ?_
    rintro s p hp hmul - hi hd hx - -
    have hmul : s.value o' = s.value o * q.1.toUInt64 := by
      refine hmul.trans ?_
      show I.binary .mul o.type (s.value o) (Const.ofInt .index q.1.toUInt64).word = _
      rw [ho.2, Const.word_ofInt_index]
      exact hI _ _
    exact address (by rw [hp, hmul]) hi hd hx

/-- A literal is lowered to its value. -/
lemma word_constant (l : Literal) : (constant l).word = l.word := by
  have hmem := l.typeName_mem
  unfold constant Literal.word
  cases hv : l.value with
  | bool b =>
    cases b <;> rfl
  | int n =>
    simp only [hv, LiteralValue.typeNames, List.mem_cons, List.not_mem_nil, or_false] at hmem
    rcases hmem with h | h | h | h | h | h | h | h | h <;> rw [h] <;> rfl
  | real x =>
    simp only [hv, LiteralValue.typeNames, List.mem_cons, List.not_mem_nil, or_false] at hmem
    rcases hmem with h | h <;> rw [h]
    · exact UInt64.ofNat_toNat
    · rfl

/-- The built-in operators compute what the operators on scalars do. -/
lemma compute_unaryKind (I : Operators) (op : UnaryOp) (t u : VType) (a : Word) :
    (unaryKind op).compute I t [(u, a)] = I.unary op u a := by
  cases op <;> rfl

/-- The built-in operators compute what the operators on scalars do. -/
lemma compute_binaryKind (I : Operators) (op : BinaryOp) (t u v : VType) (a b : Word) :
    (binaryKind op).compute I t [(u, a), (v, b)] = I.binary op u a b := by
  cases op <;> rfl

/-- **Typed expressions without calls are lowered to what they stand for.**

**Proof sketch.** By induction on the typing. The code of an operand is solved by every solution of
the code of the expression, so the operand has its value there, and the last instruction computes
from it what the expression stands for. -/
theorem expr_evaluates (hI : I.ScalesIndices) (he : env.Sound e) (hL : Houses True Γ L)
    (hΓ : ∀ l ∈ Γ, e.program.Valid l.type) {x : TExpr} (hx : x.Typed e.program Γ)
    (hc : x.isCallFree) : (expr x).Evaluates I env L := by
  have sound : ∀ {y : TExpr}, y.Typed e.program Γ → (expr y).Sound env True L :=
    fun hy => expr_sound he hL hΓ hy
  have operand : ∀ {y : TExpr} {t : Ty}, y.Typed e.program Γ → (expr y).Evaluates I env L →
      y.types = [t] → ∀ n, Computes I env L n (expr y).value
        (fun k o => o.Below k ∧ o.type = t.code)
        fun s o => ∃ m, y.eval (worldOf I env L s) = some m ∧ m.read s.mem t = s.value o :=
    fun hy h ht n => by
      simpa only [expr_expr] using h.typed_value (sound hy) (by rwa [expr_expr]) n
  induction hx with
  | ident hl | self hl =>
    simp only [expr]
    exact evaluates_ofPlace fun n => localPlace_computes hL hl
  | literal hk =>
    simp only [expr]
    refine .of_value rfl rfl fun n => ?_
    rw [value_ofValue]
    exact Computes.pure (fun k _ => Operand.below_const k _) fun s => by
      simp [Lowered.ofValue, Lowered.ofValues, TExpr.eval, State.value, word_constant]
  | unary hx ht hr ih =>
    simp only [expr]
    simp only [TExpr.isCallFree, Option.isNone_none, Bool.true_and] at hc
    refine .of_value rfl rfl fun n => ?_
    rw [value_ofValue]
    refine Computes.bind (operand hx (ih hc) ht n) fun o k _ ho => ?_
    refine Computes.bind typeOf_computes fun r' k' hk' _ => ?_
    refine (compute_computes (List.forall_mem_singleton.2 (ho.1.mono hk'))).weaken
      (fun _ _ h => h) ?_
    rintro s o' ho' - ⟨w, hw, hread⟩
    simp [Lowered.ofValue, Lowered.ofValues, TExpr.eval, type?_of_types ht, hw, hread, ho',
      State.values, compute_unaryKind, ho.2]
  | binary hx hy ht hu hr ihx ihy =>
    simp only [expr]
    simp only [TExpr.isCallFree, Option.isNone_none, Bool.true_and, Bool.and_eq_true] at hc
    refine .of_value rfl rfl fun n => ?_
    rw [value_ofValue]
    refine Computes.bind (operand hx (ihx hc.1) ht n) fun a k _ ha => ?_
    refine Computes.bind (operand hy (ihy hc.2) hu k) fun b k' hk' hb => ?_
    refine Computes.bind typeOf_computes fun r' k'' hk'' _ => ?_
    refine (compute_computes ?_).weaken (fun _ _ h => h) ?_
    · exact List.forall_mem_cons.2 ⟨ha.1.mono (Nat.le_trans hk' hk''),
        List.forall_mem_singleton.2 (hb.1.mono hk'')⟩
    rintro s o ho - ⟨w, hw, hreadw⟩ ⟨v, hv, hreadv⟩
    simp [Lowered.ofValue, Lowered.ofValues, TExpr.eval, type?_of_types ht, type?_of_types hu, hv,
      hw, hreadv, hreadw, ho, State.values, compute_binaryKind, ha.2]
  | size hx ht ih =>
    simp only [expr]
    refine .of_value rfl rfl fun n => ?_
    rw [value_ofValue]
    refine Computes.bind typeOf_computes fun t' k' _ ht' => ?_
    obtain rfl := Option.some.inj ((type?_of_types (by rwa [expr_expr])).symm.trans ht')
    refine Computes.bind ((ih hc).object (sound hx) (by rwa [expr_expr]) rfl k')
      fun p k _ hp => ?_
    refine (loadField_computes hp.1 hp.2 rfl).weaken (fun _ _ h => h) ?_
    rintro s o ho ⟨w, hw, haddr⟩ -
    rw [expr_expr] at hw
    rw [← haddr] at ho
    simp [Lowered.ofValue, Lowered.ofValues, TExpr.eval, hw, ho]
    rfl
  | member hx ht hcls hv ih =>
    simp only [expr]
    refine evaluates_ofPlace fun n => ?_
    exact memberPlace_computes (ih hc) (sound hx) (by rwa [expr_expr]) hcls (by rw [expr_expr])
  | index hx hi ht hu ihx ihi =>
    simp only [expr]
    simp only [TExpr.isCallFree, Bool.and_eq_true] at hc
    refine evaluates_ofPlace fun n => ?_
    exact elementPlace_computes hI (ihx hc.1) (sound hx) (ihi hc.2) (sound hi) (by rwa [expr_expr])
      (by rwa [expr_expr]) (by rw [expr_expr, expr_expr])
  | deref hx ht ih =>
    simp only [expr]
    refine evaluates_ofPlace fun n => ?_
    refine Computes.bind typeOf_computes fun t' k _ ht' => ?_
    refine Computes.bind (operand hx (ih hc) ht k) fun o k' _ ho => ?_
    refine Computes.pure (fun _ hk => ⟨Operand.Below.mono ho.1 hk, ht'⟩) ?_
    rintro s ⟨w, hw, hread⟩ -
    simp [TExpr.eval, type?_of_types ht, hw, hread, Place.meaning]
  | convert hx ht hn hk ih =>
    simp only [expr, exprs]
    refine .of_value rfl rfl fun n => ?_
    have hvalue : ∀ (x : TExpr) (y : Lowered) (k : ScalarKind),
        (Lowered.ofValues x fun _ => convert k [y]).value = y.value >>= fun v =>
          compute .convert (.scalar k.code) [v] := fun x y k => by
      simp [Lowered.value, Lowered.ofValues, convert]
    rw [hvalue]
    refine Computes.bind (operand hx (ih hc) ht n) fun o k _ ho => ?_
    refine (compute_computes (List.forall_mem_singleton.2 ho.1)).weaken (fun _ _ h => h) ?_
    rintro s o' ho' ⟨w, hw, hread⟩
    simp [Lowered.ofValues, TExpr.eval, type?_of_types ht, hw, hread, ho', State.values,
      AssignKind.compute, ho.2]
  | unaryCall | binaryCall | method | routine | construct | ccall =>
    simp [TExpr.isCallFree] at hc

end Expressions

end Lane.Lowering
