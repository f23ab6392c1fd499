import Lane.Proofs.Analysis.Typed
import Lane.Proofs.Lowering.Builder

set_option relaxedAutoImplicit false
set_option autoImplicit false

/-!
# Typed expressions are lowered

A typed expression is lowered to a place of its type if it stands for one, and to one operand for
each value that it yields. All that the lowering relies on follows from the typing: there is storage
for every visible local, calls are resolved, and arguments for `ref` parameters stand for places.

## Main definitions

* `Lane.Lowering.Houses`: storage for the visible locals.
* `Lane.Lowering.Lowered.Sound`: expressions that are lowered as their types ask for.

## Main results

* `Lane.Lowering.expr_sound`: typed expressions are lowered.
-/

namespace Lane

/-! ## Machine types -/

namespace Ty

variable {t u : Ty}

/-- Modifiers do not change how a type is represented. -/
@[simp] lemma code_withModifier (m : Modifier) : (t.withModifier m).code = t.code := by
  cases t <;> rfl

/-- Atomic types that agree have one machine type. -/
lemma code_eq_of_compatible (h : t.compatible u) (ht : t.isAtomic) (hu : u.isError = false) :
    t.code = u.code := by
  cases t <;> cases u <;> simp_all [compatible, isError, isAtomic, code]

end Ty

/-- A built-in operator computes a scalar of the kind that it is applied to. -/
lemma UnaryOp.computes {op : UnaryOp} {t r : Ty} (h : op.builtinType? t = some r) :
    (Lowering.unaryKind op).Computes r.code [t.code] := by
  obtain ⟨m, k, rfl, rfl⟩ := UnaryOp.of_builtinType? h
  cases op <;> rfl

/-- A built-in operator computes a scalar of the kind that it is applied to, or compares. -/
lemma BinaryOp.computes {op : BinaryOp} {t u r : Ty} (h : op.builtinType? t u = some r)
    (hu : u.isError = false) : (Lowering.binaryKind op).Computes r.code [t.code, u.code] := by
  obtain ⟨hc, ht, -⟩ := BinaryOp.of_builtinType? h
  rw [← Ty.code_eq_of_compatible hc ht hu]
  simp only [builtinType?, hc, if_true] at h
  split at h
  · split at h
    · rename_i hop
      obtain rfl := Option.some.inj h
      obtain rfl | rfl := hop <;> exact ⟨rfl, _, rfl⟩
    · cases h
  · cases op <;> simp only [scalarType?] at h
    all_goals first
      | (split at h
         · obtain rfl := Option.some.inj h
           first | rfl | exact ⟨rfl, _, rfl⟩
         · cases h)
      | (obtain rfl := Option.some.inj h
         exact ⟨rfl, _, rfl⟩)
  · cases h

/-- The machine types of numbers are numbers. -/
lemma Ty.isNumber_code {t : Ty} (h : t.isNumeric) : t.code.IsNumber := by
  cases t with
  | scalar m k =>
    cases k with
    | bool => cases h
    | _ => exact ⟨_, rfl, nofun, nofun⟩
  | _ => cases h

namespace Lowering

open Code

/-- A constant has the machine type of its literal. -/
lemma type_constant {l : Literal} {k : ScalarKind} (hk : ScalarKind.ofName? l.typeName = some k) :
    (constant l).type = (Ty.scalar .const k).code := by
  have hmem := l.typeName_mem
  unfold constant
  cases hv : l.value with
  | bool b =>
    simp only [hv, LiteralValue.typeNames, List.mem_singleton] at hmem
    rw [hmem] at hk
    obtain rfl := Option.some.inj hk
    rfl
  | int n => simp [hk, Const.ofInt, Ty.code]
  | real x => simp [hk, Const.ofReal, Ty.code]

/-- Modifiers do not change what a member holds. -/
lemma holds_withModifier {m : StructMember} {t : Ty} {q : Modifier} :
    m.Holds (t.withModifier q) ↔ m.Holds t := by
  cases t <;> rfl

/-! ## Lowered expressions -/

/-- **Sound storage**: a variable or place of a type, whose address is in no register. -/
structure Storage.Sound (T : Prop) (t : Ty) (s : Storage) : Prop where
  place : (Place.ofStorage t s).Sound T
  settled : ∀ a, s = .memory a → ∀ r, a ≠ .reg r

/-- A variable is sound storage for what it may hold. -/
lemma Storage.Sound.var {T : Prop} {t : Ty} {v : Var} (h : (Place.var v t).Sound T) :
    (Storage.var v).Sound T t :=
  ⟨h, fun _ hb => by cases hb⟩

/-- Storage at the address in a variable. -/
lemma Storage.Sound.pointer {T : Prop} {t : Ty} {v : Var}
    (h : (Place.memory (.var v) none t).Sound T) : (Storage.memory (.var v)).Sound T t :=
  ⟨h, fun _ hb r hr => by cases hb; cases hr⟩

/-- Storage in a stack slot. -/
lemma Storage.Sound.slot {T : Prop} {t : Ty} {s : Slot}
    (h : (Place.memory (.slot s) none t).Sound T) : (Storage.memory (.slot s)).Sound T t :=
  ⟨h, fun _ hb r hr => by cases hb; cases hr⟩

/-- **Storage for locals**: every visible local has storage of its type. -/
def Houses (T : Prop) (Γ : List Local) (L : Locals) : Prop :=
  ∀ l ∈ Γ, ∃ s, L.lookup l.id = some s ∧ s.Sound T l.type

/-- What the caller provides for results are addresses. -/
def Destinations (T : Prop) (ds : List (Option Operand)) : Prop :=
  ∀ d, some d ∈ ds → IsAddress T d

/-- **Lowered expressions**: what stands for a place is lowered to a place of its type, and every
expression to one operand for each of its values. -/
structure Lowered.Sound (env : Env) (T : Prop) (L : Locals) (x : Lowered) : Prop where
  place : ∀ t, x.expr.isAddressable → x.expr.types = [t] →
    Yields env T L x.place fun p => p.Sound T ∧ p.type = t ∧ (x.expr.isInMemory → p.IsMemory)
  values : ∀ ds, Destinations T ds →
    Yields env T L (x.values ds) fun os => List.Forall₂ (Denotes T) os x.expr.types

section Expressions

variable {env : Env} {e : Elaborated} {T : Prop} {L : Locals} {Γ : List Local} {x : Lowered}
  {t : Ty}

/-- The type of an expression is yielded. -/
lemma typeOf_yields {x : TExpr} (ht : x.types = [t]) : Yields env T L (typeOf x) (· = t) := by
  simp only [typeOf, TExpr.type?, ht]
  exact Yields.pure rfl

/-- Without destinations, nothing is asked of them. -/
lemma destinations_nil : Destinations T [] := nofun

/-- The value of an expression that yields one. -/
lemma Lowered.Sound.value_yields (hx : x.Sound env T L) (ht : x.expr.types = [t]) :
    Yields env T L x.value (Denotes T · t) := by
  refine Yields.bind (hx.values [] destinations_nil) fun os hos => ?_
  rw [ht] at hos
  obtain ⟨o, os', ho, hos', rfl⟩ := List.forall₂_cons_right_iff.1 hos
  obtain rfl := List.forall₂_nil_right_iff.1 hos'
  exact Yields.pure ho

/-- The place of a value that is not atomic. -/
lemma Lowered.Sound.object_yields (hx : x.Sound env T L) (ht : x.expr.types = [t])
    (hat : t.isAtomic = false) :
    Yields env T L x.object fun p => p.Sound T ∧ p.type = t ∧ p.IsMemory := by
  unfold Lowered.object
  split
  · rename_i ha
    exact (hx.place t ha ht).weaken fun p h => ⟨h.1, h.2.1, h.1.isMemory (h.2.1 ▸ hat)⟩
  · refine Yields.bind (hx.value_yields ht) fun v hv => ?_
    refine Yields.bind (typeOf_yields ht) fun u hu => Yields.pure ?_
    subst hu
    exact ⟨fun hT => ⟨hv.isAddress hat hT, fun h => nomatch hat.symm.trans h⟩, rfl, trivial⟩

/-- The address that a reader or writer is called on. -/
lemma Lowered.Sound.receiver_yields (hx : x.Sound env T L) (ht : x.expr.types = [t])
    {c : ClassRef} (hc : t.classOf? = some c) : Yields env T L x.receiver (IsAddress T) := by
  refine Yields.bind (typeOf_yields ht) fun u hu => ?_
  subst hu
  split
  · rename_i hptr
    refine (hx.value_yields ht).weaken fun o ho hT => ?_
    cases u with
    | ptr => exact (ho hT).1
    | _ => cases hptr
  · rename_i hptr
    have hat : u.isAtomic = false := by
      cases u <;> first | rfl | cases hc | exact absurd rfl hptr
    exact Yields.bind (hx.object_yields ht hat) fun p hp => address_yields hp.1 hp.2.2

/-! ## Calls -/

/-- Slots to which variables were copied: they hold just the values of the variables. -/
def Spilled (T : Prop) (back : List (Operand × Var)) : Prop :=
  T → ∀ q ∈ back, ∃ s : Slot, q.1 = .slot s ∧ s.struct = none ∧ s.size = q.2.type.size

/-- A slot that holds just one value may be written and read. -/
lemma accesses_slot {s : Slot} {t : VType} (hs : s.struct = none) (hsize : s.size = t.size) :
    Accesses (.slot s) none t :=
  ⟨⟨nofun, rfl⟩, fun r hr => by
    obtain rfl := Operand.slot.inj hr
    exact ⟨hs, hsize⟩⟩

/-- A variable is copied to a slot. -/
lemma spill_yields (v : Var) : Yields env T L (spill v) fun o =>
    ∃ s : Slot, o = .slot s ∧ s.struct = none ∧ s.size = v.type.size := by
  refine Yields.bind (Yields.newSlot _ _ _ _) fun o ho => ?_
  obtain ⟨s, rfl, hs, hsize⟩ := ho
  exact Yields.bind (Yields.emit rfl rfl fun _ => ⟨nofun, accesses_slot hs hsize⟩) fun _ _ =>
    Yields.pure ⟨s, rfl, hs, hsize⟩

/-- Variables are copied back. -/
lemma writeBack_yields : ∀ {back : List (Operand × Var)}, Spilled T back →
    Yields env T L (writeBack back) fun _ => True
  | [], _ => Yields.pure trivial
  | (o, v) :: back, h => by
    refine Lowers.define (fun _ => ⟨rfl, rfl⟩) (fun r hr hT => ⟨trivial, ?_⟩) fun r hr => ?_
    · obtain ⟨s, rfl, hs, hsize⟩ := h hT _ List.mem_cons_self
      exact accesses_slot hs (hsize.trans (congrArg VType.size hr.symm))
    · exact Yields.bind (Yields.emit rfl rfl fun _ => ⟨trivial, by simp, congrArg (· :: []) hr⟩)
        fun _ _ => writeBack_yields fun hT q hq => h hT q (List.mem_cons_of_mem _ hq)

/-- An argument that can be lowered against a parameter: an atomic value that is passed by address
has to stand for a place. -/
def Fills (a : Param) (x : TExpr) : Prop :=
  ∃ t, x.types = [t] ∧ a.type.compatible t ∧
    (a.type.isAtomic → a.type.modifier = .ref → x.isAddressable)

/-- What a parameter accepts fills it. -/
lemma fills_of_accepts {a : Param} {x : TExpr} (h : a.Accepts x) : Fills a x := by
  obtain ⟨t, ht, hc, hr⟩ := h
  exact ⟨t, ht, hc, fun _ => hr⟩

/-- An argument is lowered as its parameter asks for. -/
lemma argument_yields {a : Param} {x : Lowered} (hx : x.Sound env T L) (ha : Fills a x.expr)
    (hva : e.program.Valid a.type) (hvx : ∀ t ∈ x.expr.types, e.program.Valid t) :
    Yields env T L (argument a x)
      fun q => (T → q.1.HasType (paramType a.type)) ∧ Spilled T q.2 := by
  obtain ⟨t, ht, hc, href⟩ := ha
  have hvt : e.program.Valid t := hvx t (by simp [ht])
  have hat : a.type.isAtomic = t.isAtomic := hva.isAtomic_eq hvt hc
  have nothing : Spilled T [] := fun _ => by simp
  unfold argument
  split
  · rename_i hn
    have hn : a.type.isAtomic = false := by simpa using hn
    refine Yields.bind (hx.object_yields ht (hat ▸ hn)) fun p hp => ?_
    refine Yields.bind (address_yields hp.1 hp.2.2) fun o ho => Yields.pure ⟨?_, nothing⟩
    rw [paramType_of_isAtomic_eq_false hn]
    exact ho
  rename_i hn
  have hn : a.type.isAtomic = true := by simpa using hn
  split
  · rename_i hr
    have hptr : paramType a.type = .ptr := by simp [paramType, hr]
    rw [hptr]
    refine Yields.bind (hx.place t (href hn hr) ht) fun p hp => ?_
    cases p with
    | var v u =>
      refine Yields.bind (spill_yields v) fun o ho => Yields.pure ?_
      obtain ⟨s, rfl, hs⟩ := ho
      exact ⟨isAddress_slot s, fun _ q hq => by
        obtain rfl := List.mem_singleton.1 hq
        exact ⟨s, rfl, hs⟩⟩
    | memory =>
      exact Yields.bind (address_yields hp.1 trivial) fun o ho => Yields.pure ⟨ho, nothing⟩
  · rename_i hr
    refine Yields.bind (hx.value_yields ht) fun v hv => Yields.pure ⟨fun hT => ?_, nothing⟩
    have hcode : paramType a.type = t.code := by
      simp [paramType, hn, hr, Ty.code_eq_of_compatible hc hn hvt.isError_eq_false]
    rw [hcode]
    exact (hv hT).1

/-- Arguments are lowered as the parameters ask for. -/
lemma arguments_yields : ∀ {ps : List Param} {es : List TExpr},
    List.Forall₂ Fills ps es → (∀ a ∈ ps, e.program.Valid a.type) →
    (∀ x ∈ es, (expr x).Sound env T L ∧ (expr x).expr = x ∧ ∀ t ∈ x.types, e.program.Valid t) →
    Yields env T L (arguments ps (es.map expr)) fun q =>
      (T → List.Forall₂ Operand.HasType q.1 (passed ps)) ∧ Spilled T q.2
  | _, _, .nil, _, _ => Yields.pure ⟨fun _ => .nil, fun _ => by simp⟩
  | a :: ps, x :: es, .cons ha has, hps, hes => by
    obtain ⟨hx, hxe, hvx⟩ := hes x List.mem_cons_self
    refine Yields.bind (argument_yields hx (hxe.symm ▸ ha) (hps a List.mem_cons_self)
      (hxe.symm ▸ hvx)) fun (o, back) ho => ?_
    refine Yields.bind (arguments_yields has (fun b hb => hps b (List.mem_cons_of_mem a hb))
      fun y hy => hes y (List.mem_cons_of_mem x hy)) fun (os, more) hos => Yields.pure ?_
    refine ⟨fun hT => .cons (ho.1 hT) (hos.1 hT), fun hT q hq => ?_⟩
    obtain hq | hq := List.mem_append.1 hq
    · exact ho.2 hT q hq
    · exact hos.2 hT q hq

/-- Modifiers do not change what denotes a value. -/
@[simp] lemma denotes_withModifier {o : Operand} {m : Modifier} :
    Denotes T o (t.withModifier m) ↔ Denotes T o t := by
  simp [Denotes]

/-- What is known about the storage for the results `ps` of a call. -/
def Stored (T : Prop) (ps : List Param) (q : List Operand × List Operand × List Operand) : Prop :=
  List.Forall₂ (Denotes T) q.1 (ps.map Param.type) ∧
    (T → List.Forall₂ Operand.HasType q.2.1 (passed (ps.filter Param.isHidden))) ∧
    (T → List.Forall₂ Operand.HasType q.2.2
      ((ps.filter fun a => !a.isHidden).map fun a => a.type.code)) ∧
    ∀ o ∈ q.2.2, o.IsTarget

/-- The address of a result that is not atomic is passed. -/
lemma Stored.hidden {a : Param} {ps : List Param} {o : Operand}
    {q : List Operand × List Operand × List Operand} (h : Stored T ps q) (hh : a.isHidden)
    (ho : IsAddress T o) : Stored T (a :: ps) (o :: q.1, o :: q.2.1, q.2.2) := by
  have hat : a.type.isAtomic = false := by
    simp only [Param.isHidden, Bool.and_eq_true, Bool.not_eq_true'] at hh
    exact hh.2
  obtain ⟨h1, h2, h3, h4⟩ := h
  refine ⟨.cons (ho.denotes hat) h1, fun hT => ?_, ?_, h4⟩
  · rw [List.filter_cons_of_pos hh]
    refine .cons ?_ (h2 hT)
    show o.HasType (paramType a.type)
    rw [paramType_of_isAtomic_eq_false hat]
    exact ho hT
  · simpa [hh] using h3

/-- A result that is atomic is returned. -/
lemma Stored.out {a : Param} {ps : List Param} {r : Reg}
    {q : List Operand × List Operand × List Operand} (h : Stored T ps q) (hh : a.isHidden = false)
    (hr : r.type = a.type.code) : Stored T (a :: ps) (.reg r :: q.1, q.2.1, .reg r :: q.2.2) := by
  obtain ⟨h1, h2, h3, h4⟩ := h
  have htype : (Operand.reg r).HasType a.type.code := ⟨by simp, hr⟩
  refine ⟨.cons (denotes_of_isTarget trivial fun _ => hr) h1, ?_, fun hT => ?_,
    List.forall_mem_cons.2 ⟨trivial, h4⟩⟩
  · simpa [hh] using h2
  · simpa [hh] using And.intro htype (h3 hT)

/-- Storage is provided for every result. -/
lemma resultStorage_yields (he : env.Sound e) {ds : List (Option Operand)}
    (hds : Destinations T ds) : ∀ (ps : List Param) (i : Nat),
    (∀ a ∈ ps, e.program.Valid a.type) → Yields env T L (resultStorage ds i ps) (Stored T ps)
  | [], _, _ => Yields.pure ⟨.nil, fun _ => .nil, fun _ => .nil, by simp⟩
  | a :: ps, i, hps => by
    have hrest := resultStorage_yields he hds ps (i + 1) fun b hb =>
      hps b (List.mem_cons_of_mem a hb)
    unfold resultStorage
    split
    · rename_i hh
      split
      · rename_i d hd
        have ho : IsAddress T d := hds d (List.mem_of_getElem? hd)
        rw [pure_bind]
        exact Yields.bind hrest fun q h => Yields.pure (h.hidden hh ho)
      · refine Yields.bind (slotFor_yields he (hps a List.mem_cons_self) _) fun o ho => ?_
        obtain ⟨s, rfl⟩ := ho
        exact Yields.bind hrest fun q h => Yields.pure (h.hidden hh (isAddress_slot s))
    · rename_i hh
      refine Yields.bind (Yields.newReg _) fun o ho => ?_
      obtain ⟨r, rfl, hr⟩ := ho
      exact Yields.bind hrest fun q h => Yields.pure (h.out (Bool.eq_false_iff.2 hh) hr)

/-- Operands that have the given types. -/
def HaveTypes (T : Prop) (os : List Operand) (ts : List VType) : Prop :=
  List.Forall₂ (fun o t => T → o.HasType t) os ts

/-- Operands have the types that are known. -/
lemma HaveTypes.forall₂ {os : List Operand} {ts : List VType} (h : HaveTypes T os ts) (hT : T) :
    List.Forall₂ Operand.HasType os ts :=
  h.imp fun _ _ h => h hT

/-- A declaration of a function: the instance, the parameters and the addresses of results are
passed, the other results are returned. -/
structure Declares (d : FuncDecl) (ts : List VType) (s : Signature) : Prop where
  params_eq : d.params = ts ++ passed (s.params ++ s.hiddenResults)
  results_eq : d.results = s.valueResults.map fun a => a.type.code

/-- Arguments that are lowered against the parameters of a function. -/
structure Arguments (env : Env) (e : Elaborated) (T : Prop) (L : Locals) (s : Signature)
    (args : List TExpr) : Prop where
  fills : List.Forall₂ Fills s.params args
  params_valid : ∀ a ∈ s.params, e.program.Valid a.type
  results_valid : ∀ a ∈ s.results, e.program.Valid a.type
  sound : ∀ x ∈ args, (expr x).Sound env T L ∧ (expr x).expr = x ∧ ∀ t ∈ x.types, e.program.Valid t

/-- **Calls** pass and receive what the declaration asks for. -/
lemma call_yields (he : env.Sound e) {s : Signature} {d : FuncDecl} {selfTypes : List VType}
    (hd : Declares d selfTypes s) (hcalls : env.Calls d) {self : Lower (List Operand)}
    (hself : Yields env T L self (HaveTypes T · selfTypes))
    {args : List TExpr} (ha : Arguments env e T L s args) {ds : List (Option Operand)}
    (hds : Destinations T ds) :
    Yields env T L (call s (some d) self (args.map expr) ds) fun q =>
      HaveTypes T q.1 selfTypes ∧ List.Forall₂ (Denotes T) q.2 s.resultTypes := by
  refine Yields.bind hself fun os hos => ?_
  refine Yields.bind (arguments_yields ha.fills ha.params_valid ha.sound) fun (as, back) has => ?_
  refine Yields.bind (resultStorage_yields he hds s.results 0 ha.results_valid)
    fun (results, hidden, outs) hres => ?_
  obtain ⟨hresults, hhidden, houts, htargets⟩ := hres
  have rest : Yields env T L (do
      writeBack back
      return (os, results)) fun q =>
        HaveTypes T q.1 selfTypes ∧ List.Forall₂ (Denotes T) q.2 s.resultTypes := by
    refine Yields.bind (writeBack_yields has.2) fun _ _ => Yields.pure ⟨hos, ?_⟩
    rw [Signature.resultTypes, List.forall₂_map_right_iff]
    simpa using List.forall₂_map_right_iff.1 hresults
  simp only
  split
  · refine Yields.bind (Yields.emit rfl rfl fun hT => ⟨hcalls, ?_, ?_, htargets⟩) fun _ _ => rest
    · rw [hd.params_eq, passed, List.map_append, ← List.append_assoc]
      exact List.rel_append (List.rel_append (hos.forall₂ hT) (has.1 hT)) (hhidden hT)
    · rw [hd.results_eq]
      exact houts hT
  · exact rest

/-- The instance, if a function has one. -/
def selfTypes (f : MemberFunction) : List VType := if f.hasSelf then [.ptr] else []

/-- Readers and writers have an instance. -/
lemma selfTypes_of_kind {f : MemberFunction} (hk : f.kind = .reader ∨ f.kind = .writer) :
    selfTypes f = [.ptr] := by
  obtain hk | hk := hk <;> simp [selfTypes, MemberFunction.hasSelf, hk]

/-- Calls of member functions. -/
lemma callMember_yields (he : env.Sound e) {f : MemberFunction} (hf : e.program.Declares f)
    {self : Lower (List Operand)}
    (hself : Yields env T L self (HaveTypes T · (selfTypes f)))
    {args : List TExpr} (ha : Arguments env e T L f.sig args) {ds : List (Option Operand)}
    (hds : Destinations T ds) :
    Yields env T L (callMember f self (args.map expr) ds) fun q =>
      HaveTypes T q.1 (selfTypes f) ∧ List.Forall₂ (Denotes T) q.2 f.sig.resultTypes := by
  obtain ⟨n, hn⟩ := he.decls_eq f hf
  refine Yields.bind Yields.read fun env' henv => ?_
  subst henv
  rw [hn]
  exact call_yields he ⟨rfl, rfl⟩ (calls_of_lookup hn) hself ha hds

/-- Calls of routines and operators. -/
lemma callRoutine_yields (he : env.Sound e) {f : MemberFunction} (hf : e.program.Declares f)
    (hk : f.kind = .routine ∨ f.kind = .operator) {args : List TExpr}
    (ha : Arguments env e T L f.sig args) {ds : List (Option Operand)}
    (hds : Destinations T ds) :
    Yields env T L (callRoutine f (args.map expr) ds) fun os =>
      List.Forall₂ (Denotes T) os f.sig.resultTypes := by
  have hself : f.hasSelf = false := by
    obtain hk | hk := hk <;> simp [MemberFunction.hasSelf, hk]
  unfold callRoutine
  simp only [hself, Bool.false_eq_true, if_false]
  refine Yields.bind (callMember_yields he hf (Yields.pure ?_) ha hds) fun q hq =>
    Yields.pure hq.2
  rw [selfTypes, hself]
  exact .nil

/-- Construction of values. -/
lemma callCreate_yields (he : env.Sound e) {f : MemberFunction} (hf : e.program.Declares f)
    (hk : f.kind = .create) {args : List TExpr} (ha : Arguments env e T L f.sig args)
    {ds : List (Option Operand)} (hds : Destinations T ds) :
    Yields env T L (callCreate f (args.map expr) ds) fun os =>
      List.Forall₂ (Denotes T) os [.ofClass f.cls] := by
  have hself : selfTypes f = [.ptr] := by simp [selfTypes, MemberFunction.hasSelf, hk]
  have hvalid : e.program.Valid (.ofClass f.cls) := by
    obtain ⟨d, hd, hm⟩ := hf
    exact ⟨d, hd, (((he.program_wf.classes_valid d hd).funcs_own f hm).1).symm⟩
  refine Yields.bind (callMember_yields he hf (T := T) (L := L) ?_ ha hds) fun q hq =>
    Yields.pure ?_
  · split
    · rename_i d _
      exact Yields.pure (hself ▸ .cons (hds d List.mem_cons_self) .nil)
    · refine Yields.bind (slotFor_yields he hvalid _) fun o ho => Yields.pure ?_
      obtain ⟨s, rfl⟩ := ho
      exact hself ▸ .cons (isAddress_slot s) .nil
  · obtain ⟨o, os, ho, hos, hq⟩ := List.forall₂_cons_right_iff.1 (hself ▸ hq.1)
    obtain rfl := List.forall₂_nil_right_iff.1 hos
    exact hq ▸ .cons (IsAddress.denotes ho rfl) .nil

/-- Calls of foreign functions. -/
lemma callForeign_yields (he : env.Sound e) {f : Foreign} (hf : f ∈ e.program.foreigns)
    {args : List TExpr} (ha : Arguments env e T L f.sig args) {ds : List (Option Operand)}
    (hds : Destinations T ds) :
    Yields env T L (do
      return (← call f.sig ((← read).foreigns.lookup f.name) (return []) (args.map expr) ds).2)
      fun os => List.Forall₂ (Denotes T) os f.sig.resultTypes := by
  have hvalid := he.program_wf.foreigns_valid f hf
  have hhidden : ∀ a ∈ f.sig.results, a.isHidden = false := fun a hr => by
    simp [Param.isHidden, (hvalid.results_valid a hr).2.1]
  have hd : Declares (foreignDecl f) [] f.sig := by
    have hnone : f.sig.hiddenResults = [] := List.filter_eq_nil_iff.2 fun a hr => by
      simp [hhidden a hr]
    have hall : f.sig.valueResults = f.sig.results := List.filter_eq_self.2 fun a hr => by
      simp [hhidden a hr]
    refine ⟨?_, by rw [hall]; rfl⟩
    rw [hnone, List.append_nil, List.nil_append]
    refine List.map_congr_left fun a hp => ?_
    obtain ⟨-, hat, hm⟩ := hvalid.params_valid a hp
    simp [paramType, hat, hm]
  refine Yields.bind Yields.read fun env' henv => ?_
  subst henv
  have hlookup := he.foreigns_eq f hf
  rw [hlookup]
  have hcalls : env'.Calls (foreignDecl f) := by
    obtain ⟨l₁, l₂, hl, -⟩ := List.lookup_eq_some_iff.1 hlookup
    exact .inr (by simp [hl])
  exact Yields.bind (call_yields he hd hcalls (Yields.pure .nil) ha hds)
    fun q hq => Yields.pure hq.2

/-! ## Expressions -/

/-- Lowering keeps the expression. -/
@[simp] lemma expr_expr (x : TExpr) : (expr x).expr = x := by
  cases x with
  | unary _ _ _ f _ | binary _ _ _ f _ _ | method _ _ _ _ _ f | ccall _ _ _ _ f =>
    cases f <;> simp only [expr] <;> rfl
  | member _ _ _ _ v _ => cases v <;> simp only [expr] <;> rfl
  | routine _ _ _ _ _ f => rcases f with _ | ⟨_ | _ | _⟩ <;> simp only [expr] <;> rfl
  | _ => simp only [expr]; rfl

/-- Expressions are lowered each on its own. -/
lemma exprs_eq_map (xs : List TExpr) : exprs xs = xs.map expr := by
  induction xs with
  | nil => simp only [exprs, List.map_nil]
  | cons x xs ih => simp only [exprs, ih, List.map_cons]

/-- An expression that stands for a place. -/
lemma sound_ofPlace {x : TExpr} {place : Lower Place} (ht : x.types = [t])
    (hp : Yields env T L place fun p => p.Sound T ∧ p.type = t ∧ (x.isInMemory → p.IsMemory)) :
    (Lowered.ofPlace x place).Sound env T L where
  place u _ hu := by
    obtain rfl : t = u := by simpa using ht.symm.trans hu
    exact hp
  values _ _ := Yields.bind hp fun p hp => Yields.bind (fetch_yields hp.1) fun o ho =>
    Yields.pure (by
      show List.Forall₂ (Denotes T) [o] x.types
      rw [ht]
      exact .cons (hp.2.1 ▸ ho) .nil)

/-- An expression that only has values. -/
lemma sound_ofValues {x : TExpr} {values : List (Option Operand) → Lower (List Operand)}
    (hx : x.isAddressable = false)
    (hv : ∀ ds, Destinations T ds →
      Yields env T L (values ds) fun os => List.Forall₂ (Denotes T) os x.types) :
    (Lowered.ofValues x values).Sound env T L where
  place _ ha := by
    rw [show (Lowered.ofValues x values).expr = x from rfl, hx] at ha
    cases ha
  values := hv

/-- An expression with one value. -/
lemma sound_ofValue {x : TExpr} {value : Lower Operand} (hx : x.isAddressable = false)
    (ht : x.types = [t]) (hv : Yields env T L value (Denotes T · t)) :
    (Lowered.ofValue x value).Sound env T L :=
  sound_ofValues hx fun _ _ => Yields.bind hv fun _ ho => Yields.pure (ht ▸ .cons ho .nil)

/-- The place of a local. -/
lemma localPlace_yields (hL : Houses T Γ L) {x : TExpr} {l : Local} (hl : l ∈ Γ)
    (ht : x.types = [l.type]) (hm : x.isInMemory = false) :
    Yields env T L (localPlace x (some l)) fun p =>
      p.Sound T ∧ p.type = l.type ∧ (x.isInMemory → p.IsMemory) := by
  obtain ⟨s, hs, hsound⟩ := hL l hl
  refine Yields.bind (typeOf_yields ht) fun u hu => ?_
  subst hu
  refine Yields.bind (R := (· = s)) (Lowers.get fun b hb => ?_) fun s' hs' => Yields.pure ?_
  · subst hb
    rw [hs]
    exact Yields.pure rfl
  · subst hs'
    refine ⟨hsound.place, by cases s' <;> rfl, ?_⟩
    rw [hm]
    nofun

/-- The place of a member variable. -/
lemma memberPlace_yields (he : env.Sound e) {y : TExpr} {x : Lowered} (hx : x.Sound env T L)
    {u : Ty} (hu : x.expr.types = [u]) {c : ClassRef} (hc : u.classOf? = some c) {v : MemberVar}
    (hv : v ∈ (e.program.classOf c).vars) {m : Modifier}
    (ht : y.types = [v.type.withModifier m]) :
    Yields env T L (memberPlace y x v) fun p =>
      p.Sound T ∧ p.type = v.type.withModifier m ∧ (y.isInMemory → p.IsMemory) := by
  obtain ⟨⟨d, hd, -, hvd⟩, -⟩ := he.program_wf.var_of_mem_classOf hv
  refine Yields.bind (typeOf_yields ht) fun t' ht' => ?_
  subst ht'
  refine Yields.bind (memberOf_yields he hd hvd) fun sm hsm => ?_
  have hholds : T → sm.Holds (v.type.withModifier m) := fun _ => holds_withModifier.2 hsm.holds
  refine Yields.bind (typeOf_yields hu) fun u' hu' => ?_
  subst hu'
  split
  · rename_i hptr
    refine Yields.bind (hx.value_yields hu) fun base hbase =>
      Yields.pure ⟨?_, rfl, fun _ => trivial⟩
    have hbase : IsAddress T base := fun hT => by
      cases u' with
      | ptr => exact (hbase hT).1
      | _ => cases hptr
    exact fun hT => ⟨hbase hT, by simpa [Offset.ofPath, Offset.add] using hholds hT⟩
  · rename_i hptr
    have hat : u'.isAtomic = false := by
      cases u' <;> first | rfl | cases hc | exact absurd rfl hptr
    refine Yields.bind (hx.object_yields hu hat) fun p hp => Yields.pure ?_
    obtain ⟨hs, hm⟩ := hp.1.field hp.2.2 hholds
    exact ⟨hs, rfl, fun _ => hm⟩

/-- The place of an element of a container. -/
lemma elementPlace_yields (he : env.Sound e) {y : TExpr} {x i : Lowered} (hx : x.Sound env T L)
    (hi : i.Sound env T L) {m m' m'' : Modifier} {k : SeqKind}
    (hu : x.expr.types = [.container m k t]) (hv : e.program.Valid t)
    (hn : i.expr.types = [.scalar m' .index]) (ht : y.types = [t.withModifier m'']) :
    Yields env T L (elementPlace y x i) fun p =>
      p.Sound T ∧ p.type = t.withModifier m'' ∧ (y.isInMemory → p.IsMemory) := by
  refine Yields.bind (typeOf_yields ht) fun t' ht' => ?_
  subst ht'
  refine Yields.bind (typeOf_yields hu) fun u' hu' => ?_
  subst hu'
  refine Yields.bind (hx.object_yields hu rfl) fun header hh => ?_
  refine Yields.bind (loadField_yields hh.1 hh.2.2 rfl) fun data hdata => ?_
  refine Yields.bind (hi.value_yields hn) fun n hn => ?_
  have hn : IsIndex T n := fun hT => (hn hT).1
  refine Yields.bind (sizeOf_yields he hv) fun (size, align) _ => ?_
  have element : ∀ n, IsIndex T n → Yields env T L (do
      let addr ← compute .ptrAdd .ptr [data, n]
      return Place.memory addr none (t.withModifier m'')) fun p =>
        p.Sound T ∧ p.type = t.withModifier m'' ∧ (y.isInMemory → p.IsMemory) := by
    intro n hn
    refine Yields.bind (compute_yields fun hT => ⟨?_, rfl, ?_⟩) fun addr ha => Yields.pure ?_
    · simpa using ⟨hdata.1.ne_absent, (hn hT).1⟩
    · simp [hdata.2, (hn hT).2]
    · refine ⟨fun hT => ⟨⟨ha.1.ne_absent, ha.2⟩, fun _ s hs => ?_⟩, rfl, fun _ => trivial⟩
      rw [hs] at ha
      exact ha.1
  simp only
  split
  · exact element n hn
  · exact Yields.bind (computeIndex_yields hn _ rfl) element

/-- **Typed expressions are lowered.**

**Proof sketch.** By induction on the typing. A name finds its storage; a member finds its place in
the layout of its class; an element and a target of a pointer are at an address that was computed; a
call passes what its declaration asks for, and yields the results of its signature. -/
theorem expr_sound (he : env.Sound e) (hL : Houses T Γ L) (hΓ : ∀ l ∈ Γ, e.program.Valid l.type)
    {x : TExpr} (hx : x.Typed e.program Γ) : (expr x).Sound env T L := by
  have hp := he.program_wf
  have valid : ∀ {y : TExpr}, y.Typed e.program Γ → ∀ t ∈ y.types, e.program.Valid t :=
    fun hy => hy.valid hp hΓ
  have arguments : ∀ {s : Signature} {args : List TExpr}, s.Takes args →
      (∀ a ∈ s.params, e.program.Valid a.type) → (∀ a ∈ s.results, e.program.Valid a.type) →
      (∀ a ∈ args, a.Typed e.program Γ) → (∀ a ∈ args, (expr a).Sound env T L) →
      Arguments env e T L s args := fun htakes hps hrs hargs hs =>
    ⟨htakes.imp fun _ _ => fills_of_accepts, hps, hrs,
      fun a ha => ⟨hs a ha, expr_expr a, valid (hargs a ha)⟩⟩
  have member : ∀ {f : MemberFunction} {args : List TExpr}, e.program.Declares f →
      f.sig.Takes args → (∀ a ∈ args, a.Typed e.program Γ) →
      (∀ a ∈ args, (expr a).Sound env T L) → Arguments env e T L f.sig args :=
    fun hf htakes => arguments htakes (fun a ha => ((hf.validFunc hp).params_valid a ha).1)
      fun a ha => ((hf.validFunc hp).results_valid a ha).1
  induction hx with
  | ident hl =>
    simp only [expr]
    exact sound_ofPlace rfl (localPlace_yields hL hl rfl rfl)
  | self hl =>
    simp only [expr]
    exact sound_ofPlace rfl (localPlace_yields hL hl rfl rfl)
  | literal hk =>
    simp only [expr]
    exact sound_ofValue rfl rfl (Yields.pure fun _ => ⟨⟨nofun, type_constant hk⟩, nofun⟩)
  | unary _ ht hr ih =>
    simp only [expr]
    refine sound_ofValue rfl rfl (Yields.bind (ih.value_yields (by simpa using ht)) fun o ho => ?_)
    refine Yields.bind (typeOf_yields rfl) fun t' ht' => ?_
    subst ht'
    refine (compute_yields fun hT => ⟨by simpa using (ho hT).1.1, ?_⟩).weaken fun o h =>
      denotes_of_isTarget h.1 fun _ => h.2
    simpa [(ho hT).1.2] using UnaryOp.computes hr
  | unaryCall hx hf hk ha ih =>
    simp only [expr]
    exact sound_ofValues rfl fun ds hds => callRoutine_yields he hf (.inr hk)
      (member hf ha (by simpa using hx) (by simpa using ih)) hds
  | binary _ hy ht hu hr ihx ihy =>
    simp only [expr]
    refine sound_ofValue rfl rfl (Yields.bind (ihx.value_yields (by simpa using ht)) fun a ha => ?_)
    refine Yields.bind (ihy.value_yields (by simpa using hu)) fun b hb => ?_
    refine Yields.bind (typeOf_yields rfl) fun t' ht' => ?_
    subst ht'
    refine (compute_yields fun hT => ⟨by simpa using ⟨(ha hT).1.1, (hb hT).1.1⟩, ?_⟩).weaken
      fun o h => denotes_of_isTarget h.1 fun _ => h.2
    simpa [(ha hT).1.2, (hb hT).1.2] using
      BinaryOp.computes hr (valid hy _ (by simp [hu])).isError_eq_false
  | binaryCall hx hy hf hk ha ihx ihy =>
    simp only [expr]
    exact sound_ofValues rfl fun ds hds => callRoutine_yields he hf (.inr hk)
      (member hf ha (by simpa using ⟨hx, hy⟩) (by simpa using ⟨ihx, ihy⟩)) hds
  | size _ ht ih =>
    simp only [expr]
    refine sound_ofValue rfl rfl (Yields.bind (typeOf_yields (by simpa using ht)) fun t' ht' => ?_)
    subst ht'
    refine Yields.bind (ih.object_yields (by simpa using ht) rfl) fun p hp => ?_
    exact (loadField_yields hp.1 hp.2.2 rfl).weaken fun o h => denotes_of_isTarget h.1 fun _ => h.2
  | member _ ht hc hv ih =>
    simp only [expr]
    exact sound_ofPlace rfl (memberPlace_yields he ih (by simpa using ht) hc hv rfl)
  | index hx _ ht hu ihx ihi =>
    simp only [expr]
    have hcontainer := valid hx _ (ht ▸ List.mem_singleton_self _)
    exact sound_ofPlace rfl (elementPlace_yields he ihx ihi (by simpa using ht) hcontainer
      (by simpa using hu) rfl)
  | deref _ ht ih =>
    simp only [expr]
    refine sound_ofPlace rfl (Yields.bind (typeOf_yields rfl) fun t' ht' => ?_)
    subst ht'
    refine Yields.bind (ih.value_yields (by simpa using ht)) fun o ho => Yields.pure ?_
    exact ⟨fun hT => ⟨(ho hT).1, fun _ => (ho hT).2 rfl⟩, rfl, fun _ => trivial⟩
  | method _ hargs ht hc hf hk ha ih ihs =>
    simp only [expr, exprs_eq_map]
    refine sound_ofValues rfl fun ds hds => ?_
    refine Yields.bind (callMember_yields he hf ?_ (member hf ha hargs ihs) hds)
      fun q hq => Yields.pure hq.2
    refine Yields.bind (ih.receiver_yields (by simpa using ht) hc) fun o ho => Yields.pure ?_
    exact selfTypes_of_kind hk ▸ .cons ho .nil
  | convert _ ht hn hk ih =>
    simp only [expr, exprs, convert]
    refine sound_ofValues rfl fun _ _ => ?_
    refine Yields.bind (ih.value_yields (by simpa using ht)) fun o ho => ?_
    refine Yields.bind (compute_yields fun hT => ⟨by simpa using (ho hT).1.1, ?_, ?_⟩)
      fun o h => Yields.pure (.cons (denotes_of_isTarget h.1 fun _ => h.2) .nil)
    · exact Ty.isNumber_code (t := .ofScalar _) (bne_iff_ne.2 hk)
    · exact ⟨_, Ty.isNumber_code hn, by simp [(ho hT).1.2]⟩
  | routine hargs hf hk ha ihs =>
    simp only [expr, exprs_eq_map]
    exact sound_ofValues rfl fun ds hds =>
      callRoutine_yields he hf (.inl hk) (member hf ha hargs ihs) hds
  | construct hargs hf hk ha ihs =>
    simp only [expr, exprs_eq_map]
    exact sound_ofValues rfl fun ds hds =>
      callCreate_yields he hf hk (member hf ha hargs ihs) hds
  | ccall hargs hf ha ihs =>
    simp only [expr, exprs_eq_map]
    have hvalid := hp.foreigns_valid _ hf
    exact sound_ofValues rfl fun ds hds => callForeign_yields he hf
      (arguments ha (fun a h => (hvalid.params_valid a h).1)
        (fun a h => (hvalid.results_valid a h).1) hargs ihs) hds

end Expressions

end Lowering

end Lane
