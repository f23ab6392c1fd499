import Lane.Analysis.Expr
import Lane.Proofs.Typing.Valid

set_option relaxedAutoImplicit false
set_option autoImplicit false

/-!
# Typed programs

When an elaborated program makes sense: every expression has the types that its parts give it, every
name is bound to a visible local, every call has arguments that agree with the function it selects,
and every pair of an assignment has a target and values that fit its kind.

## Main definitions

* `Lane.Signature.Takes`: arguments that agree with the parameters of a function.
* `Lane.TExpr.Typed`: typed expressions among visible locals.
* `Lane.Pair.Typed`, `Lane.AssignTyped`: typed assignments.
* `Lane.TStmt.Typed`: typed statements.

## Main results

* `Lane.TExpr.Typed.valid`: all types of a typed expression are valid.
* `Lane.TExpr.Typed.types_of_isAddressable`: what stands for a place has one type.
-/

namespace Lane

/-! ## Expressions -/

/-- An argument agrees with a parameter: it yields one value of a type that agrees, and it stands
for a place if the parameter is `ref`. -/
def Param.Accepts (a : Param) (e : TExpr) : Prop :=
  ∃ t, e.types = [t] ∧ a.type.compatible t ∧ (a.type.modifier = .ref → e.isAddressable)

/-- **Arguments** agree with the parameters of a function in number and one by one. -/
def Signature.Takes (s : Signature) (args : List TExpr) : Prop :=
  List.Forall₂ Param.Accepts s.params args

/-- **Typed expressions** of a program in which some locals are visible. -/
inductive TExpr.Typed (p : Program) (Γ : List Local) : TExpr → Prop
  | ident {pos : Position} {n : String} {l : Local} (hl : l ∈ Γ) :
    Typed p Γ (.ident pos [l.type] n (some l))
  | self {pos : Position} {l : Local} (hl : l ∈ Γ) : Typed p Γ (.self pos [l.type] (some l))
  | literal {pos : Position} {l : Literal} {k : ScalarKind}
      (hk : ScalarKind.ofName? l.typeName = some k) :
    Typed p Γ (.literal pos [.scalar .const k] l)
  | unary {pos : Position} {op : UnaryOp} {x : TExpr} {t r : Ty} (hx : Typed p Γ x)
      (ht : x.types = [t]) (hr : op.builtinType? t = some r) :
    Typed p Γ (.unary pos [r] op none x)
  | unaryCall {pos : Position} {op : UnaryOp} {x : TExpr} {f : MemberFunction} (hx : Typed p Γ x)
      (hf : p.Declares f) (hk : f.kind = .operator) (ha : f.sig.Takes [x]) :
    Typed p Γ (.unary pos f.sig.resultTypes op (some f) x)
  | binary {pos : Position} {op : BinaryOp} {x y : TExpr} {t u r : Ty} (hx : Typed p Γ x)
      (hy : Typed p Γ y) (ht : x.types = [t]) (hu : y.types = [u])
      (hr : op.builtinType? t u = some r) :
    Typed p Γ (.binary pos [r] op none x y)
  | binaryCall {pos : Position} {op : BinaryOp} {x y : TExpr} {f : MemberFunction}
      (hx : Typed p Γ x) (hy : Typed p Γ y) (hf : p.Declares f) (hk : f.kind = .operator)
      (ha : f.sig.Takes [x, y]) :
    Typed p Γ (.binary pos f.sig.resultTypes op (some f) x y)
  | size {pos : Position} {x : TExpr} {n : String} {m : Modifier} {k : SeqKind} {t : Ty}
      {foldable : Bool} (hx : Typed p Γ x) (ht : x.types = [.container m k t]) :
    Typed p Γ (.member pos [.scalar .const .index] x n none foldable)
  | member {pos : Position} {x : TExpr} {n : String} {t : Ty} {c : ClassRef} {v : MemberVar}
      {m : Modifier} {foldable : Bool} (hx : Typed p Γ x) (ht : x.types = [t])
      (hc : t.classOf? = some c) (hv : v ∈ (p.classOf c).vars) :
    Typed p Γ (.member pos [v.type.withModifier m] x n (some v) foldable)
  | index {pos : Position} {x i : TExpr} {m m' m'' : Modifier} {k : SeqKind} {t : Ty}
      (hx : Typed p Γ x) (hi : Typed p Γ i) (ht : x.types = [.container m k t])
      (hu : i.types = [.scalar m' .index]) :
    Typed p Γ (.index pos [t.withModifier m''] x i)
  | deref {pos : Position} {x : TExpr} {m : Modifier} {t : Ty} (hx : Typed p Γ x)
      (ht : x.types = [.ptr m t]) :
    Typed p Γ (.deref pos [t.withModifier .var] x)
  | method {pos : Position} {x : TExpr} {n : String} {args : List TExpr} {t : Ty} {c : ClassRef}
      {f : MemberFunction} (hx : Typed p Γ x) (hargs : ∀ a ∈ args, Typed p Γ a)
      (ht : x.types = [t]) (hc : t.classOf? = some c) (hf : p.Declares f)
      (hk : f.kind = .reader ∨ f.kind = .writer) (ha : f.sig.Takes args) :
    Typed p Γ (.method pos f.sig.resultTypes x n args (some f))
  | convert {pos : Position} {o : Option String} {n : String} {x : TExpr} {t : Ty}
      {k : ScalarKind} (hx : Typed p Γ x) (ht : x.types = [t]) (hn : t.isNumeric)
      (hk : k ≠ .bool) :
    Typed p Γ (.routine pos [.ofScalar k] o n [x] (some (.convert k)))
  | routine {pos : Position} {o : Option String} {n : String} {args : List TExpr}
      {f : MemberFunction} (hargs : ∀ a ∈ args, Typed p Γ a) (hf : p.Declares f)
      (hk : f.kind = .routine) (ha : f.sig.Takes args) :
    Typed p Γ (.routine pos f.sig.resultTypes o n args (some (.routine f)))
  | construct {pos : Position} {o : Option String} {n : String} {args : List TExpr}
      {f : MemberFunction} (hargs : ∀ a ∈ args, Typed p Γ a) (hf : p.Declares f)
      (hk : f.kind = .create) (ha : f.sig.Takes args) :
    Typed p Γ (.routine pos [.ofClass f.cls] o n args (some (.construct f)))
  | ccall {pos : Position} {n : String} {args : List TExpr} {f : Foreign}
      (hargs : ∀ a ∈ args, Typed p Γ a) (hf : f ∈ p.foreigns) (ha : f.sig.Takes args) :
    Typed p Γ (.ccall pos f.sig.resultTypes n args (some f))

/-- The name of the type of a literal is that of a scalar type. -/
lemma Literal.exists_ofName? (l : Literal) : ∃ k, ScalarKind.ofName? l.typeName = some k := by
  have known : ∀ (v : LiteralValue), ∀ n ∈ v.typeNames, (ScalarKind.ofName? n).isSome := by
    intro v
    cases v <;> simp only [LiteralValue.typeNames] <;> decide
  exact Option.isSome_iff_exists.1 (known l.value l.typeName l.typeName_mem)

/-- The built-in operators with one operand keep the type of a scalar. -/
lemma UnaryOp.of_builtinType? {op : UnaryOp} {t r : Ty} (h : op.builtinType? t = some r) :
    ∃ m k, t = .scalar m k ∧ r = .ofScalar k := by
  cases op <;> cases t <;> simp only [UnaryOp.builtinType?, reduceCtorEq] at h
  all_goals
    split at h
    · exact ⟨_, _, rfl, (Option.some.inj h).symm⟩
    · cases h

/-- The built-in operators with two operands yield scalars. -/
lemma BinaryOp.of_builtinType? {op : BinaryOp} {t u r : Ty} (h : op.builtinType? t u = some r) :
    t.compatible u ∧ t.isAtomic ∧ ∃ k, r = .ofScalar k := by
  unfold BinaryOp.builtinType? at h
  split at h
  case isFalse => cases h
  case isTrue hc =>
    refine ⟨hc, ?_⟩
    split at h
    · refine ⟨rfl, .bool, ?_⟩
      split at h
      · exact (Option.some.inj h).symm
      · cases h
    · refine ⟨rfl, ?_⟩
      cases op <;> simp only [BinaryOp.scalarType?] at h <;> try split at h
      all_goals first | cases h; done | exact ⟨_, (Option.some.inj h).symm⟩
    · cases h

namespace TExpr.Typed

variable {p : Program} {Γ : List Local} {e : TExpr}

/-- All types of a typed expression are valid.

**Proof sketch.** Those of a name are the types of visible locals, those of a call are the types of
the results of a well-formed function, and all others are parts of the types of operands or
scalars. -/
lemma valid (he : TExpr.Typed p Γ e) (hp : p.WellFormed) (hΓ : ∀ l ∈ Γ, p.Valid l.type) :
    ∀ t ∈ e.types, p.Valid t := by
  have results : ∀ f, p.Declares f → ∀ t ∈ f.sig.resultTypes, p.Valid t := by
    intro f hf t ht
    obtain ⟨a, ha, rfl⟩ := List.mem_map.1 ht
    exact Program.valid_withModifier.2 ((hf.validFunc hp).results_valid a ha).1
  induction he with
  | ident hl | self hl => simpa [types] using hΓ _ hl
  | literal | size => simp [types, Program.Valid]
  | unary _ _ hr =>
    obtain ⟨_, _, _, rfl⟩ := UnaryOp.of_builtinType? hr
    simp [types, Ty.ofScalar, Program.Valid]
  | unaryCall _ hf => exact results _ hf
  | binary _ _ _ _ hr =>
    obtain ⟨_, _, _, rfl⟩ := BinaryOp.of_builtinType? hr
    simp [types, Ty.ofScalar, Program.Valid]
  | binaryCall _ _ hf => exact results _ hf
  | member _ _ _ hv => simpa [types] using (hp.var_of_mem_classOf hv).2
  | index _ _ ht _ ihx =>
    have := ihx _ (by rw [ht]; exact List.mem_singleton_self _)
    simpa [types, Program.Valid] using this
  | deref _ ht ihx =>
    have := ihx _ (by rw [ht]; exact List.mem_singleton_self _)
    simpa [types, Program.Valid] using this
  | method _ _ _ _ hf => exact results _ hf
  | convert => simp [types, Ty.ofScalar, Program.Valid]
  | routine _ hf => exact results _ hf
  | construct _ hf =>
    obtain ⟨d, hd, hm⟩ := hf
    simpa [types, Ty.ofClass, Program.Valid] using
      ⟨d, hd, (((hp.classes_valid d hd).funcs_own _ hm).1).symm⟩
  | ccall _ hf =>
    intro t ht
    obtain ⟨a, ha, rfl⟩ := List.mem_map.1 ht
    exact Program.valid_withModifier.2 ((hp.foreigns_valid _ hf).results_valid a ha).1

/-- What stands for a place has one type. -/
lemma types_of_isAddressable (he : TExpr.Typed p Γ e) (ha : e.isAddressable) :
    ∃ t, e.types = [t] := by
  cases he <;> first | exact ⟨_, rfl⟩ | simp [isAddressable] at ha

/-- Only which locals are visible matters, not their order. -/
lemma mono {Δ : List Local} (he : TExpr.Typed p Γ e) (h : Γ ⊆ Δ) : TExpr.Typed p Δ e := by
  induction he with
  | ident hl => exact .ident (h hl)
  | self hl => exact .self (h hl)
  | literal hk => exact .literal hk
  | unary _ ht hr ih => exact .unary ih ht hr
  | unaryCall _ hf hk ha ih => exact .unaryCall ih hf hk ha
  | binary _ _ ht hu hr ihx ihy => exact .binary ihx ihy ht hu hr
  | binaryCall _ _ hf hk ha ihx ihy => exact .binaryCall ihx ihy hf hk ha
  | size _ ht ih => exact .size ih ht
  | member _ ht hc hv ih => exact .member ih ht hc hv
  | index _ _ ht hu ihx ihi => exact .index ihx ihi ht hu
  | deref _ ht ih => exact .deref ih ht
  | method _ _ ht hc hf hk ha ih ihs => exact .method ih ihs ht hc hf hk ha
  | convert _ ht hn hk ih => exact .convert ih ht hn hk
  | routine _ hf hk ha ihs => exact .routine ihs hf hk ha
  | construct _ hf hk ha ihs => exact .construct ihs hf hk ha
  | ccall _ hf ha ihs => exact .ccall ihs hf ha

end TExpr.Typed

/-! ## Assignments -/

/-- The results of expressions on the right of an assignment in order, the first expression being
number `source` there. -/
def resultsFrom (source : Nat) : List TExpr → List PairValue
  | [] => []
  | e :: es =>
    (e.types.zipIdx.map fun (t, i) => ⟨source, e.pos, i, t⟩) ++ resultsFrom (source + 1) es

/-- A target of a type: a new local, or an expression that stands for a place. -/
inductive TTarget.Typed (p : Program) (Γ D : List Local) : TTarget → Ty → Prop
  | decl {d : DeclSyntax} {l : Local} (hl : l ∈ D) : Typed p Γ D (.decl d l) l.type
  | expr {e : TExpr} {t : Ty} (he : e.Typed p Γ) (ha : e.isAddressable) (ht : e.types = [t]) :
    Typed p Γ D (.expr e) t

/-- **Typed pairs**: the target and the values fit the way in which the target gets its value. -/
inductive Pair.Typed (p : Program) (Γ D : List Local) (values : List TExpr) : Pair → Prop
  | zero {g : TTarget} {t : Ty} (hg : g.Typed p Γ D t) (ht : t.isAtomic) :
    Typed p Γ D values ⟨.copy, g, []⟩
  | copy {g : TTarget} {t : Ty} {v : PairValue} (hg : g.Typed p Γ D t) (ht : t.isAtomic)
      (hv : t.compatible v.type) :
    Typed p Γ D values ⟨.copy, g, [v]⟩
  | address {g : TTarget} {m : Modifier} {t : Ty} {v : PairValue} (hg : g.Typed p Γ D (.ptr m t))
      (hm : v.type.isAtomic → ∀ e, values[v.source]? = some e → e.isInMemory) :
    Typed p Γ D values ⟨.addressOf, g, [v]⟩
  | containerCopy {g : TTarget} {m : Modifier} {k : SeqKind} {t : Ty} {v : PairValue}
      (hg : g.Typed p Γ D (.container m k t)) (hv : Ty.compatible (.container m k t) v.type) :
    Typed p Γ D values ⟨.containerCopy, g, [v]⟩
  | containerEmpty {g : TTarget} {m : Modifier} {k : SeqKind} {t : Ty}
      (hg : g.Typed p Γ D (.container m k t)) :
    Typed p Γ D values ⟨.containerCreate, g, []⟩
  | containerAlloc {g : TTarget} {m : Modifier} {k : SeqKind} {t : Ty} {v : PairValue}
      (hg : g.Typed p Γ D (.container m k t)) (hv : v.type.isIndex) :
    Typed p Γ D values ⟨.containerCreate, g, [v]⟩
  | user {g : TTarget} {m : Modifier} {c : ClassRef} {f : MemberFunction} {vs : List PairValue}
      (hg : g.Typed p Γ D (.cls m c)) (hf : p.Declares f)
      (hk : f.kind = .create ∨ f.kind = .assign)
      (hvs : List.Forall₂ (fun (a : Param) (v : PairValue) => a.type.compatible v.type)
        f.sig.params vs) :
    Typed p Γ D values ⟨.user f, g, vs⟩
  | initializedByCaller {d : DeclSyntax} {l : Local} {v : PairValue} (hl : l ∈ D)
      (ht : l.type.isAtomic = false) :
    Typed p Γ D values ⟨.initializedByCaller, .decl d l, [v]⟩

/-- The locals that pairs declare. -/
def declaredBy (ps : List Pair) : List Local := ps.filterMap fun q => q.target.local?

/-- What the first pair declares comes first. -/
lemma declaredBy_cons (q : Pair) (ps : List Pair) :
    declaredBy (q :: ps) = q.target.local?.toList ++ declaredBy ps := by
  unfold declaredBy
  cases h : q.target.local? <;> simp [h]

/-- What pairs declare is a matter of their targets. -/
lemma declaredBy_eq (ps : List Pair) :
    declaredBy ps = (ps.map Pair.target).filterMap TTarget.local? := by
  simp [declaredBy, List.filterMap_map]

/-- **Typed assignments** among visible locals. The locals that it declares are new, and every
result on the right is a value of one pair. -/
structure AssignTyped (p : Program) (Γ : List Local) (values : List TExpr) (ps : List Pair)
    (discarded : List TExpr) : Prop where
  values_typed : ∀ e ∈ values, e.Typed p Γ ∧ e.types ≠ []
  discarded_typed : ∀ e ∈ discarded, e.Typed p Γ
  pairs_typed : ∀ q ∈ ps, q.Typed p Γ (declaredBy ps) values
  values_eq : ps.flatMap Pair.values = resultsFrom 0 values
  declared_valid : ∀ l ∈ declaredBy ps, p.Valid l.type
  ids_nodup : ((declaredBy ps).map Local.id).Nodup
  ids_new : ∀ l ∈ declaredBy ps, l.id ∉ Γ.map Local.id

section Mono

variable {p : Program} {Γ Δ D : List Local} {values : List TExpr}

/-- A target that is typed with some locals is typed with more. -/
lemma TTarget.Typed.mono {g : TTarget} {t : Ty} (hg : g.Typed p Γ D t) (h : Γ ⊆ Δ) :
    g.Typed p Δ D t := by
  cases hg with
  | decl hl => exact .decl hl
  | expr he ha ht => exact .expr (he.mono h) ha ht

/-- A pair that is typed with some locals is typed with more. -/
lemma Pair.Typed.mono {q : Pair} (hq : q.Typed p Γ D values) (h : Γ ⊆ Δ) :
    q.Typed p Δ D values := by
  cases hq with
  | zero hg ht => exact .zero (hg.mono h) ht
  | copy hg ht hv => exact .copy (hg.mono h) ht hv
  | address hg hm => exact .address (hg.mono h) hm
  | containerCopy hg hv => exact .containerCopy (hg.mono h) hv
  | containerEmpty hg => exact .containerEmpty (hg.mono h)
  | containerAlloc hg hv => exact .containerAlloc (hg.mono h) hv
  | user hg hf hk hvs => exact .user (hg.mono h) hf hk hvs
  | initializedByCaller hl ht => exact .initializedByCaller hl ht

/-- An assignment is typed among all lists of the same visible locals. -/
lemma AssignTyped.congr {ps : List Pair} {discarded : List TExpr}
    (ha : AssignTyped p Γ values ps discarded) (h : ∀ l, l ∈ Γ ↔ l ∈ Δ) :
    AssignTyped p Δ values ps discarded where
  values_typed e he := (ha.values_typed e he).imp_left fun ht => ht.mono fun l => (h l).1
  discarded_typed e he := (ha.discarded_typed e he).mono fun l => (h l).1
  pairs_typed q hq := (ha.pairs_typed q hq).mono fun l => (h l).1
  values_eq := ha.values_eq
  declared_valid := ha.declared_valid
  ids_nodup := ha.ids_nodup
  ids_new l hl hm := by
    obtain ⟨l', hl', he⟩ := List.mem_map.1 hm
    exact ha.ids_new l hl (List.mem_map.2 ⟨l', (h l').2 hl', he⟩)

end Mono

/-! ## Statements -/

/-- A typed condition: one boolean. -/
def TExpr.TypedCond (p : Program) (Γ : List Local) (e : TExpr) : Prop :=
  e.Typed p Γ ∧ ∃ m, e.types = [.scalar m .bool]

namespace TStmt

/-- The locals that a statement makes visible to the statements after it. -/
def declares : TStmt → List Local
  | .assign _ _ _ ps _ => declaredBy ps
  | _ => []

/-- The locals that statements make visible to what follows them in their block. -/
def declaresAll (ss : List TStmt) : List Local := ss.flatMap declares

mutual

/-- **Typed statements** among visible locals, inside a loop or outside of all loops. -/
def Typed (p : Program) (Γ : List Local) (inLoop : Bool) : TStmt → Prop
  | .assign _ _ vs ps ds => AssignTyped p Γ vs ps ds
  | .ifThen _ c _ b => c.TypedCond p Γ ∧ TypedAll p Γ inLoop b
  | .ifElse _ c _ b _ o => c.TypedCond p Γ ∧ TypedAll p Γ inLoop b ∧ TypedAll p Γ inLoop o
  | .whileLoop _ c _ b => c.TypedCond p Γ ∧ TypedAll p Γ true b
  | .repeatUntil _ _ b c => TypedAll p Γ true b ∧ c.TypedCond p (Γ ++ declaresAll b)
  | .block _ _ b => TypedAll p Γ inLoop b
  | .ret _ => True
  | .brk _ | .cont _ => inLoop = true

/-- Typed statements in order: each sees the locals of those before it. -/
def TypedAll (p : Program) (Γ : List Local) (inLoop : Bool) : List TStmt → Prop
  | [] => True
  | s :: ss => Typed p Γ inLoop s ∧ TypedAll p (Γ ++ declares s) inLoop ss

end

end TStmt

end Lane
