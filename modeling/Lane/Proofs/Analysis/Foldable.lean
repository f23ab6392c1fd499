import Lane.Proofs.Analysis.Protected
import Lane.Proofs.Analysis.Steps

set_option relaxedAutoImplicit false
set_option autoImplicit false

/-!
# Foldable members

The analysis calls an access to a member foldable if the value is reached from a variable by steps
to members, none of which goes through a pointer. Such a chain has one form, and an expression with
any other step on the way is none.

## Main definitions

* `Lane.TExpr.IsChain`: steps to members, from a local.
* `Lane.TExpr.Detours`: expressions with any other step.
* `Lane.TExpr.FoldsRight`, `Lane.TExpr.AllFold`: members are called foldable if they are.
* `Lane.Analysis.Always`: what holds of the result of an analysis, whatever the context was.

## Main results

* `Lane.TExpr.AllFold.exists_isChain`: what is called foldable is a chain.
* `Lane.TExpr.Detours.eq_false`: what has another step is not called foldable.
* `Lane.Analysis.expr_allFold`: members are called foldable if they are.
* `Lane.Analysis.bodies_each`: what holds of all expressions holds of those in bodies.
-/

namespace Lane

/-! ## Chains -/

namespace TExpr

/-- **Chains of members**: from the local `l` by steps to the member variables `vs`, each of which
is a member of a value and not of what a pointer points at. -/
inductive IsChain (l : Local) : TExpr → List MemberVar → Prop
  | ident {pos : Position} {ts : List Ty} {name : String} :
      IsChain l (.ident pos ts name (some l)) []
  | self {pos : Position} {ts : List Ty} : IsChain l (.self pos ts (some l)) []
  | member {pos : Position} {ts : List Ty} {x : TExpr} {t : Ty} {name : String} {v : MemberVar}
      {b : Bool} {vs : List MemberVar} (hx : IsChain l x vs) (ht : x.types = [t])
      (hptr : t.isPtr = false) : IsChain l (.member pos ts x name (some v) b) (vs ++ [v])

/-- **Detours**: an index, a pointer or a call is on the way. -/
inductive Detours : TExpr → Prop
  | unary {pos : Position} {ts : List Ty} {op : UnaryOp} {f : Option MemberFunction} {x : TExpr} :
      Detours (.unary pos ts op f x)
  | binary {pos : Position} {ts : List Ty} {op : BinaryOp} {f : Option MemberFunction}
      {x y : TExpr} : Detours (.binary pos ts op f x y)
  | index {pos : Position} {ts : List Ty} {x i : TExpr} : Detours (.index pos ts x i)
  | deref {pos : Position} {ts : List Ty} {x : TExpr} : Detours (.deref pos ts x)
  | method {pos : Position} {ts : List Ty} {x : TExpr} {name : String} {args : List TExpr}
      {f : Option MemberFunction} : Detours (.method pos ts x name args f)
  | routine {pos : Position} {ts : List Ty} {c : Option String} {name : String}
      {args : List TExpr} {f : Option CallTarget} : Detours (.routine pos ts c name args f)
  | ccall {pos : Position} {ts : List Ty} {name : String} {args : List TExpr}
      {f : Option Foreign} : Detours (.ccall pos ts name args f)
  | pointer {pos : Position} {ts : List Ty} {x : TExpr} {t : Ty} {name : String}
      {v : Option MemberVar} {b : Bool} (ht : x.types = [t]) (hptr : t.isPtr) :
      Detours (.member pos ts x name v b)
  | member {pos : Position} {ts : List Ty} {x : TExpr} {name : String} {v : Option MemberVar}
      {b : Bool} (hx : Detours x) : Detours (.member pos ts x name v b)

/-- **Members that are called foldable if they are**. Where the analysis of the value failed, there
is no member variable, and the access is not foldable. -/
def FoldsRight : TExpr → Prop
  | .member _ _ x _ v b =>
    (∃ t, x.types = [t] ∧ b = Analysis.foldableBase x t) ∨ (v = none ∧ b = false)
  | _ => True

/-- All members inside of an expression are called foldable if they are. -/
def AllFold (x : TExpr) : Prop := ∀ y, x.Has y → y.FoldsRight

section Chains

variable {p : Program} {Γ : List Local} {pos : Position} {ts : List Ty} {x : TExpr} {t : Ty}
  {name : String} {v : MemberVar} {b : Bool} {l : Local} {vs : List MemberVar}

/-- All folds are right if that of the expression is and those of its parts are. -/
lemma AllFold.intro (hx : x.FoldsRight) (hparts : ∀ y ∈ x.parts, y.AllFold) : x.AllFold := by
  intro z hz
  obtain rfl | ⟨y, hy, hz⟩ := has_iff.1 hz
  · exact hx
  · exact hparts y hy z hz

/-- Folds inside of an expression are right. -/
lemma AllFold.of_has {y : TExpr} (hx : x.AllFold) (hy : x.Has y) : y.AllFold := by
  intro z hz
  induction hy with
  | refl => exact hx z hz
  | part hy _ ih => exact ih (fun w hw => hx w (.part hy hw)) hz

/-- A chain of members is addressable. -/
lemma IsChain.isAddressable (h : x.IsChain l vs) : x.isAddressable := by
  cases h <;> rfl

/-- The value that a member is of. -/
lemma AllFold.value {v : Option MemberVar} (h : (member pos ts x name v b).AllFold) : x.AllFold :=
  h.of_has (.part (List.mem_singleton_self x) (.refl x))

/-- The verdict about the access to a member variable. -/
lemma AllFold.verdict (h : (member pos ts x name (some v) b).AllFold) :
    ∃ t, x.types = [t] ∧ b = Analysis.foldableBase x t :=
  (h _ (.refl _)).resolve_right fun h => nomatch h.1

/-- A base for foldable members is no pointer. -/
lemma isPtr_of_foldableBase (hb : Analysis.foldableBase x t) : t.isPtr = false := by
  simpa using (Bool.and_eq_true_iff.1 hb).1

/-- **What is a base for foldable members is a chain** from a visible local. -/
theorem AllFold.exists_isChain (h : x.AllFold) (hx : x.Typed p Γ)
    (hb : Analysis.foldableBase x t) : ∃ l ∈ Γ, ∃ vs, x.IsChain l vs := by
  induction hx generalizing t with
  | ident hl => exact ⟨_, hl, _, .ident⟩
  | self hl => exact ⟨_, hl, _, .self⟩
  | member _ _ _ _ ih =>
    obtain ⟨rfl, -⟩ := Bool.and_eq_true_iff.1 (Bool.and_eq_true_iff.1 hb).2
    obtain ⟨u, hu, hbase⟩ := h.verdict
    obtain ⟨l, hl, vs, hchain⟩ := ih h.value hbase.symm
    exact ⟨l, hl, _, .member hchain hu (isPtr_of_foldableBase hbase.symm)⟩
  | _ => simp [Analysis.foldableBase] at hb

/-- **A base with a detour** is none for foldable members. -/
lemma Detours.foldableBase_eq_false (hx : x.Detours) (h : x.AllFold) (t : Ty) :
    Analysis.foldableBase x t = false := by
  induction hx generalizing t with
  | @pointer pos ts x u name v b hu hptr =>
    obtain ⟨u', hu', rfl⟩ | ⟨rfl, rfl⟩ := h _ (.refl _)
    · obtain rfl := List.singleton_inj.1 (hu.symm.trans hu')
      simp [Analysis.foldableBase, hptr]
    · simp [Analysis.foldableBase]
  | @member pos ts x name v b _ ih =>
    obtain ⟨u, -, rfl⟩ | ⟨rfl, rfl⟩ := h _ (.refl _)
    · rw [ih h.value u]
      simp [Analysis.foldableBase]
    · simp [Analysis.foldableBase]
  | _ => simp [Analysis.foldableBase]

/-- **A member with a detour** is not called foldable. -/
theorem Detours.eq_false (hx : (TExpr.member pos ts x name (some v) b).Detours)
    (h : (TExpr.member pos ts x name (some v) b).AllFold) : b = false := by
  obtain ⟨t, ht, rfl⟩ := h.verdict
  cases hx with
  | pointer ht' hptr =>
    obtain rfl := List.singleton_inj.1 (ht.symm.trans ht')
    simp [Analysis.foldableBase, hptr]
  | member hx => exact hx.foldableBase_eq_false h.value t

end Chains

end TExpr

/-! ## Results of analyses -/

/-- A condition on the targets that are expressions and on the expressions on the right. -/
def AssignEach (R : TExpr → Prop) : AssignCondition := fun gs vs _ _ =>
  (∀ x ∈ gs.filterMap TTarget.expr?, R x) ∧ ∀ x ∈ vs, R x

namespace Analysis

/-- **Results of an analysis**, whatever the context was. -/
def Always {α : Type} (m : Analysis α) (R : α → Prop) : Prop := ∀ c, R (m.run c).1

section Always

variable {α β : Type} {R R' : α → Prop} {S : β → Prop} {m : Analysis α} {f : α → Analysis β}

/-- A result is always what it is. -/
lemma Always.pure {a : α} (h : R a) : Always (pure a) R := fun _ => h

/-- One analysis after the other. -/
lemma Always.bind (hm : Always m R) (hf : ∀ a, R a → Always (f a) S) : Always (m >>= f) S :=
  fun c => hf _ (hm c) _

/-- What comes first may give anything. -/
lemma Always.after (hf : ∀ a, Always (f a) S) : Always (m >>= f) S := fun _ => hf _ _

/-- Less may be said about the result. -/
lemma Always.imp (hm : Always m R) (h : ∀ a, R a → R' a) : Always m R' := fun c => h _ (hm c)

/-- Two things may be said about the result. -/
lemma Always.and (hm : Always m R) (hm' : Always m R') : Always m fun a => R a ∧ R' a :=
  fun c => ⟨hm c, hm' c⟩

/-- What steps give they always give. -/
lemma Steps.always {G : Context → Context → Prop} (hm : Steps Context.Alike G m R) : Always m R :=
  fun c => (hm.run c).2

/-- What is always so is so inside of a scope. -/
lemma inScope_always (hm : Always m R) : Always (inScope m) fun q => R q.2 := fun _ => hm _

/-- What is always so is so inside of a loop. -/
lemma inLoop_always (hm : Always m R) : Always (inLoop m) R := fun _ => hm _

end Always

/-! ### Members -/

/-- **The verdict about a member** is about the value that it is of. -/
lemma member_folds (pos : Position) (x : TExpr) (name : String) :
    Always (member pos x name) TExpr.FoldsRight := by
  have hsingle : Always (single x) fun t => x.types = [t] ∨ t.isError := by
    unfold single
    split
    · exact .pure (.inl ‹_›)
    · exact .after fun _ => .pure (.inr rfl)
  refine hsingle.bind fun t ht => ?_
  split
  · exact .pure (.inr ⟨rfl, rfl⟩)
  · have hfolds : ∀ {us : List Ty} {v : Option MemberVar},
        (TExpr.member pos us x name v (foldableBase x t)).FoldsRight :=
      .inl ⟨t, ht.resolve_right ‹_›, rfl⟩
    split
    · split
      · exact .pure hfolds
      · exact .after fun _ => .pure hfolds
    · refine .after fun _ => ?_
      split
      · exact .after fun _ => .pure hfolds
      · exact .pure hfolds
    · exact .after fun _ => .pure hfolds

mutual

/-- **All members in an expression** are called foldable if they are. -/
theorem expr_allFold : ∀ e : Expr, Always (expr e) TExpr.AllFold
  | .ident pos n => by
    refine .after fun c => ?_
    split
    · exact .pure (.intro trivial (List.forall_mem_nil _))
    · exact .after fun _ => .pure (.intro trivial (List.forall_mem_nil _))
  | .self pos => by
    refine .after fun c => ?_
    split
    · exact .pure (.intro trivial (List.forall_mem_nil _))
    · exact .after fun _ => .pure (.intro trivial (List.forall_mem_nil _))
  | .literal pos l =>
    (literal_steps pos l).always.imp (by
      rintro _ ⟨_, rfl⟩
      exact .intro trivial (List.forall_mem_nil _))
  | .unary pos op x =>
    (expr_allFold x).bind fun x' hx => (unary_steps pos op x').always.imp (by
      rintro _ ⟨_, _, rfl⟩
      exact .intro trivial (List.forall_mem_singleton.2 hx))
  | .binary pos op x y =>
    (expr_allFold x).bind fun x' hx => .after fun t => (expr_allFold y).bind fun y' hy =>
      .after fun u => (binary_steps pos op x' y' t u).always.imp (by
        rintro _ ⟨_, _, rfl⟩
        exact .intro trivial (List.forall_mem_cons.2 ⟨hx, List.forall_mem_singleton.2 hy⟩))
  | .member pos x n =>
    (expr_allFold x).bind fun x' hx =>
      ((member_steps pos x' n).always.and (member_folds pos x' n)).imp (by
        rintro _ ⟨⟨_, _, _, rfl⟩, hfolds⟩
        exact .intro hfolds (List.forall_mem_singleton.2 hx))
  | .index pos x i =>
    (expr_allFold x).bind fun x' hx => .after fun t => (expr_allFold i).bind fun i' hi =>
      .after fun u => (index_steps pos x' i' t u).always.imp (by
        rintro _ ⟨_, rfl⟩
        exact .intro trivial (List.forall_mem_cons.2 ⟨hx, List.forall_mem_singleton.2 hi⟩))
  | .deref pos x =>
    (expr_allFold x).bind fun x' hx => (deref_steps pos x').always.imp (by
      rintro _ ⟨_, rfl⟩
      exact .intro trivial (List.forall_mem_singleton.2 hx))
  | .method pos x n args =>
    (expr_allFold x).bind fun x' hx => .after fun t => (arguments_allFold args).bind fun q hq =>
      (method_steps pos x' n q.1 t q.2).always.imp (by
        rintro _ ⟨_, _, rfl⟩
        exact .intro trivial (List.forall_mem_cons.2 ⟨hx, hq⟩))
  | .routine pos owner n args =>
    (arguments_allFold args).bind fun q hq => (routine_steps pos owner n q.1 q.2).always.imp (by
      rintro _ ⟨_, _, rfl⟩
      exact .intro trivial hq)
  | .ccall pos n args =>
    (arguments_allFold args).bind fun q hq => (ccall_steps pos n q.1 q.2).always.imp (by
      rintro _ ⟨_, _, rfl⟩
      exact .intro trivial hq)

/-- All members in arguments are called foldable if they are. -/
theorem arguments_allFold : ∀ es : List Expr,
    Always (arguments es) fun q => ∀ x ∈ q.1, x.AllFold
  | [] => .pure (List.forall_mem_nil _)
  | e :: es =>
    (expr_allFold e).bind fun _ hx => .after fun _ =>
      (arguments_allFold es).bind fun _ hxs => .pure (List.forall_mem_cons.2 ⟨hx, hxs⟩)

end

/-! ### Statements -/

section Each

variable {R : TExpr → Prop}

/-- The expression of a target is analysed like any other. -/
lemma target_always (hR : ∀ e, Always (expr e) R) (hasValues : Bool) (g : Target) :
    Always (target hasValues g) fun q => ∀ x, q.1.expr? = some x → R x := by
  cases g with
  | decl d => exact .after fun _ => .after fun _ => .pure nofun
  | expr e =>
    refine (hR e).bind fun x hx => ?_
    have htarget : ∀ y, (TTarget.expr x).expr? = some y → R y := fun y hy =>
      Option.some.inj hy ▸ hx
    split
    · exact .after fun _ => .after fun _ => .pure htarget
    · exact .pure htarget

/-- The expressions of all targets are analysed like any other. -/
lemma targets_always (hR : ∀ e, Always (expr e) R) (hasValues : Bool) : ∀ gs : List Target,
    Always (targets hasValues gs) fun qs => ∀ x ∈ (qs.map Prod.fst).filterMap TTarget.expr?, R x
  | [] => .pure (List.forall_mem_nil _)
  | g :: gs => by
    refine (target_always hR hasValues g).bind fun q hq => ?_
    refine (targets_always hR hasValues gs).bind fun qs hqs => .pure fun x hx => ?_
    obtain ⟨g', hg', hx⟩ := List.mem_filterMap.1 hx
    obtain rfl | hg' := List.mem_cons.1 hg'
    · exact hq x hx
    · exact hqs x (List.mem_filterMap.2 ⟨g', hg', hx⟩)

/-- The values on the right are analysed like any other expression. -/
lemma values_always (hR : ∀ e, Always (expr e) R) : ∀ (es : List Expr) (source : Nat),
    Always (values source es) fun q => ∀ x ∈ q.1, R x
  | [], _ => .pure (List.forall_mem_nil _)
  | e :: es, source =>
    (hR e).bind fun _ hx => .after fun _ => (values_always hR es (source + 1)).bind fun _ hxs =>
      .pure (List.forall_mem_cons.2 ⟨hx, hxs⟩)

/-- An assignment is made of expressions for which `R` holds. -/
lemma assign_always (hR : ∀ e, Always (expr e) R) (pos : Position) (gs : List Target)
    (es : List Expr) : Always (assign pos gs es) (TStmt.Each (AssignEach R) R) := by
  refine (targets_always hR _ gs).bind fun ts hts => ?_
  refine (values_always hR es 0).bind fun q hq => .after fun _ => ?_
  split
  · exact .after fun _ => .pure ⟨hts, hq⟩
  · exact .after fun _ => .pure ⟨hts, hq⟩

/-- A condition is an expression for which `R` holds. -/
lemma condition_always (hR : ∀ e, Always (expr e) R) (e : Expr) : Always (condition e) R := by
  refine (hR e).bind fun _ hx => .after fun _ => ?_
  split
  · exact .after fun _ => .pure hx
  · exact .pure hx

mutual

/-- **What holds of all expressions** holds of those in a statement. -/
theorem statement_always (hR : ∀ e, Always (expr e) R) : ∀ s : Stmt,
    Always (statement s) (TStmt.Each (AssignEach R) R)
  | .assign pos gs es => assign_always hR pos gs es
  | .ifThen _ cond body =>
    (condition_always hR cond).bind fun _ hc =>
      (inScope_always (statements_always hR body)).bind fun _ hb => .pure ⟨hc, hb⟩
  | .ifElse _ cond body other =>
    (condition_always hR cond).bind fun _ hc =>
      (inScope_always (statements_always hR body)).bind fun _ hb =>
        (inScope_always (statements_always hR other)).bind fun _ ho => .pure ⟨hc, hb, ho⟩
  | .whileLoop _ cond body =>
    (condition_always hR cond).bind fun _ hc =>
      (inLoop_always (inScope_always (statements_always hR body))).bind fun _ hb => .pure ⟨hc, hb⟩
  | .repeatUntil _ body cond =>
    (inScope_always (R := fun q : List TStmt × TExpr => TStmt.EachAll (AssignEach R) R q.1 ∧ R q.2)
      ((inLoop_always (statements_always hR body)).bind fun _ hb =>
        (condition_always hR cond).bind fun _ hc => .pure ⟨hb, hc⟩)).bind
      fun _ h => .pure ⟨h.2, h.1⟩
  | .block _ body => (inScope_always (statements_always hR body)).bind fun _ hb => .pure hb
  | .ret _ => .pure trivial
  | .brk _ | .cont _ => .after fun _ => .pure trivial

/-- What holds of all expressions holds of those in statements. -/
theorem statements_always (hR : ∀ e, Always (expr e) R) : ∀ ss : List Stmt,
    Always (statements ss) (TStmt.EachAll (AssignEach R) R)
  | [] => .pure trivial
  | s :: ss =>
    (statement_always hR s).bind fun _ hs => (statements_always hR ss).bind fun _ hss =>
      .pure ⟨hs, hss⟩

end

/-- A body is made of such expressions. -/
lemma functionBody_always (hR : ∀ e, Always (expr e) R) (q : Pending) :
    Always (functionBody q) fun b => TStmt.EachAll (AssignEach R) R b.body := by
  unfold functionBody
  refine .after fun _ => .after fun _ => .after fun c => ?_
  refine (statements_always hR q.body).bind fun body hbody => .after fun d => .after fun _ => ?_
  exact .pure hbody

/-- All bodies are made of such expressions. -/
lemma bodies_always (hR : ∀ e, Always (expr e) R) : ∀ qs : List Pending,
    Always (qs.mapM functionBody) fun bs => ∀ b ∈ bs, TStmt.EachAll (AssignEach R) R b.body
  | [] => .pure (List.forall_mem_nil _)
  | q :: qs => by
    rw [List.mapM_cons]
    refine (functionBody_always hR q).bind fun b hb => ?_
    exact (bodies_always hR qs).bind fun _ hbs => .pure (List.forall_mem_cons.2 ⟨hb, hbs⟩)

/-- **What holds of all expressions** holds of those in the bodies of a program. -/
theorem bodies_each (hR : ∀ e, Always (expr e) R) (tree : ProgramSyntax) (ds : Diagnostics) :
    ∀ b ∈ (Elaborated.ofSyntax tree ds).1.bodies, TStmt.EachAll (AssignEach R) R b.body := by
  have hprogram : Always (program tree) fun e =>
      ∀ b ∈ e.bodies, TStmt.EachAll (AssignEach R) R b.body := by
    refine .after fun _ => .after fun _ => .after fun _ => .after fun qs => .after fun _ => ?_
    exact (bodies_always hR qs).bind fun _ hbs => .after fun _ => .after fun _ => .pure hbs
  exact hprogram _

end Each

end Analysis

end Lane
