import Lane.Lowering.Program
import Lane.Proofs.Analysis.Protected

set_option relaxedAutoImplicit false
set_option autoImplicit false

/-!
# Call sites

Where the code of a function has to call other functions: at the expressions that call one, and
where values are constructed, copied or assigned. The call sites of statements are listed in the
order in which they are evaluated, and every expression that calls a function is listed once. What
is left out is an expression statement that is no call by its form: it has no effect, the analysis
warns about it, and nothing in it is evaluated.

## Main definitions

* `Lane.TExpr.calls`: the expressions inside an expression that call functions.
* `Lane.CallSite`: what makes a call.
* `Lane.TStmt.calls`, `Lane.TStmt.idle`: the calls in statements, and those that are not evaluated.
* `Lane.TStmt.sites`: the call sites of statements in the order of evaluation.

## Main results

* `Lane.TExpr.mem_calls`: the calls in an expression are the expressions inside that call functions.
* `Lane.TStmt.perm_calls`: every call in a statement is a site, unless it is not evaluated.
-/

namespace Lane

open Code Lowering

/-- Select a create or assign of a class. -/
def Program.select (p : Program) (c : ClassRef) (kind : FuncKind) (args : List Ty) :
    Option MemberFunction :=
  ((p.classOf c).resolve kind.name args [kind]).toOption

/-- The declaration of a called function. A call that does nothing and returns no value is left
out. -/
def neededDecl (d : Option FuncDecl) (s : Signature) : Option FuncDecl :=
  d.filter fun d => !d.isTrivial || !s.valueResults.isEmpty

/-! ## Calls in expressions -/

namespace TExpr

/-- The expression itself, if it calls a function. -/
def ownCall (x : TExpr) : List TExpr := if x.callsFunction then [x] else []

mutual

/-- **The calls in an expression**, in the order in which they are evaluated. -/
def calls : TExpr → List TExpr
  | .ident .. | .self .. | .literal .. => []
  | .unary p ts op f x => calls x ++ ownCall (.unary p ts op f x)
  | .binary p ts op f x y => calls x ++ calls y ++ ownCall (.binary p ts op f x y)
  | .member _ _ x _ _ _ | .deref _ _ x => calls x
  | .index _ _ x i => calls x ++ calls i
  | .method p ts x n args f => calls x ++ callsAll args ++ ownCall (.method p ts x n args f)
  | .routine p ts c n args f => callsAll args ++ ownCall (.routine p ts c n args f)
  | .ccall p ts n args f => callsAll args ++ ownCall (.ccall p ts n args f)

/-- The calls in several expressions. -/
def callsAll : List TExpr → List TExpr
  | [] => []
  | x :: xs => calls x ++ callsAll xs

end

/-- The calls of expressions are those of each, in order. -/
lemma callsAll_eq_flatMap (xs : List TExpr) : callsAll xs = xs.flatMap calls := by
  induction xs with
  | nil => rfl
  | cons x xs ih => rw [callsAll, ih, List.flatMap_cons]

/-- The calls of two lists of expressions. -/
lemma callsAll_append (xs ys : List TExpr) : callsAll (xs ++ ys) = callsAll xs ++ callsAll ys := by
  simp [callsAll_eq_flatMap]

/-- The calls in an expression are those in its parts, and then its own. -/
lemma calls_eq (x : TExpr) : x.calls = callsAll x.parts ++ x.ownCall := by
  cases x <;> simp [calls, callsAll, parts, ownCall, callsFunction]

/-- The parts of an expression are smaller. -/
lemma sizeOf_lt_of_mem_parts {x y : TExpr} (h : y ∈ x.parts) : sizeOf y < sizeOf x := by
  cases x <;> simp only [parts, List.mem_cons, List.not_mem_nil, or_false] at h
  case method x _ args _ =>
    obtain rfl | h := h
    · simp +arith
    · have := List.sizeOf_lt_of_mem h
      simp only [TExpr.method.sizeOf_spec]
      omega
  case routine | ccall =>
    have := List.sizeOf_lt_of_mem h
    simp only [TExpr.routine.sizeOf_spec, TExpr.ccall.sizeOf_spec]
    omega
  all_goals
    first | subst h | obtain rfl | rfl := h
    all_goals simp +arith

/-- **The calls in an expression** are the expressions inside that call functions. -/
theorem mem_calls {x y : TExpr} : y ∈ x.calls ↔ x.Has y ∧ y.callsFunction := by
  have hparts : y ∈ callsAll x.parts ↔ (∃ z ∈ x.parts, z.Has y) ∧ y.callsFunction := by
    rw [callsAll_eq_flatMap, List.mem_flatMap]
    constructor
    · rintro ⟨z, hz, hy⟩
      exact ⟨⟨z, hz, (mem_calls.1 hy).1⟩, (mem_calls.1 hy).2⟩
    · rintro ⟨⟨z, hz, hy⟩, hcall⟩
      exact ⟨z, hz, mem_calls.2 ⟨hy, hcall⟩⟩
  have hown : y ∈ x.ownCall ↔ y = x ∧ y.callsFunction := by
    unfold ownCall
    split
    · rename_i hcall
      simp only [List.mem_singleton]
      exact ⟨fun h => ⟨h, h ▸ hcall⟩, And.left⟩
    · rename_i hcall
      simp only [List.not_mem_nil, false_iff]
      rintro ⟨rfl, h⟩
      exact hcall h
  rw [calls_eq, List.mem_append, hparts, hown, has_iff, ← or_and_right, or_comm]
termination_by sizeOf x
decreasing_by all_goals exact sizeOf_lt_of_mem_parts hz

/-- What is found when the declaration of the function that an expression calls is looked up. -/
def decl? (env : Env) : TExpr → Option FuncDecl
  | .unary _ _ _ (some f) _ | .binary _ _ _ (some f) _ _ | .method _ _ _ _ _ (some f)
  | .routine _ _ _ _ _ (some (.routine f)) | .routine _ _ _ _ _ (some (.construct f)) =>
    env.decls.lookup (f.cls.id, f.index)
  | .ccall _ _ _ _ (some f) => env.foreigns.lookup f.name
  | _ => none

/-- The declaration of the function that an expression calls, unless the call is left out: nothing
is left of a call that does nothing and returns no value. -/
def callee? (env : Env) : TExpr → Option FuncDecl
  | .unary _ _ _ (some f) _ | .binary _ _ _ (some f) _ _ | .method _ _ _ _ _ (some f)
  | .routine _ _ _ _ _ (some (.routine f)) | .routine _ _ _ _ _ (some (.construct f)) =>
    neededDecl (env.decls.lookup (f.cls.id, f.index)) f.sig
  | .ccall _ _ _ _ (some f) => neededDecl (env.foreigns.lookup f.name) f.sig
  | _ => none

end TExpr

/-! ## Call sites -/

/-- **Call sites**: an expression that calls a function, or a create or assign that is called for a
value. -/
inductive CallSite where
  | expr (x : TExpr)
  | value (f : MemberFunction)
  deriving Repr, Inhabited

namespace CallSite

/-- What is found when the declaration of the function that is called at a site is looked up. -/
def decl? (env : Env) : CallSite → Option FuncDecl
  | .expr x => x.decl? env
  | .value f => env.decls.lookup (f.cls.id, f.index)

/-- The declaration of the function that is called at a site, unless the call is left out. -/
def callee? (env : Env) : CallSite → Option FuncDecl
  | .expr x => x.callee? env
  | .value f => (env.decls.lookup (f.cls.id, f.index)).filter fun d => !d.isTrivial

/-- The declarations that a single call needs. -/
lemma filterMap_singleton (env : Env) (s : CallSite) :
    [s].filterMap (callee? env) = (s.callee? env).toList := by
  cases h : s.callee? env <;> simp [h]

/-- The expression of a site that is one. -/
def expr? : CallSite → Option TExpr
  | .expr x => some x
  | .value _ => none

/-- The sites of the calls in expressions. -/
def ofExprs (xs : List TExpr) : List CallSite := (TExpr.callsAll xs).map .expr

/-- The calls of an expression come before those of the others. -/
lemma ofExprs_cons (x : TExpr) (xs : List TExpr) :
    ofExprs (x :: xs) = ofExprs [x] ++ ofExprs xs := by
  simp [ofExprs, TExpr.callsAll]

/-- The calls of two lists of expressions, one after the other. -/
lemma ofExprs_append (xs ys : List TExpr) : ofExprs (xs ++ ys) = ofExprs xs ++ ofExprs ys := by
  simp [ofExprs, TExpr.callsAll_append]

/-- The sites in an expression that calls nothing are those in its parts. -/
lemma ofExprs_of_not_calls {x : TExpr} (h : x.callsFunction = false) :
    ofExprs [x] = ofExprs x.parts := by
  simp [ofExprs, TExpr.callsAll, TExpr.calls_eq x, TExpr.ownCall, h]

/-- The sites in an expression that calls a function are those in its parts, and its own. -/
lemma ofExprs_of_calls {x : TExpr} (h : x.callsFunction) :
    ofExprs [x] = ofExprs x.parts ++ [.expr x] := by
  simp [ofExprs, TExpr.callsAll, TExpr.calls_eq x, TExpr.ownCall, h]

/-- The expressions among the calls of expressions are their calls. -/
@[simp]
lemma filterMap_ofExprs (xs : List TExpr) : (ofExprs xs).filterMap expr? = TExpr.callsAll xs := by
  simp [ofExprs, List.filterMap_map, Function.comp_def, expr?]

/-- The site of the construction of a default value. -/
def ofDefault (p : Program) : Ty → List CallSite
  | .cls _ c => (p.select c .create []).toList.map .value
  | _ => []

/-- The site of the construction of a copy. -/
def ofCopy (p : Program) : Ty → List CallSite
  | .cls _ c => (p.select c .create [.cls .cref c]).toList.map .value
  | _ => []

/-- The site of the assignment of a copy. -/
def ofAssign (p : Program) : Ty → List CallSite
  | .cls _ c => (p.select c .assign [.cls .cref c]).toList.map .value
  | _ => []

end CallSite

/-! ## Call sites of assignments -/

namespace Pair

/-- The sites in the target of a pair. -/
def targetSites (q : Pair) : List CallSite := CallSite.ofExprs q.place?.toList

/-- The site of the create or assign that a pair calls. -/
def ownSites (q : Pair) : List CallSite :=
  match q.kind with
  | .user f => [.value f]
  | _ => []

/-- The sites of a pair: its target, then what it calls. -/
def sites (q : Pair) : List CallSite := q.targetSites ++ q.ownSites

/-- What a pair itself calls is not written as an expression. -/
@[simp]
lemma filterMap_ownSites (q : Pair) : q.ownSites.filterMap CallSite.expr? = [] := by
  unfold ownSites
  split <;> rfl

/-- The sites in the targets of pairs are those of the expressions that the pairs write to. -/
lemma flatMap_targetSites (ps : List Pair) :
    ps.flatMap targetSites = CallSite.ofExprs (ps.filterMap place?) := by
  induction ps with
  | nil => rfl
  | cons q ps ih =>
    rw [List.flatMap_cons, ih, targetSites, ← CallSite.ofExprs_append]
    cases h : q.place? <;> simp [h]

end Pair

/-- Whether an assignment is one create or assign, whose arguments are the expressions on the
right. -/
def isDirect : List Pair → Bool
  | [⟨.user _, _, vs⟩] => vs.all fun v => v.result == 0
  | _ => false

/-- The call sites of an assignment: the discarded calls, the expressions on the right, and the
pairs. A create or assign whose arguments are the expressions on the right has its target before
them. -/
def assignSites (vs : List TExpr) (ps : List Pair) (ds : List TExpr) : List CallSite :=
  CallSite.ofExprs ds ++
    if isDirect ps then
      ps.flatMap Pair.targetSites ++ CallSite.ofExprs vs ++ ps.flatMap Pair.ownSites
    else CallSite.ofExprs vs ++ ps.flatMap Pair.sites

/-! ## Call sites of statements -/

namespace TStmt

mutual

/-- **The call sites of a statement**, in the order in which their code stands. -/
def sites : TStmt → List CallSite
  | .assign _ _ vs ps ds => assignSites vs ps ds
  | .ifThen _ c _ b | .whileLoop _ c _ b => CallSite.ofExprs [c] ++ sitesAll b
  | .ifElse _ c _ b _ o => CallSite.ofExprs [c] ++ sitesAll b ++ sitesAll o
  | .repeatUntil _ _ b c => sitesAll b ++ CallSite.ofExprs [c]
  | .block _ _ b => sitesAll b
  | .ret _ | .brk _ | .cont _ => []

/-- The call sites of statements. -/
def sitesAll : List TStmt → List CallSite
  | [] => []
  | s :: ss => sites s ++ sitesAll ss

end

mutual

/-- **The calls in a statement**: in its targets, the expressions on the right, and conditions. -/
def calls : TStmt → List TExpr
  | .assign _ gs vs _ _ => TExpr.callsAll (gs.filterMap TTarget.expr? ++ vs)
  | .ifThen _ c _ b | .whileLoop _ c _ b => c.calls ++ callsAll b
  | .ifElse _ c _ b _ o => c.calls ++ callsAll b ++ callsAll o
  | .repeatUntil _ _ b c => callsAll b ++ c.calls
  | .block _ _ b => callsAll b
  | .ret _ | .brk _ | .cont _ => []

/-- The calls in statements. -/
def callsAll : List TStmt → List TExpr
  | [] => []
  | s :: ss => calls s ++ callsAll ss

end

mutual

/-- **Calls that are not evaluated**: those in expression statements that are no calls by their
form. -/
def idle : TStmt → List TExpr
  | .assign _ gs vs _ _ =>
    if vs.isEmpty then TExpr.callsAll ((gs.filterMap TTarget.expr?).filter fun x => !x.isCall)
    else []
  | .ifThen _ _ _ b | .whileLoop _ _ _ b | .repeatUntil _ _ b _ | .block _ _ b => idleAll b
  | .ifElse _ _ _ b _ o => idleAll b ++ idleAll o
  | .ret _ | .brk _ | .cont _ => []

/-- The calls in statements that are not evaluated. -/
def idleAll : List TStmt → List TExpr
  | [] => []
  | s :: ss => idle s ++ idleAll ss

end

end TStmt

/-! ## Every call is a site -/

/-- Two lists of two parts each may be put together part by part. -/
lemma perm_append_append {α : Type} (as bs cs ds : List α) :
    (as ++ bs ++ (cs ++ ds)).Perm (as ++ cs ++ (bs ++ ds)) := by
  rw [List.append_assoc, List.append_assoc]
  exact List.perm_append_comm_assoc bs cs ds |>.append_left as

/-- The expressions of the sites of an assignment. -/
lemma perm_assignSites (vs : List TExpr) (ps : List Pair) (ds : List TExpr) :
    ((assignSites vs ps ds).filterMap CallSite.expr?).Perm
      (TExpr.callsAll (ds ++ (ps.filterMap Pair.place? ++ vs))) := by
  have htargets : (ps.flatMap Pair.targetSites).filterMap CallSite.expr? =
      TExpr.callsAll (ps.filterMap Pair.place?) := by
    rw [Pair.flatMap_targetSites, CallSite.filterMap_ofExprs]
  have hown : (ps.flatMap Pair.ownSites).filterMap CallSite.expr? = [] := by
    simp [List.filterMap_flatMap]
  have hsites : (ps.flatMap Pair.sites).filterMap CallSite.expr? =
      TExpr.callsAll (ps.filterMap Pair.place?) := by
    rw [← htargets]
    simp [List.filterMap_flatMap, Pair.sites]
  simp only [assignSites, List.filterMap_append, CallSite.filterMap_ofExprs,
    TExpr.callsAll_append]
  refine List.Perm.append_left _ ?_
  split
  · simp [htargets, hown]
  · rw [List.filterMap_append, CallSite.filterMap_ofExprs, hsites]
    exact List.perm_append_comm

/-- Every call in an assignment is a site, unless it is not evaluated. -/
lemma AssignChecked.perm_calls {gs : List TTarget} {vs : List TExpr} {ps : List Pair}
    {ds : List TExpr} (h : AssignChecked gs vs ps ds) (pos : Position) :
    ((TStmt.assign pos gs vs ps ds).sites.filterMap CallSite.expr? ++
      (TStmt.assign pos gs vs ps ds).idle).Perm (TStmt.assign pos gs vs ps ds).calls := by
  have hplaces : ps.filterMap Pair.place? = (ps.map Pair.target).filterMap TTarget.expr? := by
    rw [List.filterMap_map]
    exact List.filterMap_congr fun q _ => q.place?_eq
  simp only [TStmt.sites, TStmt.idle, TStmt.calls]
  refine ((perm_assignSites vs ps ds).append_right _).trans ?_
  rw [hplaces, h.targets_eq, h.discarded_eq]
  split
  · -- Without values, the targets are expression statements: calls by form, and others.
    rename_i hempty
    obtain rfl := List.isEmpty_iff.1 hempty
    have hdecls : (gs.filter fun g => g.local?.isSome).filterMap TTarget.expr? = [] := by
      rw [List.filterMap_eq_nil_iff]
      intro g hg
      cases g with
      | decl => rfl
      | expr => simp [TTarget.local?] at hg
    have hcalls : gs.filterMap TTarget.call? = (gs.filterMap TTarget.expr?).filter
        TExpr.isCall := by
      rw [List.filter_filterMap]
      rfl
    rw [hdecls, hcalls, List.nil_append, List.append_nil, List.append_nil, ← TExpr.callsAll_append]
    simp only [TExpr.callsAll_eq_flatMap]
    exact (List.filter_append_perm _ _).flatMap_right _
  · simp

namespace TStmt

mutual

/-- Every call in a statement is a site, unless it is not evaluated. -/
theorem perm_calls : ∀ {s : TStmt}, s.Each AssignChecked TExpr.Protected →
    (s.sites.filterMap CallSite.expr? ++ s.idle).Perm s.calls
  | .assign pos .., h => AssignChecked.perm_calls h pos
  | .ifThen _ c _ b, h | .whileLoop _ c _ b, h => by
    simp only [sites, idle, calls, List.filterMap_append, CallSite.filterMap_ofExprs,
      TExpr.callsAll, List.append_nil, List.append_assoc]
    exact (perm_callsAll h.2).append_left _
  | .repeatUntil _ _ b c, h => by
    simp only [sites, idle, calls, List.filterMap_append, CallSite.filterMap_ofExprs,
      TExpr.callsAll, List.append_nil, List.append_assoc]
    refine (List.perm_append_comm.append_left _).trans ?_
    rw [← List.append_assoc]
    exact (perm_callsAll h.2).append_right _
  | .ifElse _ c _ b _ o, h => by
    simp only [sites, idle, calls, List.filterMap_append, CallSite.filterMap_ofExprs,
      TExpr.callsAll, List.append_nil]
    refine (perm_append_append _ _ _ _).trans ?_
    rw [List.append_assoc c.calls]
    exact ((perm_callsAll h.2.1).append_left _).append (perm_callsAll h.2.2)
  | .block .., h => perm_callsAll h
  | .ret _, _ | .brk _, _ | .cont _, _ => .refl _

/-- Every call in statements is a site, unless it is not evaluated. -/
theorem perm_callsAll : ∀ {ss : List TStmt}, CheckedAll ss →
    ((sitesAll ss).filterMap CallSite.expr? ++ idleAll ss).Perm (callsAll ss)
  | [], _ => .refl _
  | s :: ss, h => by
    simp only [sitesAll, idleAll, callsAll, List.filterMap_append]
    exact (perm_append_append _ _ _ _).trans ((perm_calls h.1).append (perm_callsAll h.2))

end

end TStmt

end Lane
