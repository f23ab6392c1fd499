import Lane.Proofs.Analysis.Checked
import Lane.Proofs.Analysis.Program

set_option relaxedAutoImplicit false
set_option autoImplicit false

/-!
# Checks of assignments

How the pairs of an assignment come from its targets, and what the analysis checks before the
targets are written. Whether an argument of a create or assign may be written, which is selected for
a pair, is not among it.

## Main definitions

* `Lane.AssignChecked`: what the analysis checks of an assignment.

## Main results

* `Lane.Analysis.assign_checks`, `Lane.Analysis.statement_checks`: assignments are checked.
* `Lane.Elaborated.checked_of_isOk`: all bodies of an accepted program are checked.
-/

namespace Lane

/-! ## Targets -/

namespace TTarget

/-- The expression that is the target. -/
def expr? : TTarget → Option TExpr
  | .decl _ _ => none
  | .expr x => some x

/-- The target, if it is a call by its form. -/
def call? (g : TTarget) : Option TExpr := g.expr?.filter TExpr.isCall

end TTarget

/-- The place of a pair is the expression of its target. -/
lemma Pair.place?_eq (q : Pair) : q.place? = q.target.expr? := by
  unfold place?
  cases q.target <;> rfl

/-- **Checked assignments**: with values on the right, every target gets a pair, and all that are
expressions may be written. Without, only declared locals get one, and the calls are discarded. -/
structure AssignChecked (gs : List TTarget) (vs : List TExpr) (ps : List Pair) (ds : List TExpr) :
    Prop where
  targets_eq : ps.map Pair.target = if vs.isEmpty then gs.filter fun g => g.local?.isSome else gs
  discarded_eq : ds = if vs.isEmpty then gs.filterMap TTarget.call? else []
  targets_protected : ∀ x ∈ gs.filterMap TTarget.expr?, x.Protected
  values_protected : ∀ x ∈ vs, x.Protected
  targets_writable : vs ≠ [] → ∀ x ∈ gs.filterMap TTarget.expr?, ∃ t, x.types = [t] ∧
    (t.isError = false → x.isWritable)

/-- **Checked statements**. -/
abbrev TStmt.CheckedAll : List TStmt → Prop := TStmt.EachAll AssignChecked TExpr.Protected

namespace Analysis

variable {H : Prop}

/-- An analysis that only reports, of whose result nothing is wanted. -/
lemma Keeps.checks {α : Type} {m : Analysis α} {R : Context → α → Prop}
    (hm : ∀ c, Keeps c H m (R c)) : Checks H m fun _ => True := by
  intro c hH hc
  exact ⟨(hm c c (fun h => ⟨rfl, hH h⟩) hc).1, trivial⟩

/-- A checked result, whatever the context was. -/
lemma Checks.from {α : Type} {c : Context} {m : Analysis α} {R : α → Prop} (hm : Checks H m R) :
    From c H m fun a _ => R a :=
  Clean.weaken hm (fun _ => And.right) fun _ _ h => h

/-! ## Pairs -/

/-- A default value is for the same target. -/
lemma defaultInit_checks (g : TTarget) (l : Local) :
    Checks H (defaultInit g l) fun q => q.target = g := by
  simp only [defaultInit]
  refine Checks.report_if fun H' _ => ?_
  split
  · exact Checks.pure fun _ => rfl
  · exact Checks.pure fun _ => rfl
  · exact Checks.pure fun _ => rfl
  · exact Checks.pure fun _ => rfl
  · refine Checks.get_bind fun c => ?_
    split
    · exact Checks.pure fun _ => rfl
    · exact Checks.report_bind _ _ _ (Checks.pure False.elim)

/-- What a create or assign takes is for the same target. -/
lemma gather_checks (g : TTarget) (t : Ty) (vs : List PairValue) :
    Checks H (gather g t vs) fun q => q.target = g := by
  simp only [gather]
  split
  · exact Checks.pure fun _ => rfl
  · refine Checks.get_bind fun c => ?_
    split
    · exact Checks.report_bind _ _ _ (Checks.pure False.elim)
    · exact Checks.pure fun _ => rfl
    · exact Checks.bug_bind _ (Checks.pure fun _ => rfl)

/-- A pair is classified for the same target. -/
lemma classify_checks (g : TTarget) (t : Ty) (source : TExpr) (v : PairValue) :
    Checks H (classify g t source v) fun q => q.target = g := by
  simp only [classify]
  split
  · exact Checks.pure fun _ => rfl
  split
  · exact Checks.pure fun _ => rfl
  refine Checks.get_bind fun c => ?_
  split
  · split <;> exact Checks.report_bind _ _ _ (Checks.pure False.elim)
  · exact Checks.pure fun _ => rfl
  · exact Checks.pure fun _ => rfl
  · split
    · exact Checks.report_bind _ _ _ (Checks.pure False.elim)
    · exact Checks.pure fun _ => rfl
  · exact Checks.pure fun _ => rfl
  · exact Checks.pure fun _ => rfl

/-- As many targets as values get a pair each. -/
lemma oneByOne_checks (sources : List TExpr) : ∀ (ts : List (TTarget × Ty)) (vs : List PairValue)
    {H : Prop}, ts.length = vs.length →
    Checks H (oneByOne sources ts vs) fun ps => ps.map Pair.target = ts.map Prod.fst
  | [], [], _, _ => Checks.pure fun _ => rfl
  | (g, t) :: ts, v :: vs, H, hlen => by
    have rest : ∀ q, Checks (H ∧ q.target = g) (do return q :: (← oneByOne sources ts vs))
        fun ps => ps.map Pair.target = ((g, t) :: ts).map Prod.fst := fun q =>
      Checks.bind (oneByOne_checks sources ts vs (by simpa using hlen)) fun qs =>
        Checks.pure fun h => by simp [h.1.2, h.2]
    rw [oneByOne]
    split
    · exact Checks.bind (classify_checks g t _ v) rest
    · exact Checks.bind (R := fun q => q.target = g) (Checks.pure fun _ => rfl) rest

/-- The pairs of an assignment have its targets, in order. -/
lemma withValues_checks (pos : Position) (ts : List (TTarget × Ty)) (sources : List TExpr)
    (vs : List PairValue) :
    Checks H (withValues pos ts sources vs) fun ps => ps.map Pair.target = ts.map Prod.fst := by
  unfold withValues
  split
  · rename_i g t
    split
    · exact oneByOne_checks sources _ vs (by simp [*])
    · exact Checks.bind (gather_checks g t vs) fun q => Checks.pure fun h => by simp [h.2]
  · split
    · exact oneByOne_checks sources ts vs (by simp [*])
    · exact Checks.report_bind _ _ _ (Checks.pure False.elim)

/-- Without values, declared locals get pairs, and calls are discarded. -/
lemma withoutValues_checks : ∀ (gs : List TTarget) {H : Prop},
    Checks H (withoutValues gs) fun q =>
      q.1.map Pair.target = (gs.filter fun g => g.local?.isSome) ∧
        q.2 = gs.filterMap TTarget.call?
  | [], _ => Checks.pure fun _ => ⟨rfl, rfl⟩
  | g :: gs, H => by
    unfold withoutValues
    split
    · rename_i d l
      refine Checks.bind (defaultInit_checks (.decl d l) l) fun q => ?_
      refine Checks.bind (withoutValues_checks gs) fun q' => Checks.pure fun h => ?_
      obtain ⟨⟨-, hg⟩, hgs, hds⟩ := h
      exact ⟨by simp [hg, hgs, TTarget.local?], hds⟩
    · rename_i x
      split
      · rename_i hcall
        refine Checks.bind (withoutValues_checks gs) fun q => Checks.pure fun h => ⟨h.2.1, ?_⟩
        rw [h.2.2, List.filterMap_cons_some (b := x)
          (by simp [TTarget.call?, TTarget.expr?, hcall])]
      · rename_i hcall
        refine Checks.bind (Checks.modify fun _ => rfl) fun _ => ?_
        refine (withoutValues_checks gs).weaken id fun q h => ⟨h.1, ?_⟩
        rw [h.2, List.filterMap_cons_none (by simp [TTarget.call?, TTarget.expr?, hcall])]

/-! ## Targets and values -/

/-- A target without an error is writable. -/
lemma checkWritable_checks (x : TExpr) (t : Ty) (ht : H → x.types = [t]) :
    Checks H (checkWritable x t) fun _ => t.isError = false → x.isWritable := by
  unfold checkWritable
  split
  · exact Checks.pure fun _ h => by simp_all
  split
  · exact Checks.report _ _ _
  · rename_i ha
    split
    · exact Checks.report _ _ _
    · rename_i hc
      refine Checks.pure fun h _ => ?_
      have ha : x.isAddressable = true := by simpa using ha
      simp [TExpr.isWritable, type?_of_types (ht h), ha, Bool.eq_false_iff.2 hc]

/-- What is checked of a target. -/
def TargetChecked (hasValues : Bool) (g : TTarget) : Prop :=
  ∀ x, g.expr? = some x → x.Protected ∧
    (hasValues → ∃ t, x.types = [t] ∧ (t.isError = false → x.isWritable))

/-- A target is checked. -/
lemma target_checks (hasValues : Bool) : ∀ g : Target,
    Checks H (target hasValues g) fun q => TargetChecked hasValues q.1
  | .decl g =>
    Checks.bind (Keeps.checks fun _ => resolveType_keeps g.type) fun t =>
    Checks.bind (R := fun _ => True) (Clean.modifyGet (fun _ => rfl) fun _ _ => trivial) fun id =>
      Checks.pure fun _ => nofun
  | .expr e => by
    refine Checks.bind (expr_checks e) fun x => ?_
    split
    · refine Checks.bind (single_checks x) fun t => ?_
      refine Checks.bind (checkWritable_checks x t fun h => h.2) fun _ =>
        Checks.pure fun h y hy => ?_
      obtain rfl := Option.some.inj hy
      exact ⟨h.1.1.2, fun _ => ⟨t, h.1.2, h.2⟩⟩
    · refine Checks.pure fun h y hy => ?_
      obtain rfl := Option.some.inj hy
      exact ⟨h.2, fun hv => absurd hv ‹_›⟩

/-- All targets of an assignment are checked. -/
lemma targets_checks (hasValues : Bool) : ∀ (gs : List Target) {H : Prop},
    Checks H (targets hasValues gs) fun qs => ∀ q ∈ qs, TargetChecked hasValues q.1
  | [], _ => Checks.pure fun _ => by simp
  | g :: gs, _ =>
    Checks.bind (target_checks hasValues g) fun q =>
    Checks.bind (targets_checks hasValues gs) fun qs => Checks.pure fun h =>
      List.forall_mem_cons.2 ⟨h.1.2, h.2⟩

/-- Values are protected. -/
lemma values_checks : ∀ (es : List Expr) (source : Nat) {H : Prop},
    Checks H (values source es) fun q =>
      (∀ x ∈ q.1, x.Protected) ∧ q.1.isEmpty = es.isEmpty
  | [], _, _ => Checks.pure fun _ => ⟨by simp, rfl⟩
  | e :: es, source, H => by
    have results : ∀ {H : Prop} (x : TExpr), Checks H (valuesOf source x) fun _ => True := by
      intro H x
      unfold valuesOf
      split
      · exact Checks.report_bind _ _ _ (Checks.pure False.elim)
      · exact Checks.pure fun _ => trivial
    refine Checks.bind (expr_checks e) fun x => ?_
    refine Checks.bind (results x) fun vs => ?_
    refine Checks.bind (values_checks es (source + 1)) fun q => Checks.pure fun h => ?_
    exact ⟨List.forall_mem_cons.2 ⟨h.1.1.2, h.2.1⟩, rfl⟩

/-- Binding locals only adds errors. -/
lemma bindTargets_checks : ∀ (qs : List (TTarget × Ty)) {H : Prop},
    Checks H
      (forIn qs PUnit.unit fun q _ => match q with
        | (g, _) => match g.local? with
          | some l => do
            modify fun d => (d.insertLocal l).1
            pure (ForInStep.yield PUnit.unit)
          | none => pure (ForInStep.yield PUnit.unit)) fun _ => True
  | [], _ => Checks.pure fun _ => trivial
  | (g, t) :: qs, H => by
    rw [List.forIn_cons]
    cases hg : g.local? with
    | none =>
      simp only [hg, pure_bind]
      exact bindTargets_checks qs
    | some l =>
      simp only [hg, bind_assoc, pure_bind]
      refine Checks.bind (R := fun _ => True) (fun c _ hc => ⟨errors_of_insertLocal hc, trivial⟩)
        fun _ => ?_
      exact bindTargets_checks qs

/-! ## Statements -/

/-- **Assignments are checked.** -/
theorem assign_checks (pos : Position) (gs : List Target) (es : List Expr) :
    Checks H (assign pos gs es) (TStmt.Each AssignChecked TExpr.Protected) := by
  refine Checks.bind (targets_checks _ gs) fun ts => ?_
  refine Checks.bind (values_checks es 0) fun (sources, vs) => ?_
  refine Checks.bind (bindTargets_checks ts) fun _ => ?_
  have protect : (∀ q ∈ ts, TargetChecked (!es.isEmpty) q.1) →
      ∀ x ∈ (ts.map Prod.fst).filterMap TTarget.expr?, x.Protected ∧ (es.isEmpty = false →
        ∃ t, x.types = [t] ∧ (t.isError = false → x.isWritable)) := by
    intro hts x hx
    obtain ⟨g, hg, hgx⟩ := List.mem_filterMap.1 hx
    obtain ⟨q, hq, rfl⟩ := List.mem_map.1 hg
    exact (hts q hq x hgx).imp_right fun h he => h (by simp [he])
  split
  · rename_i hes
    refine Checks.bind (withoutValues_checks _) fun (ps, ds) => Checks.pure fun h => ?_
    obtain ⟨⟨⟨⟨-, hts⟩, hvs, hlen⟩, -⟩, hps, hds⟩ := h
    have hempty : sources.isEmpty := hlen.trans hes
    refine ⟨by simpa [hempty] using hps, by simpa [hempty] using hds,
      fun x hx => (protect hts x hx).1, hvs, fun hne => ?_⟩
    exact absurd (List.isEmpty_iff.1 hempty) hne
  · rename_i hes
    refine Checks.bind (withValues_checks pos ts sources vs) fun ps => Checks.pure fun h => ?_
    obtain ⟨⟨⟨⟨-, hts⟩, hvs, hlen⟩, -⟩, hps⟩ := h
    have hempty : sources.isEmpty = false := hlen.trans (by simpa using hes)
    exact ⟨by simpa [hempty] using hps, by simp [hempty], fun x hx => (protect hts x hx).1, hvs,
      fun _ x hx => (protect hts x hx).2 (by simpa using hes)⟩

/-- What is checked inside of a scope is checked. -/
lemma inScope_checks {α : Type} {m : Analysis α} {R : α → Prop} (hm : Checks H m R) :
    Checks H (inScope m) fun q => R q.2 :=
  Checks.bind (Checks.enter fun _ => rfl) fun out =>
  Checks.bind (hm.weaken And.left fun _ h => h) fun _ =>
    Clean.modifyGet (fun c => c.errors_left out) fun _ h => h.2

/-- What is checked inside of a loop is checked. -/
lemma inLoop_checks {α : Type} {m : Analysis α} {R : α → Prop} (hm : Checks H m R) :
    Checks H (inLoop m) R :=
  Checks.bind (Checks.enter fun _ => rfl) fun out =>
  Checks.bind (hm.weaken And.left fun _ h => h) fun _ =>
  Checks.bind (Checks.modify fun c => c.errors_left out) fun _ => Checks.pure fun h => h.1.2

/-- A condition is protected. -/
lemma condition_checks (e : Expr) : Checks H (condition e) TExpr.Protected := by
  refine Checks.bind (expr_checks e) fun x => ?_
  refine Checks.bind (single_checks x) fun t => ?_
  exact Checks.report_if fun H' hH => Checks.pure fun h => (hH h).1.1.2

/-- Jumps have nothing to check. -/
lemma checkJump_checks (pos : Position) (word : String) :
    Checks H (checkJump pos word) fun _ => True :=
  Keeps.checks fun _ => checkJump_keeps pos word

mutual

/-- **Statements are checked.** -/
theorem statement_checks : ∀ (s : Stmt) {H : Prop},
    Checks H (statement s) (TStmt.Each AssignChecked TExpr.Protected)
  | .assign pos gs es, _ => assign_checks pos gs es
  | .ifThen _ cond body, _ =>
    Checks.bind (condition_checks cond) fun _ =>
    Checks.bind (inScope_checks (statements_checks body)) fun _ => Checks.pure fun h =>
      ⟨h.1.2, h.2⟩
  | .ifElse _ cond body other, _ =>
    Checks.bind (condition_checks cond) fun _ =>
    Checks.bind (inScope_checks (statements_checks body)) fun _ =>
    Checks.bind (inScope_checks (statements_checks other)) fun _ => Checks.pure fun h =>
      ⟨h.1.1.2, h.1.2, h.2⟩
  | .whileLoop _ cond body, _ =>
    Checks.bind (condition_checks cond) fun _ =>
    Checks.bind (inLoop_checks (inScope_checks (statements_checks body))) fun _ =>
      Checks.pure fun h => ⟨h.1.2, h.2⟩
  | .repeatUntil _ body cond, _ =>
    Checks.bind (inScope_checks (R := fun (q : List TStmt × TExpr) =>
        TStmt.CheckedAll q.1 ∧ q.2.Protected)
      (Checks.bind (inLoop_checks (statements_checks body)) fun _ =>
       Checks.bind (condition_checks cond) fun _ => Checks.pure fun h => ⟨h.1.2, h.2⟩))
      fun _ => Checks.pure fun h => ⟨h.2.2, h.2.1⟩
  | .block _ body, _ =>
    Checks.bind (inScope_checks (statements_checks body)) fun _ => Checks.pure And.right
  | .ret _, _ => Checks.pure fun _ => trivial
  | .brk pos, _ =>
    Checks.bind (checkJump_checks pos "break") fun _ => Checks.pure fun _ => trivial
  | .cont pos, _ =>
    Checks.bind (checkJump_checks pos "continue") fun _ => Checks.pure fun _ => trivial

/-- Several statements are checked. -/
theorem statements_checks : ∀ (ss : List Stmt) {H : Prop},
    Checks H (statements ss) TStmt.CheckedAll
  | [], _ => Checks.pure fun _ => trivial
  | s :: ss, _ =>
    Checks.bind (statement_checks s) fun _ =>
    Checks.bind (statements_checks ss) fun _ => Checks.pure fun h => ⟨h.1.2, h.2⟩

end

/-! ## Programs -/

/-- A body is checked. -/
lemma functionBody_checks (q : Pending) :
    Checks H (functionBody q) fun b => TStmt.CheckedAll b.body := by
  refine Checks.bind (Checks.enter fun _ => rfl) fun outOfClass => ?_
  refine Checks.bind (Checks.enter fun _ => rfl) fun out => ?_
  refine Checks.get_bind fun c => ?_
  refine Checks.bind (statements_checks q.body) fun body => ?_
  exact Clean.modifyGet (g := fun f => ((⟨q.fn, f.scopes.head?.getD {}, body,
    f.errors == c.errors⟩ : FuncBody), (f.left out).left outOfClass))
    (fun f => ((f.left out).errors_left outOfClass).trans (f.errors_left out)) fun _ h => h.2

/-- All bodies are checked. -/
lemma bodies_checks : ∀ (qs : List Pending) {H : Prop},
    Checks H (qs.mapM functionBody) fun bs => ∀ b ∈ bs, TStmt.CheckedAll b.body
  | [], _ => Checks.pure fun _ => by simp
  | q :: qs, _ => by
    rw [List.mapM_cons]
    refine Checks.bind (functionBody_checks q) fun b => ?_
    refine Checks.bind (bodies_checks qs) fun bs => Checks.pure fun h => ?_
    exact List.forall_mem_cons.2 ⟨h.1.2, h.2⟩

/-- At the end of a body there is nothing to check. -/
lemma checkBalance_checks : Checks H checkBalance fun _ => True := by
  refine Checks.get_bind fun c => ?_
  dsimp only
  split
  · exact Checks.modify fun _ => rfl
  · exact Checks.pure fun _ => trivial

/-- The bodies of a program are checked. -/
lemma program_checks (tree : ProgramSyntax) (ds : Diagnostics) :
    From { diagnostics := ds } True (program tree) fun e _ =>
      ∀ b ∈ e.bodies, TStmt.CheckedAll b.body := by
  rw [program_eq]
  refine From.bind (declarations_from tree ds) fun qs c => ?_
  refine From.bind (bodies_checks qs).from fun bs d => ?_
  refine From.bind checkBalance_checks.from fun _ e => ?_
  exact From.bind From.get fun f g => From.pure fun h => h.1.1.2

end Analysis

/-- **Bodies of accepted programs are checked.** -/
theorem Elaborated.checked_of_isOk (tree : ProgramSyntax) (ds : Diagnostics)
    (h : (Elaborated.ofSyntax tree ds).1.isOk) :
    ∀ b ∈ (Elaborated.ofSyntax tree ds).1.bodies, TStmt.CheckedAll b.body :=
  (Analysis.program_checks tree ds _ (fun _ => ⟨rfl, trivial⟩) (beq_iff_eq.1 h)).2

end Lane
