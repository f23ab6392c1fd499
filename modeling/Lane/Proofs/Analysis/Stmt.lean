import Lane.Proofs.Analysis.Assign

set_option relaxedAutoImplicit false
set_option autoImplicit false

/-!
# Elaborated statements are typed

Statements whose analysis reports nothing are typed among the locals that are visible where they
stand. A scope hides its locals again when it is left, so a statement binds no locals but those of
an assignment.

## Main results

* `Lane.Analysis.inScope_from`, `Lane.Analysis.inLoop_from`: what is entered is left again.
* `Lane.Analysis.statement_from`, `Lane.Analysis.statements_from`: statements are typed.
-/

namespace Lane

namespace Context

variable {c : Context}

/-- A new scope changes nothing about what is visible. -/
lemma Inside.enterScope (hc : c.Inside) : c.enterScope.1.Inside where
  program_wf := hc.program_wf
  visible_valid := by simpa [Context.enterScope, visible] using hc.visible_valid
  scopes_ne := by simp [Context.enterScope]
  loops_nonneg := hc.loops_nonneg
  ids_below := by simpa [Context.enterScope, visible] using hc.ids_below

/-- An empty scope shows nothing new. -/
lemma visible_enterScope : c.enterScope.1.visible = c.visible := by
  simp [enterScope, visible]

/-- A loop is entered inside of a body. -/
lemma Inside.enterLoop (hc : c.Inside) : c.enterLoop.1.Inside where
  program_wf := hc.program_wf
  visible_valid := hc.visible_valid
  scopes_ne := hc.scopes_ne
  loops_nonneg := Int.le_add_one hc.loops_nonneg
  ids_below := hc.ids_below

/-- Inside of a loop, jumps are in a loop. -/
lemma Inside.inLoop_enterLoop (hc : c.Inside) : c.enterLoop.1.inLoop = true := by
  have := hc.loops_nonneg
  show decide (0 < c.loops + 1) = true
  rw [decide_eq_true_eq]
  omega

end Context

namespace Analysis

variable {c : Context} {H : Prop}

/-- What is entered, in a context that is known. -/
lemma enter_from {g : Context → Context × Leave} (hg : ∀ d, (g d).1.errors = d.errors) :
    From c H (enter g) fun out d => d = (g c).1 ∧ out = (g c).2 :=
  From.modifyGet hg fun _ => ⟨rfl, rfl⟩

/-- A scope is left again, and its locals with it. -/
lemma inScope_from {α : Type} {m : Analysis α} {R : α → Nat → Prop} (hc : H → c.scopes ≠ [])
    (hm : From c.enterScope.1 H m fun a d =>
      (∃ D, c.enterScope.1.Step d D) ∧ R a d.nextLocal) :
    From c H (inScope m) fun q d => c.Step d [] ∧ R q.2 d.nextLocal := by
  refine From.bind (enter_from fun _ => rfl) fun out d => ?_
  have hm' : From d (H ∧ d = c.enterScope.1 ∧ out = c.enterScope.2) m fun a d =>
      (∃ D, c.enterScope.1.Step d D) ∧ R a d.nextLocal := by
    intro e he
    exact hm e fun h => ⟨(he h).1.trans (he h).2.2.1, (he h).2.1⟩
  refine From.bind hm' fun a e => From.modifyGet (fun f => f.errors_left out) fun h => ?_
  obtain ⟨⟨hH, -, rfl⟩, ⟨D, hs⟩, hR⟩ := h
  obtain ⟨s, below, hd, he⟩ := hs.scopes_eq
  obtain ⟨-, rfl⟩ := List.cons.inj hd
  obtain ⟨t, rest, ht⟩ := List.exists_cons_of_ne_nil (hc hH)
  have hdepth : e.depth = c.enterScope.1.depth := by
    simp [Context.depth, Context.enterScope, he]
  rw [show c.enterScope.2 = .scope c.enterScope.1.depth from rfl, Context.left_scope hdepth]
  exact ⟨⟨hs.program_eq, hs.cls_eq, hs.function_eq, hs.loops_eq,
    ⟨t, rest, ht, by simp [he, ht]⟩, hs.next_le⟩, hR⟩

/-- A loop is left again. -/
lemma inLoop_from {α : Type} {m : Analysis α} {D : α → List Local} {R : α → Nat → Prop}
    (hm : From c.enterLoop.1 H m fun a d =>
      c.enterLoop.1.Step d (D a) ∧ c.enterLoop.1.Fresh d (D a) ∧ R a d.nextLocal) :
    From c H (inLoop m) fun a d => c.Step d (D a) ∧ c.Fresh d (D a) ∧ R a d.nextLocal := by
  refine From.bind (enter_from fun _ => rfl) fun out d => ?_
  have hm' : From d (H ∧ d = c.enterLoop.1 ∧ out = c.enterLoop.2) m fun a d =>
      c.enterLoop.1.Step d (D a) ∧ c.enterLoop.1.Fresh d (D a) ∧ R a d.nextLocal := by
    intro e he
    exact hm e fun h => ⟨(he h).1.trans (he h).2.2.1, (he h).2.1⟩
  refine From.bind hm' fun a e => ?_
  refine From.bind (Q := fun _ f => f = e.left out)
    (From.modify (fun f => f.errors_left out) fun _ => rfl) fun _ f => From.pure fun h => ?_
  obtain ⟨⟨⟨-, -, rfl⟩, hs, hf, hR⟩, rfl⟩ := h
  refine ⟨⟨hs.program_eq, hs.cls_eq, hs.function_eq, ?_, hs.scopes_eq, hs.next_le⟩,
    ⟨hf.ids_nodup, hf.ids_between, hf.valid⟩, hR⟩
  show e.loops - 1 = c.loops
  rw [hs.loops_eq]
  exact Int.add_sub_cancel c.loops 1

/-- Conditions are typed. -/
lemma condition_keeps (e : Expr) (hc : H → c.Sound) :
    Keeps c H (condition e) (TExpr.TypedCond c.program c.visible) := by
  refine Keeps.bind (expr_keeps e hc) fun e' => ?_
  refine Keeps.bind (single_keeps e') fun t => ?_
  refine Keeps.report_if fun H' hH => Keeps.pure fun h => ?_
  obtain ⟨⟨⟨h, he⟩, ht⟩, hb⟩ := hH h
  refine ⟨he, ?_⟩
  have herr := isError_eq_false (hc h) he ht
  rw [herr] at hb
  cases t with
  | scalar m k => cases k <;> simp_all [Ty.isBool]
  | _ => simp [Ty.isBool] at hb

/-- A jump out of a loop is inside one. -/
lemma checkJump_keeps (pos : Position) (word : String) :
    Keeps c H (checkJump pos word) fun _ => c.inLoop := by
  refine Keeps.bind Keeps.get fun d => ?_
  split
  · exact Keeps.report _ _ _
  · rename_i hj
    refine Keeps.pure fun h => ?_
    obtain rfl : d = c := h.2
    simpa using hj

/-- What is known about the result of a statement: it binds the locals that it declares, and is
typed among the locals visible before it. -/
def StmtTyped (c : Context) (Γ : List Local) (s : TStmt) (d : Context) : Prop :=
  c.Step d s.declares ∧ c.Fresh d s.declares ∧ s.Typed c.program Γ c.inLoop

/-- What is known about the result of several statements. -/
def StmtsTyped (c : Context) (Γ : List Local) (ss : List TStmt) (d : Context) : Prop :=
  c.Step d (TStmt.declaresAll ss) ∧ c.Fresh d (TStmt.declaresAll ss) ∧
    TStmt.TypedAll c.program Γ c.inLoop ss

section Statements

variable {Γ : List Local}

/-- A statement that binds nothing. -/
lemma StmtTyped.of_step {s : TStmt} {d : Context} (hs : c.Step d []) (hd : s.declares = [])
    (ht : s.Typed c.program Γ c.inLoop) : StmtTyped c Γ s d := by
  unfold StmtTyped
  rw [hd]
  exact ⟨hs, .nil, ht⟩

/-- A condition sees the locals that are visible where it stands. -/
lemma condition_typed {e : TExpr} (he : e.TypedCond c.program c.visible)
    (hΓ : ∀ l, l ∈ c.visible ↔ l ∈ Γ) : e.TypedCond c.program Γ :=
  he.imp_left fun h => h.mono fun l hl => (hΓ l).1 hl

/-- Statements in a scope of their own. -/
lemma block_from {m : Analysis (List TStmt)} (hc : H → c.Inside)
    (hm : From c.enterScope.1 H m (StmtsTyped c.enterScope.1 Γ)) :
    From c H (inScope m) fun q d => c.Step d [] ∧ TStmt.TypedAll c.program Γ c.inLoop q.2 :=
  inScope_from (R := fun b _ => TStmt.TypedAll c.program Γ c.inLoop b)
    (fun h => (hc h).scopes_ne) (hm.weaken id fun _ _ _ h => ⟨⟨_, h.1⟩, h.2.2⟩)

mutual

/-- **Elaborated statements are typed.**

**Proof sketch.** By recursion on the statement. Conditions are typed among the visible locals, the
bodies in scopes of their own see the same locals, and a body of a loop is inside a loop. -/
theorem statement_from : ∀ (s : Stmt) {c : Context} {H : Prop} {Γ : List Local},
    (H → c.Inside) → (H → ∀ l, l ∈ c.visible ↔ l ∈ Γ) →
    From c H (statement s) (StmtTyped c Γ)
  | .assign pos gs es, c, H, Γ, hc, hΓ => by
    refine (assign_from hc pos gs es).weaken id fun s d h hs => ?_
    obtain ⟨hs, hf, _, _, _, _, rfl, ha⟩ := hs
    exact ⟨hs, hf, ha.congr (hΓ h)⟩
  | .ifThen pos cond body, c, H, Γ, hc, hΓ => by
    refine From.keeps_bind (condition_keeps cond fun h => (hc h).toSound) fun cond' => ?_
    refine From.bind (block_from (Γ := Γ) (fun h => hc h.1)
      (statements_from body (fun h => (hc h.1).enterScope) fun h => ?_)) fun (scope, body') d => ?_
    · rw [Context.visible_enterScope]
      exact hΓ h.1
    · refine From.pure fun h => .of_step h.2.1 rfl ⟨condition_typed h.1.2 (hΓ h.1.1), h.2.2⟩
  | .ifElse pos cond body other, c, H, Γ, hc, hΓ => by
    refine From.keeps_bind (condition_keeps cond fun h => (hc h).toSound) fun cond' => ?_
    refine From.bind (block_from (Γ := Γ) (fun h => hc h.1)
      (statements_from body (fun h => (hc h.1).enterScope) fun h => ?_)) fun (scope, body') d => ?_
    · rw [Context.visible_enterScope]
      exact hΓ h.1
    refine From.bind (block_from (Γ := Γ) (fun h => (hc h.1.1).of_step h.2.1 .nil)
      (statements_from other (fun h => ((hc h.1.1).of_step h.2.1 .nil).enterScope) fun h => ?_))
      fun (otherScope, other') e => From.pure fun h => ?_
    · rw [Context.visible_enterScope, h.2.1.visible_eq]
      exact hΓ h.1.1
    · obtain ⟨⟨⟨hH, hcond⟩, hs, hbody⟩, hs', hother⟩ := h
      rw [hs.program_eq, hs.inLoop_eq] at hother
      exact .of_step (hs.trans hs') rfl ⟨condition_typed hcond (hΓ hH), hbody, hother⟩
  | .whileLoop pos cond body, c, H, Γ, hc, hΓ => by
    refine From.keeps_bind (condition_keeps cond fun h => (hc h).toSound) fun cond' => ?_
    refine From.bind (inLoop_from (D := fun _ => [])
      (R := fun (q : Scope × List TStmt) _ => TStmt.TypedAll c.program Γ c.enterLoop.1.inLoop q.2)
      ((block_from (Γ := Γ)
      (fun h => (hc h.1).enterLoop) (statements_from body (fun h => (hc h.1).enterLoop.enterScope)
        fun h => ?_)).weaken id fun q d h hq => ⟨hq.1, .nil, hq.2⟩))
      fun (scope, body') d => From.pure fun h => ?_
    · rw [Context.visible_enterScope]
      exact hΓ h.1
    · obtain ⟨⟨hH, hcond⟩, hs, -, hbody⟩ := h
      rw [(hc hH).inLoop_enterLoop] at hbody
      exact .of_step hs rfl ⟨condition_typed hcond (hΓ hH), hbody⟩
  -- The scope of the body is still open for the condition, so both are taken together.
  | .repeatUntil pos body cond, c, H, Γ, hc, hΓ => by
    refine From.bind (inScope_from (fun h => (hc h).scopes_ne)
      (R := fun (q : List TStmt × TExpr) _ => TStmt.TypedAll c.program Γ true q.1 ∧
        q.2.TypedCond c.program (Γ ++ TStmt.declaresAll q.1)) ?_)
      fun (scope, body', cond') d => From.pure fun h => .of_step h.2.1 rfl h.2.2
    refine From.bind (inLoop_from
      (R := fun b _ => TStmt.TypedAll c.program Γ c.enterScope.1.enterLoop.1.inLoop b)
      (statements_from (Γ := Γ) body (fun h => (hc h).enterScope.enterLoop) fun h => ?_))
      fun body' d => ?_
    · show ∀ l, l ∈ c.enterScope.1.visible ↔ l ∈ Γ
      rw [Context.visible_enterScope]
      exact hΓ h
    refine From.keeps_bind (condition_keeps cond fun h =>
      ((hc h.1).enterScope.of_step h.2.1 h.2.2.1).toSound) fun cond' => From.pure fun h => ?_
    obtain ⟨⟨hH, hs, hf, hbody⟩, hcond⟩ := h
    rw [(hc hH).enterScope.inLoop_enterLoop] at hbody
    refine ⟨⟨_, hs⟩, hbody, ?_⟩
    rw [hs.program_eq] at hcond
    refine hcond.imp_left fun h => h.mono fun l hl => ?_
    rw [hs.mem_visible, Context.visible_enterScope, hΓ hH] at hl
    exact List.mem_append.2 hl
  | .block pos body, c, H, Γ, hc, hΓ => by
    refine From.bind (block_from (Γ := Γ) hc
      (statements_from body (fun h => (hc h).enterScope) fun h => ?_))
      fun (scope, body') d => From.pure fun h => .of_step h.2.1 rfl h.2.2
    rw [Context.visible_enterScope]
    exact hΓ h
  | .ret pos, c, H, Γ, hc, hΓ =>
    From.pure fun h => .of_step (.refl (hc h).scopes_ne) rfl trivial
  | .brk pos, c, H, Γ, hc, hΓ =>
    From.keeps_bind (checkJump_keeps pos "break") fun _ =>
      From.pure fun h => .of_step (.refl (hc h.1).scopes_ne) rfl h.2
  | .cont pos, c, H, Γ, hc, hΓ =>
    From.keeps_bind (checkJump_keeps pos "continue") fun _ =>
      From.pure fun h => .of_step (.refl (hc h.1).scopes_ne) rfl h.2

/-- Elaborated statements in order are typed, each among the locals of those before it. -/
theorem statements_from : ∀ (ss : List Stmt) {c : Context} {H : Prop} {Γ : List Local},
    (H → c.Inside) → (H → ∀ l, l ∈ c.visible ↔ l ∈ Γ) →
    From c H (statements ss) (StmtsTyped c Γ)
  | [], c, H, Γ, hc, _ => From.pure fun h => ⟨.refl (hc h).scopes_ne, .nil, trivial⟩
  | s :: ss, c, H, Γ, hc, hΓ => by
    refine From.bind (statement_from s hc hΓ) fun s' d => ?_
    refine From.bind (statements_from (Γ := Γ ++ s'.declares) ss
      (fun h => (hc h.1).of_step h.2.1 h.2.2.1) fun h l => ?_) fun ss' e => From.pure fun h => ?_
    · rw [h.2.1.mem_visible, List.mem_append, hΓ h.1]
    · obtain ⟨⟨-, hs, hf, ht⟩, hs', hf', ht'⟩ := h
      refine ⟨?_, ?_, ht, ?_⟩
      · simpa [TStmt.declaresAll] using hs.trans hs'
      · simpa [TStmt.declaresAll] using hf.append hf' hs hs'
      · rwa [hs.program_eq, hs.inLoop_eq] at ht'

end

end Statements

end Analysis

end Lane
