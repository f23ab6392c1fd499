import Lane.Proofs.Analysis.Scoped
import Lane.Proofs.Lowering.Bindings

set_option relaxedAutoImplicit false
set_option autoImplicit false

/-!
# Storage of names

The analysis binds names on a stack of scopes, and lowering keeps a table with the storage of
locals. Both are carried along through the statements of a function, and at every point they agree:
the locals in the scopes are those that have storage, each of them its own.

## Main definitions

* `Lane.Lowering.Block`, `Lane.Lowering.Condition`: the points at which the blocks and the condition
  of a statement are lowered.
* `Lane.Lowering.Visits`: the points of statements, with the scopes around them.

## Main results

* `Lane.Lowering.Visits.apart`: the points at which locals are bound follow one another.
* `Lane.Lowering.Visits.exists_storage`: all locals in the scopes of an expression have storage.
-/

namespace Lane.Lowering

open Code

/-! ## Points of statements -/

/-- The state after some labels are made and some instructions are emitted. -/
def Builder.extended (b : Builder) (labels : Nat) (code : List Instr) : Builder :=
  { b with labels := b.labels + labels, code := b.code ++ code }

/-- Adding instructions keeps the registers and locals. -/
lemma Builder.keeps_extended (b : Builder) (n : Nat) (is : List Instr) :
    b.Keeps (b.extended n is) :=
  ⟨⟨Nat.le_refl _, Nat.le_refl _⟩, rfl⟩

/-- **The blocks of a statement**: lowering the statement from `b` comes to a block of it at `c`,
with the loop that is around the block. -/
inductive Block (env : Env) : Option Flow → TStmt → Builder → Option Flow → List TStmt →
    Builder → Prop
  | ifThen {flow : Option Flow} {pos : Position} {x : TExpr} {scope : Scope} {body : List TStmt}
    {b b₁ : Builder} {o : Operand} (h : Runs env (expr x).value b o b₁) :
    Block env flow (.ifThen pos x scope body) b flow body (b₁.extended 2
      [.branch o ⟨b₁.labels + 1, "then"⟩ ⟨b₁.labels + 2, "next"⟩, .label ⟨b₁.labels + 1, "then"⟩])
  | ifElse {flow : Option Flow} {pos : Position} {x : TExpr} {scope scope' : Scope}
    {body other : List TStmt} {b b₁ : Builder} {o : Operand} (h : Runs env (expr x).value b o b₁) :
    Block env flow (.ifElse pos x scope body scope' other) b flow body (b₁.extended 3
      [.branch o ⟨b₁.labels + 1, "then"⟩ ⟨b₁.labels + 3, "else"⟩, .label ⟨b₁.labels + 1, "then"⟩])
  | other {flow : Option Flow} {pos : Position} {x : TExpr} {scope scope' : Scope}
    {body other : List TStmt} {b b₁ b₂ : Builder} {o : Operand}
    (h : Runs env (expr x).value b o b₁)
    (hb : Runs env (inBlock (statements flow body)) (b₁.extended 3
      [.branch o ⟨b₁.labels + 1, "then"⟩ ⟨b₁.labels + 3, "else"⟩, .label ⟨b₁.labels + 1, "then"⟩])
      () b₂) :
    Block env flow (.ifElse pos x scope body scope' other) b flow other
      (b₂.extended 0 [.goto ⟨b₁.labels + 2, "next"⟩, .label ⟨b₁.labels + 3, "else"⟩])
  | whileLoop {flow : Option Flow} {pos : Position} {x : TExpr} {scope : Scope}
    {body : List TStmt} {b b₁ : Builder} {o : Operand}
    (h : Runs env (expr x).value (b.extended 3 [.label ⟨b.labels + 1, "header"⟩]) o b₁) :
    Block env flow (.whileLoop pos x scope body) b
      (some ⟨⟨b.labels + 3, "out"⟩, ⟨b.labels + 1, "header"⟩⟩) body (b₁.extended 0
        [.branch o ⟨b.labels + 2, "loop"⟩ ⟨b.labels + 3, "out"⟩, .label ⟨b.labels + 2, "loop"⟩])
  | repeatUntil {flow : Option Flow} {pos : Position} {x : TExpr} {scope : Scope}
    {body : List TStmt} {b : Builder} :
    Block env flow (.repeatUntil pos scope body x) b
      (some ⟨⟨b.labels + 2, "out"⟩, ⟨b.labels + 3, "cond"⟩⟩) body
      (b.extended 3 [.label ⟨b.labels + 1, "loop"⟩])
  | block {flow : Option Flow} {pos : Position} {scope : Scope} {body : List TStmt} {b : Builder} :
    Block env flow (.block pos scope body) b flow body b

/-- **The condition of a statement** that stands in the scopes `S`: lowering the statement from `b`
comes to its condition, which sees the scopes `D`, at `c`. The condition of a `repeat` sees the
locals of its body. -/
inductive Condition (env : Env) (S : List Scope) :
    TStmt → Builder → TExpr → List Scope → Builder → Prop
  | ifThen {pos : Position} {x : TExpr} {scope : Scope} {body : List TStmt} {b : Builder} :
    Condition env S (.ifThen pos x scope body) b x S b
  | ifElse {pos : Position} {x : TExpr} {scope scope' : Scope} {body other : List TStmt}
    {b : Builder} : Condition env S (.ifElse pos x scope body scope' other) b x S b
  | whileLoop {pos : Position} {x : TExpr} {scope : Scope} {body : List TStmt} {b : Builder} :
    Condition env S (.whileLoop pos x scope body) b x S
      (b.extended 3 [.label ⟨b.labels + 1, "header"⟩])
  | repeatUntil {pos : Position} {x : TExpr} {scope : Scope} {body : List TStmt} {b b₁ : Builder}
    (h : Runs env (statements (some ⟨⟨b.labels + 2, "out"⟩, ⟨b.labels + 3, "cond"⟩⟩) body)
      (b.extended 3 [.label ⟨b.labels + 1, "loop"⟩]) () b₁) :
    Condition env S (.repeatUntil pos scope body x) b x
      (Scope.extend (TStmt.declaresAll body) ({} :: S))
      (b₁.extended 0 (if anyContinues body then [.label ⟨b.labels + 3, "cond"⟩] else []))

/-- **The points of statements** that stand in the scopes `S`: lowering the statements from `b`
comes to an expression or to a declaration at `c`, where the scopes are `D`. -/
inductive Visits (env : Env) :
    Option Flow → List TStmt → List Scope → Builder → Visit → List Scope → Builder → Prop
  | assign {flow : Option Flow} {pos : Position} {gs : List TTarget} {vs : List TExpr}
    {ps : List Pair} {ds : List TExpr} {ss : List TStmt} {S : List Scope} {v : Visit}
    {b c : Builder} (h : AssignComes env vs ps ds b v c) :
    Visits env flow (.assign pos gs vs ps ds :: ss) S b v S c
  | condition {flow : Option Flow} {s : TStmt} {ss : List TStmt} {S D : List Scope} {x : TExpr}
    {b c : Builder} (h : Condition env S s b x D c) :
    Visits env flow (s :: ss) S b (.evaluates x) D c
  | block {flow flow' : Option Flow} {s : TStmt} {ss body : List TStmt} {S D : List Scope}
    {v : Visit} {b b₁ c : Builder} (hb : Block env flow s b flow' body b₁)
    (h : Visits env flow' body ({} :: S) b₁ v D c) : Visits env flow (s :: ss) S b v D c
  | later {flow : Option Flow} {s : TStmt} {ss : List TStmt} {S D : List Scope} {v : Visit}
    {b b₁ c : Builder} (hs : Runs env (statement flow s) b () b₁)
    (h : Visits env flow ss (Scope.extend s.declares S) b₁ v D c) :
    Visits env flow (s :: ss) S b v D c

/-! ## Statements as a whole -/

section Statements

variable {env : Env} {flow flow' : Option Flow} {s : TStmt} {ss body : List TStmt}
  {S D : List Scope} {x : TExpr} {v : Visit} {l l' : Local} {b b' b₁ c c' : Builder}

/-- A block touches no local from outside it. -/
lemma inBlock_touches {m : Lower Unit} {E : List Local} (h : Touches env E m) :
    Touches env [] (inBlock m) := by
  intro b r b' hr
  obtain ⟨_, b₁, hget, hr⟩ := hr.of_bind
  obtain ⟨rfl, rfl⟩ := Prod.mk.inj (Except.ok.inj hget)
  obtain ⟨_, b₂, hm, hr⟩ := hr.of_bind
  obtain ⟨-, rfl⟩ := Prod.mk.inj (Except.ok.inj hr)
  exact ⟨⟨(h _ _ _ hm).1.vars_le, (h _ _ _ hm).1.slots_le⟩, fun _ _ => rfl⟩

/-- A block that is left has been lowered. -/
lemma of_runs_inBlock {m : Lower Unit} {r : Unit} (h : Runs env (inBlock m) b r b') :
    ∃ b₁, Runs env m b () b₁ ∧ b₁.Precedes b' ∧ b'.locals = b.locals := by
  obtain ⟨_, b₀, hget, h⟩ := h.of_bind
  obtain ⟨rfl, rfl⟩ := Prod.mk.inj (Except.ok.inj hget)
  obtain ⟨⟨⟩, b₁, hm, h⟩ := h.of_bind
  obtain ⟨-, rfl⟩ := Prod.mk.inj (Except.ok.inj h)
  exact ⟨b₁, hm, ⟨Nat.le_refl _, Nat.le_refl _⟩, rfl⟩

/-- The value of an expression touches no local. -/
lemma value_touches (x : TExpr) (E : List Local) : Touches env E (expr x).value :=
  touches_of_spares (spares_of_gives (Discipline.value_gives (expr_spares x) ()))

/-- Emitting an instruction before other code. -/
lemma Touches.emit {E : List Local} (i : Instr) {f : Unit → Lower Unit}
    (h : Touches env E (f ())) : Touches env E (emit i >>= f) :=
  (touches_of_spares (emit_spares i)).bind fun _ => h

/-- A new label touches no local. -/
lemma Touches.newLabel {E : List Local} {hint : String} {f : Label → Lower Unit}
    (h : ∀ l, Touches env E (f l)) : Touches env E (newLabel hint >>= f) :=
  (touches_of_spares (newLabel_spares hint)).bind h

/-- What follows the body of a `repeat`: a label if there is need for it, and the condition. -/
lemma repeatTail_touches (x : TExpr) (E : List Local) (needed : Bool) (next yes no : Label) :
    Touches env E (do
      if needed then emit (.label next)
      let c ← (expr x).value
      emit (.branch c yes no)) := by
  have hcond : Touches env E (do
      let c ← (expr x).value
      emit (.branch c yes no)) :=
    (value_touches x _).bind fun _ => touches_of_spares (emit_spares _)
  dsimp only
  split
  · exact .emit _ hcond
  · exact hcond

mutual

/-- **Statements give storage** to the locals that they make visible, and to no others. -/
theorem statement_touches (flow : Option Flow) : ∀ s : TStmt,
    Touches env s.declares (statement flow s)
  | .assign _ _ vs ps ds => assign_touches vs ps ds
  | .ifThen _ x _ body => by
    unfold statement
    exact (value_touches x _).bind fun _ => .newLabel fun _ => .newLabel fun _ => .emit _ <|
      .emit _ <| (inBlock_touches (statements_touch flow body)).bind fun _ =>
      touches_of_spares (emit_spares _)
  | .ifElse _ x _ body _ other => by
    unfold statement
    exact (value_touches x _).bind fun _ => .newLabel fun _ => .newLabel fun _ =>
      .newLabel fun _ => .emit _ <| .emit _ <|
      (inBlock_touches (statements_touch flow body)).bind fun _ => .emit _ <| .emit _ <|
      (inBlock_touches (statements_touch flow other)).bind fun _ =>
      touches_of_spares (emit_spares _)
  | .whileLoop _ x _ body => by
    unfold statement
    exact .newLabel fun _ => .newLabel fun _ => .newLabel fun _ => .emit _ <|
      (value_touches x _).bind fun _ => .emit _ <| .emit _ <|
      (inBlock_touches (statements_touch _ body)).bind fun _ => .emit _ <|
      touches_of_spares (emit_spares _)
  | .repeatUntil _ _ body x => by
    unfold statement
    refine .newLabel fun _ => .newLabel fun _ => .newLabel fun _ => .emit _ <|
      (inBlock_touches (E := TStmt.declaresAll body) ?_).bind fun _ =>
      touches_of_spares (emit_spares _)
    exact (statements_touch _ body).bind fun _ => repeatTail_touches x _ _ _ _ _
  | .block _ _ body => inBlock_touches (statements_touch flow body)
  | .ret _ => touches_of_spares (emit_spares _)
  | .brk _ | .cont _ => by
    unfold statement
    cases flow with
    | none => exact Touches.bind (.throw _) fun _ => touches_of_spares (emit_spares _)
    | some f => exact Touches.bind (.pure f) fun _ => touches_of_spares (emit_spares _)

/-- The same for statements in order. -/
theorem statements_touch (flow : Option Flow) : ∀ ss : List TStmt,
    Touches env (TStmt.declaresAll ss) (statements flow ss)
  | [] => Touches.pure ()
  | s :: ss => by
    rw [TStmt.declaresAll, List.flatMap_cons]
    exact ((statement_touches flow s).mono (List.subset_append_left _ _)).bind fun _ =>
      (statements_touch flow ss).mono (List.subset_append_right _ _)

end

/-! ## Blocks -/

/-- The labels of an extended builder. -/
@[simp] lemma extended_labels (b : Builder) (n : Nat) (is : List Instr) :
    (b.extended n is).labels = b.labels + n := rfl

/-- Builders that are extended twice. -/
lemma extended_extended (b : Builder) (n m : Nat) (is js : List Instr) :
    (b.extended n is).extended m js = b.extended (n + m) (is ++ js) := by
  simp [Builder.extended, Nat.add_assoc]

/-- A run that begins with a new label. -/
lemma of_runs_newLabel {α : Type} {a : α} {hint : String} {f : Label → Lower α}
    (h : Runs env (newLabel hint >>= f) b a c) :
    Runs env (f ⟨b.labels + 1, hint⟩) (b.extended 1 []) a c := by
  have heq : b.extended 1 [] = { b with labels := b.labels + 1 } := by simp [Builder.extended]
  exact heq ▸ h

/-- A run that begins with an instruction. -/
lemma of_runs_emit {α : Type} {a : α} {i : Instr} {f : Unit → Lower α}
    (h : Runs env (emit i >>= f) b a c) : Runs env (f ()) (b.extended 0 [i]) a c := h

/-- What is emitted at the end does nothing to the locals. -/
lemma precedes_of_emit {i : Instr} {r : Unit} (h : Runs env (emit i) b r c) : b.Precedes c :=
  (emit_spares i b r c h).toPrecedes

/-- The value of an expression keeps the builder. -/
lemma value_keeps {o : Operand} (h : Runs env (expr x).value b o c) : b.Keeps c :=
  spares_of_gives (Discipline.value_gives (expr_spares x) ()) b o c h

/-- A statement does nothing to the locals before it comes to a block. -/
lemma Block.keeps (h : Block env flow s b flow' body b₁) : b.Keeps b₁ := by
  cases h with
  | ifThen h => exact (value_keeps h).trans (Builder.keeps_extended _ _ _)
  | ifElse h => exact (value_keeps h).trans (Builder.keeps_extended _ _ _)
  | other h hb =>
    obtain ⟨b₃, hm, hle, hl⟩ := of_runs_inBlock hb
    have hle := ((statements_touch _ _ _ _ _ hm).1).trans hle
    exact ((value_keeps h).trans (Builder.keeps_extended _ _ _)).trans
      (.trans ⟨hle, hl⟩ (Builder.keeps_extended _ _ _))
  | whileLoop h =>
    exact (Builder.keeps_extended _ _ _).trans
      ((value_keeps h).trans (Builder.keeps_extended _ _ _))
  | repeatUntil => exact Builder.keeps_extended _ _ _
  | block => exact .refl _

/-- The locals of a block are among those of the statement. -/
lemma Block.locals_sublist (h : Block env flow s b flow' body b₁) :
    (TStmt.localsAll body).Sublist s.locals := by
  cases h with
  | ifElse => exact List.sublist_append_left _ _
  | other => exact List.sublist_append_right _ _
  | _ => exact .refl _

/-- What holds of all assignments of a statement holds of those of its blocks. -/
lemma Block.each {A : AssignCondition} {C : TExpr → Prop} (h : Block env flow s b flow' body b₁)
    (hs : s.Each A C) : TStmt.EachAll A C body := by
  cases h with
  | ifThen | whileLoop | repeatUntil => exact hs.2
  | ifElse => exact hs.2.1
  | other => exact hs.2.2
  | block => exact hs

/-- The expressions in a block see the scopes of the statement. -/
lemma Block.sees (h : Block env flow s b flow' body b₁) (hx : TStmt.SeesAll ({} :: S) body D x) :
    s.Sees S D x := by
  cases h with
  | ifThen | whileLoop => exact .inr hx
  | ifElse => exact .inr (.inl hx)
  | other => exact .inr (.inr hx)
  | repeatUntil => exact .inl hx
  | block => exact hx

/-- **A statement that is lowered lowers its blocks**. -/
lemma Block.of_runs (h : Block env flow s b flow' body b₁)
    (hr : Runs env (statement flow s) b () b') :
    ∃ b₂, Runs env (statements flow' body) b₁ () b₂ ∧ b₂.Precedes b' := by
  -- Each case takes the code of the statement apart up to the block; labels only count up.
  cases h with
  | ifThen h =>
    unfold statement at hr
    obtain ⟨o, b₂, hx, hr⟩ := hr.of_bind
    obtain ⟨rfl, rfl⟩ := hx.unique h
    replace hr := of_runs_newLabel hr
    replace hr := of_runs_newLabel hr
    replace hr := of_runs_emit hr
    replace hr := of_runs_emit hr
    obtain ⟨⟨⟩, b₃, hm, hr⟩ := hr.of_bind
    obtain ⟨b₄, hm, hle, -⟩ := of_runs_inBlock hm
    simp only [extended_extended, extended_labels, Nat.add_assoc, Nat.reduceAdd,
      List.nil_append, List.cons_append] at hm
    exact ⟨b₄, hm, hle.trans (precedes_of_emit hr)⟩
  | ifElse h =>
    unfold statement at hr
    obtain ⟨o, b₂, hx, hr⟩ := hr.of_bind
    obtain ⟨rfl, rfl⟩ := hx.unique h
    replace hr := of_runs_newLabel hr
    replace hr := of_runs_newLabel hr
    replace hr := of_runs_newLabel hr
    replace hr := of_runs_emit hr
    replace hr := of_runs_emit hr
    obtain ⟨⟨⟩, b₃, hm, hr⟩ := hr.of_bind
    obtain ⟨b₄, hm, hle, -⟩ := of_runs_inBlock hm
    replace hr := of_runs_emit hr
    replace hr := of_runs_emit hr
    obtain ⟨⟨⟩, b₅, hm', hr⟩ := hr.of_bind
    simp only [extended_extended, extended_labels, Nat.add_assoc, Nat.reduceAdd,
      List.nil_append, List.cons_append] at hm
    have hother := (inBlock_touches (statements_touch flow _) _ _ _ hm').1
    exact ⟨b₄, hm, hle.trans (.trans ⟨hother.vars_le, hother.slots_le⟩ (precedes_of_emit hr))⟩
  | other h hb =>
    unfold statement at hr
    obtain ⟨o, b₂, hx, hr⟩ := hr.of_bind
    obtain ⟨rfl, rfl⟩ := hx.unique h
    replace hr := of_runs_newLabel hr
    replace hr := of_runs_newLabel hr
    replace hr := of_runs_newLabel hr
    replace hr := of_runs_emit hr
    replace hr := of_runs_emit hr
    obtain ⟨⟨⟩, b₃, hm, hr⟩ := hr.of_bind
    simp only [extended_extended, extended_labels, Nat.add_assoc, Nat.reduceAdd,
      List.nil_append, List.cons_append] at hm
    obtain ⟨-, rfl⟩ := hm.unique hb
    replace hr := of_runs_emit hr
    replace hr := of_runs_emit hr
    obtain ⟨⟨⟩, b₅, hm', hr⟩ := hr.of_bind
    obtain ⟨b₆, hm', hle', -⟩ := of_runs_inBlock hm'
    simp only [extended_extended, extended_labels, Nat.add_assoc, Nat.reduceAdd,
      List.nil_append, List.cons_append] at hm'
    exact ⟨b₆, hm', hle'.trans (precedes_of_emit hr)⟩
  | whileLoop h =>
    unfold statement at hr
    replace hr := of_runs_newLabel hr
    replace hr := of_runs_newLabel hr
    replace hr := of_runs_newLabel hr
    replace hr := of_runs_emit hr
    obtain ⟨o, b₂, hx, hr⟩ := hr.of_bind
    simp only [extended_extended, Nat.reduceAdd, List.nil_append] at hx
    obtain ⟨rfl, rfl⟩ := hx.unique h
    replace hr := of_runs_emit hr
    replace hr := of_runs_emit hr
    obtain ⟨⟨⟩, b₃, hm, hr⟩ := hr.of_bind
    obtain ⟨b₄, hm, hle, -⟩ := of_runs_inBlock hm
    simp only [extended_extended, extended_labels, Nat.add_assoc, Nat.reduceAdd,
      List.cons_append, List.nil_append] at hm
    replace hr := of_runs_emit hr
    exact ⟨b₄, hm, hle.trans (.trans (Builder.keeps_extended _ _ _).toPrecedes
      (precedes_of_emit hr))⟩
  | repeatUntil =>
    unfold statement at hr
    replace hr := of_runs_newLabel hr
    replace hr := of_runs_newLabel hr
    replace hr := of_runs_newLabel hr
    replace hr := of_runs_emit hr
    obtain ⟨⟨⟩, b₃, hm, hr⟩ := hr.of_bind
    obtain ⟨b₄, hm, hle, -⟩ := of_runs_inBlock hm
    obtain ⟨⟨⟩, b₅, hm, hcond⟩ := hm.of_bind
    simp only [extended_extended, extended_labels, Nat.add_assoc, Nat.reduceAdd,
      List.nil_append] at hm
    refine ⟨b₅, hm, .trans ?_ (hle.trans (precedes_of_emit hr))⟩
    exact (repeatTail_touches _ [] _ _ _ _ _ _ _ hcond).1
  | block =>
    obtain ⟨b₂, hm, hle, -⟩ := of_runs_inBlock hr
    exact ⟨b₂, hm, hle⟩

/-- Two blocks of a statement are the same, or one is lowered before the other. -/
lemma Block.apart {f₁ f₂ : Option Flow} {body₁ body₂ : List TStmt} {c₁ c₂ : Builder}
    (h₁ : Block env flow s b f₁ body₁ c₁) (h₂ : Block env flow s b f₂ body₂ c₂) :
    (f₁ = f₂ ∧ body₁ = body₂ ∧ c₁ = c₂) ∨
      (TStmt.localsAll body₁ ++ TStmt.localsAll body₂ = s.locals ∧
        ∃ d, Runs env (statements f₁ body₁) c₁ () d ∧ d.Precedes c₂) ∨
      TStmt.localsAll body₂ ++ TStmt.localsAll body₁ = s.locals ∧
        ∃ d, Runs env (statements f₂ body₂) c₂ () d ∧ d.Precedes c₁ := by
  cases h₁ with
  | ifThen h =>
    cases h₂ with
    | ifThen h' =>
      obtain ⟨rfl, rfl⟩ := h.unique h'
      exact .inl ⟨rfl, rfl, rfl⟩
  | ifElse h =>
    cases h₂ with
    | ifElse h' =>
      obtain ⟨rfl, rfl⟩ := h.unique h'
      exact .inl ⟨rfl, rfl, rfl⟩
    | other h' hb =>
      obtain ⟨rfl, rfl⟩ := h.unique h'
      obtain ⟨d, hd, hle, -⟩ := of_runs_inBlock hb
      exact .inr (.inl ⟨rfl, d, hd, hle.trans (Builder.keeps_extended _ _ _).toPrecedes⟩)
  | other h hb =>
    cases h₂ with
    | ifElse h' =>
      obtain ⟨rfl, rfl⟩ := h.unique h'
      obtain ⟨d, hd, hle, -⟩ := of_runs_inBlock hb
      exact .inr (.inr ⟨rfl, d, hd, hle.trans (Builder.keeps_extended _ _ _).toPrecedes⟩)
    | other h' hb' =>
      obtain ⟨rfl, rfl⟩ := h.unique h'
      obtain ⟨-, rfl⟩ := hb.unique hb'
      exact .inl ⟨rfl, rfl, rfl⟩
  | whileLoop h =>
    cases h₂ with
    | whileLoop h' =>
      obtain ⟨rfl, rfl⟩ := h.unique h'
      exact .inl ⟨rfl, rfl, rfl⟩
  | repeatUntil =>
    cases h₂ with
    | repeatUntil => exact .inl ⟨rfl, rfl, rfl⟩
  | block =>
    cases h₂ with
    | block => exact .inl ⟨rfl, rfl, rfl⟩

/-! ## Points -/

/-- What a statement makes visible is among what is declared in it, with the statements after it. -/
lemma localsAll_cons (s : TStmt) (ss : List TStmt) :
    TStmt.localsAll (s :: ss) = s.locals ++ TStmt.localsAll ss := rfl

/-- The condition of a statement comes after the statement began. -/
lemma Condition.precedes (h : Condition env S s b x D c) : b.Precedes c := by
  cases h with
  | ifThen | ifElse => exact .refl _
  | whileLoop => exact (Builder.keeps_extended _ _ _).toPrecedes
  | repeatUntil h =>
    exact (Builder.keeps_extended _ _ _).toPrecedes.trans
      ((statements_touch _ _ _ _ _ h).1.trans (Builder.keeps_extended _ _ _).toPrecedes)

/-- A condition sees the variables in it. -/
lemma Condition.sees {y : TExpr} (h : Condition env S s b x D c) (hy : x.Has y) :
    s.Sees S D y := by
  cases h with
  | ifThen | ifElse | whileLoop => exact .inl ⟨rfl, hy⟩
  | repeatUntil => exact .inr ⟨rfl, hy⟩

/-- Before a condition, storage is given to locals of the statement only. -/
lemma Condition.lookup_eq (h : Condition env S s b x D c) :
    ∀ i ∉ s.locals.map Local.id, c.locals.lookup i = b.locals.lookup i := by
  intro i hi
  cases h with
  | ifThen | ifElse => rfl
  | whileLoop => rfl
  | repeatUntil h =>
    exact (statements_touch _ _ _ _ _ h).2 i fun hd =>
      hi (List.map_subset _ (TStmt.declaresAll_sublist _).subset hd)

/-- The operands that an assignment evaluates are its expressions. -/
lemma AssignComes.mem_operands {vs : List TExpr} {ps : List Pair} {ds : List TExpr}
    {gs : List TTarget} (h : AssignComes env vs ps ds b (.evaluates x) c) :
    x ∈ TStmt.operands gs vs ps ds := by
  have target : ∀ {q : Pair} {w : Visit}, w = targetVisit q.target → w = .evaluates x →
      q.place? = some x := by
    intro q w hg hw
    cases hq : q.target with
    | decl d l =>
      rw [hq] at hg
      cases hg.symm.trans hw
    | expr y =>
      rw [hq] at hg
      obtain rfl := Visit.evaluates.inj (hg.symm.trans hw)
      simp [Pair.place?, hq]
  unfold TStmt.operands
  simp only [List.mem_append, List.mem_filterMap]
  generalize hv : Visit.evaluates x = w at h
  cases h with
  | discarded hds =>
    obtain rfl := Visit.evaluates.inj hv
    exact .inr (by simp [hds])
  | destination => cases hv
  | @directTarget f g ws c entries hps =>
    exact .inl (.inr ⟨⟨.user f, g, ws⟩, by simp [hps], target rfl hv.symm⟩)
  | directArgument hps hd ho hg hx =>
    obtain rfl := Visit.evaluates.inj hv
    obtain ⟨w, -, hw⟩ := List.mem_filterMap.1 hx.mem
    exact .inl (.inl (.inr (List.mem_of_getElem? hw)))
  | value hd ho hvs =>
    obtain rfl := Visit.evaluates.inj hv
    exact .inl (.inl (.inr (by simp [hvs])))
  | @target pre post q c c₁ c₂ operands entries hd ho hvs hps =>
    exact .inl (.inr ⟨q, by simp [hps], target rfl hv.symm⟩)

/-- **Points come after the statements began**, and storage is given to their locals only. -/
lemma Visits.touches (h : Visits env flow ss S b v D c) : b.Precedes c ∧
    ∀ i ∉ (TStmt.localsAll ss).map Local.id, c.locals.lookup i = b.locals.lookup i := by
  have mem_left : ∀ {s : TStmt} {ss : List TStmt} {i : Nat},
      i ∉ (TStmt.localsAll (s :: ss)).map Local.id → i ∉ s.locals.map Local.id := by
    intro s ss i hi hs
    exact hi (List.map_subset _ (List.subset_append_left _ _) hs)
  induction h with
  | assign h => exact ⟨h.touches.1, fun i hi => h.touches.2 i (mem_left hi)⟩
  | condition h => exact ⟨h.precedes, fun i hi => h.lookup_eq i (mem_left hi)⟩
  | block hb _ ih =>
    refine ⟨hb.keeps.toPrecedes.trans ih.1, fun i hi => ?_⟩
    rw [ih.2 i fun hbody => mem_left hi (List.map_subset _ hb.locals_sublist.subset hbody),
      hb.keeps.locals_eq]
  | @later flow s ss S D v b b₁ c hs _ ih =>
    obtain ⟨hle, hl⟩ := statement_touches flow s b () b₁ hs
    refine ⟨hle.trans ih.1, fun i hi => ?_⟩
    rw [ih.2 i fun hss => hi (List.map_subset _ (List.subset_append_right _ _) hss)]
    exact hl i fun hd => mem_left hi (List.map_subset _ s.declares_sublist.subset hd)

/-- **Expressions see the scopes that are carried along**. -/
lemma Visits.sees (h : Visits env flow ss S b v D c) :
    ∀ {x y : TExpr}, v = .evaluates x → x.Has y → TStmt.SeesAll S ss D y := by
  induction h with
  | assign h =>
    rintro x y rfl hy
    exact .inl ⟨rfl, x, h.mem_operands, hy⟩
  | condition h =>
    rintro x y hx hy
    obtain rfl := Visit.evaluates.inj hx
    exact .inl (h.sees hy)
  | block hb _ ih => exact fun hx hy => .inl (hb.sees (ih hx hy))
  | later _ _ ih => exact fun hx hy => .inr (ih hx hy)

/-- A local that is bound is one of the statements. -/
lemma Visits.mem_localsAll (h : Visits env flow ss S b v D c) :
    ∀ {l : Local}, v = .binds l → l ∈ TStmt.localsAll ss := by
  induction h with
  | assign h =>
    rintro l rfl
    exact List.mem_append_left _ h.mem_declaredBy
  | condition h => exact fun hl => absurd hl (by simp)
  | block hb _ ih => exact fun hl => List.mem_append_left _ (hb.locals_sublist.subset (ih hl))
  | later _ _ ih => exact fun hl => List.mem_append_right _ (ih hl)

/-- Statements whose locals have different numbers and no storage yet. -/
structure Startable (ss : List TStmt) (b : Builder) : Prop where
  nodup : ((TStmt.localsAll ss).map Local.id).Nodup
  fresh : ∀ l ∈ TStmt.localsAll ss, b.locals.lookup l.id = none
  fed : TStmt.EachAll (fun _ _ ps _ => AreFed ps) (fun _ => True) ss

/-- The locals that one assignment declares are distinct. -/
lemma Startable.nodup_declaredBy {pos : Position} {gs : List TTarget} {vs : List TExpr}
    {ps : List Pair} {ds : List TExpr} (h : Startable (.assign pos gs vs ps ds :: ss) b) :
    ((declaredBy ps).map Local.id).Nodup :=
  h.nodup.sublist ((List.sublist_append_left _ _).map _)

/-- A block may start where its statement may. -/
lemma Startable.block (h : Startable (s :: ss) b) (hb : Block env flow s b flow' body b₁) :
    Startable body b₁ where
  nodup := h.nodup.sublist ((hb.locals_sublist.trans (List.sublist_append_left _ _)).map _)
  fresh l hl := by
    rw [hb.keeps.locals_eq]
    exact h.fresh l (List.mem_append_left _ (hb.locals_sublist.subset hl))
  fed := hb.each h.fed.1

/-- Locals of the first statement are not those of later ones. -/
lemma Startable.ne_of_mem (h : Startable (s :: ss) b) (hl : l ∈ s.locals)
    (hl' : l' ∈ TStmt.localsAll ss) : l.id ≠ l'.id := by
  have hn := h.nodup
  rw [localsAll_cons, List.map_append, List.nodup_append'] at hn
  exact fun he => hn.2.2 (List.mem_map_of_mem hl) (he ▸ List.mem_map_of_mem hl')

/-- The first statement may start alone. -/
lemma Startable.head (h : Startable (s :: ss) b) : Startable [s] b := by
  refine ⟨h.nodup.sublist (List.Sublist.map _ ?_), fun k hk => h.fresh k ?_, h.fed.1, trivial⟩
  · simp [TStmt.localsAll]
  · have hk : k ∈ s.locals := by simpa [TStmt.localsAll] using hk
    exact List.mem_append_left _ hk

/-- The points of a statement are points of it with the statements after it. -/
lemma Visits.of_head (h : Visits env flow [s] S b v D c) : Visits env flow (s :: ss) S b v D c := by
  cases h with
  | assign h => exact .assign h
  | condition h => exact .condition h
  | block hb h => exact .block hb h
  | later _ h => cases h

/-- Later statements may start after the first. -/
lemma Startable.later (h : Startable (s :: ss) b) (hs : Runs env (statement flow s) b () b₁) :
    Startable ss b₁ where
  nodup := h.nodup.sublist ((List.sublist_append_right _ _).map _)
  fresh l hl := by
    refine lookup_eq_none_of_touched (statement_touches flow s b () b₁ hs).2
      (h.fresh l (List.mem_append_right _ hl)) fun k hk => ?_
    exact (h.ne_of_mem (s.declares_sublist.subset hk) hl).symm
  fed := h.fed.2

/-- **A local that is bound has its storage when the statements are left**. -/
theorem Visits.bound_before (h : Visits env flow ss S b v D c) : ∀ {l : Local} {b' : Builder},
    v = .binds l → Startable ss b → Runs env (statements flow ss) b () b' →
      BoundBefore env l c b' := by
  induction h with
  | @assign flow pos gs vs ps ds ss S v b c h =>
    rintro l b' rfl hst hr
    obtain ⟨⟨⟩, b₁, hs, hr⟩ := hr.of_bind
    have hn := hst.nodup_declaredBy
    obtain ⟨c₀, s, d, hpoint, hbind, hle, -⟩ :=
      exists_point_of_assign hn hst.fed.1 h.mem_declaredBy hs
    obtain ⟨-, rfl⟩ | ⟨hne, -⟩ := h.apart hn hpoint
    · exact (BoundBefore.of_run hbind hle).trans (statements_touch flow ss _ _ _ hr).1
    · exact absurd rfl hne
  | condition h => exact fun hl => absurd hl (by simp)
  | @block flow flow' s ss body S D v b b₁ c hb h ih =>
    intro l b' hl hst hr
    obtain ⟨⟨⟩, b₂, hs, hr⟩ := hr.of_bind
    obtain ⟨b₃, hbody, hle⟩ := hb.of_runs hs
    exact (ih hl (hst.block hb) hbody).trans (hle.trans (statements_touch flow ss _ _ _ hr).1)
  | @later flow s ss S D v b b₁ c hs h ih =>
    intro l b' hl hst hr
    obtain ⟨⟨⟩, b₂, hs', hr⟩ := hr.of_bind
    obtain ⟨-, rfl⟩ := hs'.unique hs
    exact ih hl (hst.later hs) hr

/-- A local that is bound in a statement has its storage before the statements after it. -/
lemma Visits.apart_of_later {D' : List Scope} (hst : Startable (s :: ss) b)
    (h : Visits env flow [s] S b (.binds l) D c) (hs : Runs env (statement flow s) b () b₁)
    (h' : Visits env flow ss (Scope.extend s.declares S) b₁ (.binds l') D' c') :
    Apart env l l' c c' := by
  have hl : l ∈ s.locals := by simpa [TStmt.localsAll] using h.mem_localsAll rfl
  have hrun : Runs env (statements flow [s]) b () b₁ := (run_bind hs).trans rfl
  exact .inr ⟨hst.ne_of_mem hl (h'.mem_localsAll rfl),
    .inl ((h.bound_before rfl hst.head hrun).trans h'.touches.1)⟩

/-- A local that is bound in a block has its storage before a block that is lowered after it. -/
lemma Visits.apart_of_block {f f' : Option Flow} {body' : List TStmt} {D' S' : List Scope}
    {c₁ c₂ d : Builder} (hst : Startable (s :: ss) b) (hb : Block env flow s b f body c₁)
    (hlocals : TStmt.localsAll body ++ TStmt.localsAll body' = s.locals)
    (hd : Runs env (statements f body) c₁ () d) (hle : d.Precedes c₂)
    (h : Visits env f body S c₁ (.binds l) D c)
    (h' : Visits env f' body' S' c₂ (.binds l') D' c') : Apart env l l' c c' := by
  have hn := hst.nodup
  rw [localsAll_cons, List.map_append, ← hlocals, List.map_append] at hn
  have hn := (List.nodup_append'.1 (List.nodup_append'.1 hn).1).2.2
  refine .inr ⟨fun he => ?_, .inl ((h.bound_before rfl (hst.block hb) hd).trans
    (hle.trans h'.touches.1))⟩
  exact hn (List.mem_map_of_mem (h.mem_localsAll rfl))
    (he ▸ List.mem_map_of_mem (h'.mem_localsAll rfl))

/-- **The points at which locals are bound follow one another**.

**Proof sketch.** By induction on the first point. Two points in one assignment belong to pairs,
which are carried out in order. Of two blocks, and of a statement and what comes after it, the first
is lowered as a whole before the second. -/
theorem Visits.apart (h : Visits env flow ss S b v D c) :
    ∀ {v' : Visit} {D' : List Scope} {c' : Builder} {l l' : Local}, Startable ss b →
      v = .binds l → v' = .binds l' → Visits env flow ss S b v' D' c' → Apart env l l' c c' := by
  induction h with
  | assign h =>
    rintro v' D' c' l l' hst rfl rfl h'
    cases h' with
    | assign h' => exact h.apart hst.nodup_declaredBy h'
    | block hb' => cases hb'
    | later hs' h' => exact Visits.apart_of_later hst (.assign h) hs' h'
  | condition h => exact fun _ hl => absurd hl (by simp)
  | block hb h ih =>
    rintro v' D' c' l l' hst rfl rfl h'
    cases h' with
    | assign h' => cases hb
    | block hb' h' =>
      obtain ⟨rfl, rfl, rfl⟩ | ⟨hlocals, d, hd, hle⟩ | ⟨hlocals, d, hd, hle⟩ := hb.apart hb'
      · exact ih (hst.block hb) rfl rfl h'
      · exact h.apart_of_block hst hb hlocals hd hle h'
      · exact (h'.apart_of_block hst hb' hlocals hd hle h).symm
    | later hs' h' => exact Visits.apart_of_later hst (.block hb h) hs' h'
  | later hs h ih =>
    rintro v' D' c' l l' hst rfl rfl h'
    cases h' with
    | assign h' => exact (Visits.apart_of_later hst (.assign h') hs h).symm
    | block hb' h' => exact (Visits.apart_of_later hst (.block hb' h') hs h).symm
    | later hs' h' =>
      obtain ⟨-, rfl⟩ := hs.unique hs'
      exact ih (hst.later hs) rfl rfl h'

/-- **A local that is bound has no storage before**. -/
theorem Visits.lookup_eq_none (h : Visits env flow ss S b v D c) : ∀ {l : Local},
    v = .binds l → Startable ss b → c.locals.lookup l.id = none := by
  induction h with
  | assign h =>
    rintro l rfl hst
    exact h.lookup_eq_none hst.nodup_declaredBy fun k hk => hst.fresh k (List.mem_append_left _ hk)
  | condition h => exact fun hl => absurd hl (by simp)
  | block hb h ih => exact fun hl hst => ih hl (hst.block hb)
  | later hs h ih => exact fun hl hst => ih hl (hst.later hs)

/-- **What statements make visible is bound** at a point of them, and has its storage after them. -/
theorem exists_point : ∀ {ss : List TStmt} {b b' : Builder} {S : List Scope},
    Startable ss b → Runs env (statements flow ss) b () b' → ∀ l ∈ TStmt.declaresAll ss,
      ∃ D c s d, Visits env flow ss S b (.binds l) D c ∧ Runs env (bindLocal l) c s d ∧
        b'.locals.lookup l.id = some s
  | s :: ss, b, b', S, hst, hr, l, hl => by
    obtain ⟨⟨⟩, b₁, hs, hrest⟩ := hr.of_bind
    rw [TStmt.declaresAll, List.flatMap_cons, List.mem_append] at hl
    obtain hl | hl := hl
    · cases s with
      | assign pos gs vs ps ds =>
        obtain ⟨c, s, d, hpoint, hbind, -, hlook⟩ :=
          exists_point_of_assign hst.nodup_declaredBy hst.fed.1 hl hs
        refine ⟨S, c, s, d, .assign hpoint, hbind, ?_⟩
        rw [← hlook]
        refine (statements_touch flow ss _ _ _ hrest).2 l.id fun hi => ?_
        obtain ⟨k, hk, he⟩ := List.mem_map.1 hi
        exact hst.ne_of_mem hl ((TStmt.declaresAll_sublist ss).subset hk) he.symm
      | _ => cases hl
    · obtain ⟨D, c, s, d, hpoint, h⟩ := exists_point (hst.later hs) hrest l hl
      exact ⟨D, c, s, d, .later hs hpoint, h⟩

/-- **All locals in the scopes of an expression have storage**: those in the scopes around the
statements, and those that the statements bind before.

**Proof sketch.** By induction on the point. A scope is extended by what a statement makes visible,
and that was bound at a point of the statement; storage is not lost, because later statements only
give storage to other locals. -/
theorem Visits.exists_storage (h : Visits env flow ss S b v D c) : ∀ {x : TExpr},
    v = .evaluates x → Startable ss b → ∀ l ∈ D.flatMap Scope.locals, l ∈ S.flatMap Scope.locals ∨
      ∃ E c₀ s d, Visits env flow ss S b (.binds l) E c₀ ∧ Runs env (bindLocal l) c₀ s d ∧
        c.locals.lookup l.id = some s := by
  induction h with
  | assign h => exact fun _ _ l hl => .inl hl
  | @condition flow s ss S D x b c h =>
    intro _ _ hst l hl
    cases h with
    | ifThen | ifElse | whileLoop => exact .inl hl
    | @repeatUntil pos _ scope body _ b₁ h =>
      obtain hl | hl := Scope.mem_extend hl
      · exact .inl hl
      · have hblock : Block env flow (.repeatUntil pos scope body x) b _ body _ := .repeatUntil
        obtain ⟨E, c₀, s, d, hpoint, hbind, hlook⟩ := exists_point (hst.block hblock) h l hl
        exact .inr ⟨E, c₀, s, d, .block hblock hpoint, hbind, hlook⟩
  | block hb h ih =>
    intro x hx hst l hl
    obtain hl | ⟨E, c₀, s, d, hpoint, hbind⟩ := ih hx (hst.block hb) l hl
    · exact .inl hl
    · exact .inr ⟨E, c₀, s, d, .block hb hpoint, hbind⟩
  | @later flow s ss S D v b b₁ c hs h ih =>
    intro x hx hst l hl
    obtain hl | ⟨E, c₀, st, d, hpoint, hbind⟩ := ih hx (hst.later hs) l hl
    · obtain hl | hl := Scope.mem_extend hl
      · exact .inl hl
      · have hrun : Runs env (statements flow [s]) b () b₁ := (run_bind hs).trans rfl
        have hl' : l ∈ TStmt.declaresAll [s] := by simpa [TStmt.declaresAll] using hl
        obtain ⟨E, c₀, st, d, hpoint, hbind, hlook⟩ := exists_point (S := S) hst.head hrun l hl'
        refine .inr ⟨E, c₀, st, d, hpoint.of_head, hbind, ?_⟩
        rw [← hlook]
        refine h.touches.2 l.id fun hi => ?_
        obtain ⟨k, hk, he⟩ := List.mem_map.1 hi
        exact hst.ne_of_mem (s.declares_sublist.subset hl) hk he.symm
    · exact .inr ⟨E, c₀, st, d, .later hs hpoint, hbind⟩

end Statements

end Lane.Lowering
