import Lane.Proofs.Analysis.Parts
import Lane.Proofs.Evaluation.Lowered
import Lane.Proofs.Lowering.Program

set_option relaxedAutoImplicit false
set_option autoImplicit false

/-!
# Evaluation in programs

Every expression without calls in an accepted program is lowered to code that computes what the
expression stands for, whatever state it is run in.

## Main definitions

* `Lane.TStmt.Mentions`, `Lane.TStmt.MentionAll`: the expressions in statements, with the locals
  that are visible to them.

## Main results

* `Lane.Accepted.evaluates_expression`: expressions in accepted programs are lowered correctly.
-/

namespace Lane

open Code Lowering

/-! ## Expressions inside statements -/

namespace TStmt

mutual

/-- **The expressions in a statement** to which the locals `Γ` are visible, with the locals `Δ` that
are visible to the expression. -/
def Mentions (Γ : List Local) : TStmt → List Local → TExpr → Prop
  | .assign _ _ vs ps ds, Δ, x => Δ = Γ ∧ ∃ y ∈ vs ++ ps.filterMap Pair.place? ++ ds, y.Has x
  | .ifThen _ c _ b, Δ, x => Δ = Γ ∧ c.Has x ∨ MentionAll Γ b Δ x
  | .ifElse _ c _ b _ o, Δ, x =>
    Δ = Γ ∧ c.Has x ∨ MentionAll Γ b Δ x ∨ MentionAll Γ o Δ x
  | .whileLoop _ c _ b, Δ, x => Δ = Γ ∧ c.Has x ∨ MentionAll Γ b Δ x
  | .repeatUntil _ _ b c, Δ, x => MentionAll Γ b Δ x ∨ Δ = Γ ++ declaresAll b ∧ c.Has x
  | .block _ _ b, Δ, x => MentionAll Γ b Δ x
  | .ret _, _, _ | .brk _, _, _ | .cont _, _, _ => False

/-- The expressions in statements, each of which sees the locals of those before it. -/
def MentionAll (Γ : List Local) : List TStmt → List Local → TExpr → Prop
  | [], _, _ => False
  | s :: ss, Δ, x => Mentions Γ s Δ x ∨ MentionAll (Γ ++ s.declares) ss Δ x

end

/-- The expressions on the right of an assignment. -/
def values : TStmt → List TExpr
  | .assign _ _ vs _ _ => vs
  | _ => []

section Mentions

variable {p : Program}

/-- The first statement sees what is visible to all of them. -/
lemma mentionAll_of_mem_values {Γ : List Local} {s : TStmt} {ss : List TStmt} {x : TExpr}
    (hx : x ∈ s.values) : MentionAll Γ (s :: ss) Γ x := by
  cases s with
  | assign =>
    exact .inl ⟨rfl, x, List.mem_append_left _ (List.mem_append_left _ hx), .refl x⟩
  | _ => cases hx

mutual

/-- The expressions in a typed statement are typed, and what they see is valid. -/
theorem Mentions.typed {Γ Δ : List Local} {inLoop : Bool} {s : TStmt} {x : TExpr}
    (hs : s.Typed p Γ inLoop) (hΓ : ∀ l ∈ Γ, p.Valid l.type) (h : Mentions Γ s Δ x) :
    x.Typed p Δ ∧ ∀ l ∈ Δ, p.Valid l.type := by
  cases s with
  | assign =>
    obtain ⟨rfl, y, hy, hx⟩ := h
    exact ⟨(typed_of_assign hs hy).of_has hx, hΓ⟩
  | ifThen =>
    obtain ⟨hc, hb⟩ := hs
    obtain ⟨rfl, hx⟩ | h := h
    · exact ⟨hc.1.of_has hx, hΓ⟩
    · exact MentionAll.typed hb hΓ h
  | ifElse =>
    obtain ⟨hc, hb, ho⟩ := hs
    obtain ⟨rfl, hx⟩ | h | h := h
    · exact ⟨hc.1.of_has hx, hΓ⟩
    · exact MentionAll.typed hb hΓ h
    · exact MentionAll.typed ho hΓ h
  | whileLoop =>
    obtain ⟨hc, hb⟩ := hs
    obtain ⟨rfl, hx⟩ | h := h
    · exact ⟨hc.1.of_has hx, hΓ⟩
    · exact MentionAll.typed hb hΓ h
  | repeatUntil =>
    obtain ⟨hb, hc⟩ := hs
    obtain h | ⟨rfl, hx⟩ := h
    · exact MentionAll.typed hb hΓ h
    · refine ⟨hc.1.of_has hx, fun l hl => ?_⟩
      exact (List.mem_append.1 hl).elim (hΓ l) (valid_of_declaresAll hb l)
  | block => exact MentionAll.typed hs hΓ h
  | ret | brk | cont => exact h.elim

/-- The expressions in typed statements are typed, and what they see is valid. -/
theorem MentionAll.typed {Γ Δ : List Local} {inLoop : Bool} {ss : List TStmt} {x : TExpr}
    (hs : TypedAll p Γ inLoop ss) (hΓ : ∀ l ∈ Γ, p.Valid l.type) (h : MentionAll Γ ss Δ x) :
    x.Typed p Δ ∧ ∀ l ∈ Δ, p.Valid l.type := by
  cases ss with
  | nil => exact h.elim
  | cons s ss =>
    obtain ⟨hs, hss⟩ := hs
    obtain h | h := h
    · exact Mentions.typed hs hΓ h
    · refine MentionAll.typed hss (fun l hl => ?_) h
      obtain hl | hl := List.mem_append.1 hl
      · exact hΓ l hl
      · have hone : TypedAll p Γ inLoop [s] := ⟨hs, trivial⟩
        exact valid_of_declaresAll hone l (by simpa [declaresAll])

end

end Mentions

end TStmt

/-- An expression without calls has one type. -/
lemma TExpr.Typed.types_of_isCallFree {p : Program} {Γ : List Local} {x : TExpr}
    (hx : x.Typed p Γ) (hc : x.isCallFree) : ∃ t, x.types = [t] := by
  cases hx <;> first | exact ⟨_, rfl⟩ | simp [isCallFree] at hc

/-! ## States -/

/-- **Only visible locals matter** to what an expression stands for. -/
lemma TExpr.Typed.eval_eq {p : Program} {Γ : List Local} {x : TExpr} (hx : x.Typed p Γ) {W : World}
    {locals : Nat → Option Meaning} (h : ∀ l ∈ Γ, locals l.id = W.locals l.id) :
    x.eval { W with locals } = x.eval W := by
  induction hx with
  | ident hl | self hl => simp [eval, h _ hl]
  | literal => simp [eval]
  | unary _ _ _ ih | size _ _ ih | deref _ _ ih | convert _ _ _ _ ih => simp [eval, ih]
  | member _ _ _ _ ih => simp [eval, ih, World.distance?]
  | binary _ _ _ _ _ ihx ihy => simp [eval, ihx, ihy]
  | @index _ _ _ _ _ _ _ t _ _ _ _ ihx ihy =>
    have hsize : ∀ t, World.size? { W with locals } t = W.size? t := fun t => by
      cases t <;> rfl
    simp [eval, ihx, ihy, hsize]
  | _ => simp [eval]

namespace Lowering

/-- Code that computes new registers does not change what expressions stand for. -/
lemma value?_worldOf_eq {I : Operators} {env : Env} {L : Locals} {T : Prop} {p : Program}
    {Γ : List Local} (hL : Houses T Γ L) {n : Nat} {s t : State} (h : s.Keeps n t) {x : TExpr}
    (hx : x.Typed p Γ) : x.value? (worldOf I env L t) = x.value? (worldOf I env L s) := by
  have hlocals : ∀ l ∈ Γ, (worldOf I env L t).locals l.id = (worldOf I env L s).locals l.id := by
    intro l hl
    obtain ⟨st, hst, hsound⟩ := hL l hl
    simp only [worldOf, hst, Option.map_some]
    cases st with
    | var v => exact congrArg (some ∘ Meaning.value) (congrFun h.vars_eq v)
    | memory a =>
      have hbelow : a.Below n := fun r hr => (hsound.settled a rfl r hr).elim
      exact congrArg (some ∘ Meaning.place) (h.value_eq hbelow)
  have hworld : worldOf I env L t =
      { worldOf I env L s with locals := (worldOf I env L t).locals } := by
    simp [worldOf, h.mem_eq]
  have heval : x.eval (worldOf I env L t) = x.eval (worldOf I env L s) := by
    rw [hworld]
    exact hx.eval_eq hlocals
  simp [TExpr.value?, heval, h.mem_eq]

end Lowering

/-! ## Programs -/

namespace Accepted

variable {file name : String} {text : List Rune} {e : Elaborated} {width : Int} {ds : Diagnostics}
  {p : LoweredProgram}

/-- **Expressions are lowered correctly**: the code of an expression without calls in a body of an
accepted program may be run in any state. It changes nothing but new registers, and what it gives is
the value of the expression in this state. Its first number of a register and the storage of the
locals that the expression sees are those of any builder. Operators may compute anything, except
that the numbers of elements are multiplied as words. -/
theorem evaluates_expression (h : Accepted file text e) (hp : (e.lower name width ds).2 = .ok p)
    (hok : p.isOk) {f : MemberFunction} (hf : e.program.Declares f) {b : FuncBody}
    (hb : e.body? f = some b) {Γ : List Local} {x : TExpr}
    (hx : TStmt.MentionAll f.rootLocals b.body Γ x) (hc : x.isCallFree) (current : FuncDecl)
    (B : Builder) (hB : Houses True Γ B.locals) :
    let env := envOf e p.layouts p.width current
    ∃ o is B', ((expr x).value.run env).run B = .ok (o, B') ∧ B'.code = B.code ++ is ∧
      B'.locals = B.locals ∧ ∀ I : Operators, I.ScalesIndices → ∀ s : State, ∃ s',
        run? I is s = some s' ∧ s.Keeps B.regs s' ∧
        x.value? (worldOf I env B.locals s) = some (s'.value o) := by
  intro env
  obtain ⟨hbody, rfl⟩ := typed_of_body? h.typed hf hb
  obtain ⟨hx, hΓ⟩ := TStmt.MentionAll.typed hbody.typed
    (hf.rootLocals_valid h.typed.program_wf) hx
  have he : env.Sound e := envOf_sound h.typed.program_wf (h.lower_isOk hp hok).1 p.width current
  obtain ⟨t, ht⟩ := hx.types_of_isCallFree hc
  obtain ⟨o, B', is, hrun, hem, hl, -⟩ :=
    (expr_sound he hB hΓ hx).value_yields (by rwa [expr_expr]) B rfl
  refine ⟨o, is, B', hrun, hem.code_eq, hl, fun I hI s => ?_⟩
  obtain ⟨is', hcode, -, -, hnum, -, heval⟩ :=
    (expr_evaluates hI he hB hΓ hx hc).value B.regs B o B' rfl (Nat.le_refl _) hrun
  obtain rfl : is = is' := List.append_cancel_left (hem.code_eq.symm.trans hcode)
  obtain ⟨s', hrun', hkeeps, hsolves⟩ := hnum.run I s
  refine ⟨s', hrun', hkeeps, ?_⟩
  rw [← value?_worldOf_eq hB hkeeps hx, ← heval s' hsolves, expr_expr]

/-- The prologue of a function gives storage to what its body starts with. -/
lemma exists_houses (h : Accepted file text e) (hp : (e.lower name width ds).2 = .ok p)
    (hok : p.isOk) {f : MemberFunction} (hf : e.program.Declares f) (current : FuncDecl) :
    ∃ q B, ((prologue f).run (envOf e p.layouts p.width current)).run {} = .ok (q, B) ∧
      Houses True f.rootLocals B.locals := by
  have he := envOf_sound h.typed.program_wf (h.lower_isOk hp hok).1 p.width current
  obtain ⟨q, B, is, hrun, -, hL, -⟩ := prologue_lowers (T := True) he hf 0 {} rfl
  exact ⟨q, B, hrun, hL.houses⟩

/-- A class that adds two members: one behind a pointer, and one of an element. -/
def addsMembers : String :=
  "class N { var v: int; var next: ptr{N};
    routine f(n: N, xs: array{N}, i: index) -> (r: int) { r = n.next^.v + xs[i].v; } }"

/-- A sum of members: one behind a pointer, and one of an element. -/
theorem evaluates_expression_members : ∃ e p f b x q B,
    compile? addsMembers = some (e, p) ∧
    e.body? f = some b ∧ x.isCallFree ∧ TStmt.MentionAll f.rootLocals b.body f.rootLocals x ∧
    let env := envOf e p.layouts p.width (memberDecl e f 0)
    ((prologue f).run env).run {} = .ok (q, B) ∧
    ∃ o is B', ((expr x).value.run env).run B = .ok (o, B') ∧ B'.code = B.code ++ is ∧
      B'.locals = B.locals ∧ ∀ I : Operators, I.ScalesIndices → ∀ s : State, ∃ s',
        run? I is s = some s' ∧ s.Keeps B.regs s' ∧
        x.value? (worldOf I env B.locals s) = some (s'.value o) := by
  have hrun : (compile? addsMembers).any fun (e, p) =>
      p.isOk && (memberFuncs e).any fun f => (e.body? f).any fun b =>
        b.body.head?.any fun s => s.values.any TExpr.isCallFree := by
    rw [compile?, addsMembers, Rune.ascii_ofList]
    decide +kernel
  obtain ⟨⟨e, p⟩, hcomp, hrun⟩ := (Option.any_eq_true ..).1 hrun
  obtain ⟨hok, hf⟩ := Bool.and_eq_true_iff.1 hrun
  obtain ⟨f, hf, hb⟩ := List.any_eq_true.1 hf
  obtain ⟨b, hb, hs⟩ := (Option.any_eq_true ..).1 hb
  obtain ⟨s, hs, hx⟩ := (Option.any_eq_true ..).1 hs
  obtain ⟨x, hx, hc⟩ := List.any_eq_true.1 hx
  obtain ⟨ss, hbody⟩ := List.head?_eq_some_iff.1 hs
  obtain ⟨hacc, hp⟩ := of_compile? hcomp
  have hf := mem_memberFuncs.1 hf
  have hmention : TStmt.MentionAll f.rootLocals b.body f.rootLocals x :=
    hbody ▸ TStmt.mentionAll_of_mem_values hx
  obtain ⟨q, B, hpro, hB⟩ := hacc.exists_houses hp hok hf (memberDecl e f 0)
  exact ⟨e, p, f, b, x, q, B, hcomp, hb, hc, hmention, hpro,
    hacc.evaluates_expression hp hok hf hb hmention hc (memberDecl e f 0) B hB⟩

end Accepted

end Lane
