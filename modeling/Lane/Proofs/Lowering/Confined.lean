import Lane.Proofs.Lowering.Disciplined
import Lane.Proofs.Lowering.Program
import Lane.Proofs.Regular.Program

set_option relaxedAutoImplicit false
set_option autoImplicit false

/-!
# Lowered functions are well formed

Lowering uses a register only where it was assigned in the same block: this is a discipline, in
which what is known are the registers assigned since the last label or jump. The labels of
statements are new, and jumps lead to them.

## Main definitions

* `Lane.Lowering.Confines`: computations that keep code confined.
* `Lane.Lowering.confining`: the discipline of confined code.

## Main results

* `Lane.Lowering.confined_of_build`, `Lane.Lowering.IsCodeOf.exists_isTidy`: the code of functions
  is confined and tidy.
* `Lane.Accepted.lowered_wellFormed`: the functions of an accepted program have well-formed
  registers and labels.
-/

namespace Lane.Lowering

open Code

/-! ## Confined code -/

/-- **Computations that keep code confined**: if they succeed where the registers `L` were assigned
in the last block, they add confined code without the instructions of a frame, and the result
satisfies `R` with the registers assigned after it. -/
structure Confines {α : Type} (env : Env) (L : List Reg) (m : Lower α) (R : List Reg → α → Prop) :
    Prop where
  of_run : ∀ b a b', b.AreSettled → (m.run env).run b = .ok (a, b') →
    ∃ is, b'.code = b.code ++ is ∧ (Confined L is ∧ ∀ i ∈ is, i.isOfFrame = false) ∧
      b'.AreSettled ∧ R (live L is) a

section Confines

variable {α β : Type} {env : Env} {L : List Reg} {m : Lower α} {R : List Reg → α → Prop}

/-- A result is confined. -/
lemma Confines.pure {a : α} (h : R L a) : Confines env L (pure a) R where
  of_run b a' b' hb hrun := by
    obtain ⟨rfl, rfl⟩ := Prod.mk.inj (Except.ok.inj hrun)
    exact ⟨[], by simp, ⟨trivial, List.forall_mem_nil _⟩, hb, h⟩

/-- One computation after the other is confined. -/
lemma Confines.bind {f : α → Lower β} {S : List Reg → β → Prop} (hm : Confines env L m R)
    (hf : ∀ M a, R M a → Confines env M (f a) S) : Confines env L (m >>= f) S where
  of_run b c b'' hb hrun := by
    obtain ⟨a, b', hm', hf'⟩ := of_run_bind hrun
    obtain ⟨is, hcode, his, hb', hR⟩ := hm.of_run b a b' hb hm'
    obtain ⟨js, hcode', hjs, hb'', hS⟩ := (hf _ a hR).of_run b' c b'' hb' hf'
    exact ⟨is ++ js, by rw [hcode', hcode, List.append_assoc],
      ⟨confined_append.2 ⟨his.1, hjs.1⟩, List.forall_mem_append.2 ⟨his.2, hjs.2⟩⟩, hb'',
      by rwa [live_append]⟩

/-- The builder changes, but not its code. -/
lemma Confines.modifyGet {g : Builder → α × Builder}
    (h : ∀ b, b.AreSettled → (g b).2.code = b.code ∧ (g b).2.AreSettled) (hR : ∀ b, R L (g b).1) :
    Confines env L (modifyGet g) R where
  of_run b a b' hb hrun := by
    obtain ⟨ha, rfl⟩ := Prod.mk.inj (Except.ok.inj hrun)
    exact ⟨[], by simp [(h b hb).1], ⟨trivial, List.forall_mem_nil _⟩, (h b hb).2, ha ▸ hR b⟩

/-- An instruction is confined if it uses live registers. -/
lemma Confines.emit {i : Instr} (hf : i.isOfFrame = false) (hi : ∀ r, .reg r ∈ i.uses → r ∈ L) :
    Confines env L (emit i) fun M _ => M = i.after L where
  of_run b a b' hb hrun := by
    obtain ⟨-, rfl⟩ := Prod.mk.inj (Except.ok.inj hrun)
    exact ⟨[i], rfl, ⟨confined_singleton.2 hi, List.forall_mem_singleton.2 hf⟩, hb, rfl⟩

/-- Less may be said about the result. -/
lemma Confines.weaken {R' : List Reg → α → Prop} (hm : Confines env L m R')
    (h : ∀ M a, R' M a → R M a) : Confines env L m R where
  of_run b a b' hb hrun := by
    obtain ⟨is, hcode, his, hb', hR⟩ := hm.of_run b a b' hb hrun
    exact ⟨is, hcode, his, hb', h _ a hR⟩

end Confines

/-- Operands that may be used where some registers were assigned. -/
def Assigned (L : List Reg) (o : Operand) : Prop := ∀ r, o = .reg r → r ∈ L

/-- The operands of an instruction are registers that were assigned. -/
lemma mem_of_assigned {L : List Reg} {os : List Operand} (h : ∀ o ∈ os, Assigned L o) :
    ∀ r, .reg r ∈ os → r ∈ L :=
  fun r hr => h _ hr r rfl

/-- **The discipline of confined code**: what is known are the registers assigned in the last
block. -/
def confiningExpr (env : Env) : Discipline env where
  other := env
  similar := .refl env
  World := List Reg
  Le := (· ⊆ ·)
  le_refl := List.Subset.refl
  le_trans := List.Subset.trans
  Has := Assigned
  has_mono hle h r hr := hle (h r hr)
  has_of_ne_reg h r hr := absurd hr (h r)
  Relates w m _ R := Confines env w m R
  holds_pure := Confines.pure
  holds_bind := Confines.bind
  holds_throw := ⟨fun _ _ _ _ hrun => nomatch hrun⟩
  holds_read h := ⟨h.of_run⟩
  Admits _ := True
  holds_storageOf {w l} _ := ⟨fun b s b' hb hrun => by
    obtain ⟨hs, rfl⟩ := of_run_storageOf hrun
    have hsettled := isSettled_of_lookup hb hs
    exact ⟨[], by simp, ⟨trivial, List.forall_mem_nil _⟩, hb, List.Subset.refl w, fun t r hr =>
      absurd hr (hsettled.base_ne_reg t r)⟩⟩
  holds_emit {w _ _} _ hi hu := (Confines.emit (Instr.isOfFrame_of_isStraight hi)
    (mem_of_assigned hu)).weaken fun M _ hM => by
    rw [hM, Instr.after_of_isStraight w hi]
    exact ⟨List.subset_append_right _ _, fun r hr r' hr' =>
      List.mem_append_left _ (Operand.reg.inj hr' ▸ hr)⟩
  holds_newReg _ := .modifyGet (fun _ hb => ⟨rfl, hb⟩) fun _ => ⟨List.Subset.refl _, _, rfl⟩
  holds_newVar _ _ := .modifyGet (fun _ hb => ⟨rfl, hb⟩) fun _ => List.Subset.refl _
  holds_newSlot _ _ _ _ := .modifyGet (fun _ hb => ⟨rfl, hb⟩) fun _ => ⟨List.Subset.refl _, _, rfl⟩

/-- **The discipline of confined bodies**. -/
def confining (env : Env) : BodyDiscipline env where
  toDiscipline := confiningExpr env
  admits _ := trivial
  holds_locals _ h := ⟨fun b a b' hb hrun => (h b hb).of_run b a b' hb hrun⟩
  holds_setStorage _ _ hs :=
    Confines.modifyGet (fun _ hb => ⟨rfl, List.forall_mem_cons.2 ⟨hs, hb⟩⟩)
      fun _ => List.Subset.refl _
  holds_newLabel _ := Confines.modifyGet (fun _ hb => ⟨rfl, hb⟩) fun _ => List.Subset.refl _
  holds_jump _ hu _ hf := (Confines.emit hf (mem_of_assigned hu)).weaken fun _ _ _ => trivial
  holds_inBlock hm := ⟨fun b a b' hb hrun =>
    (Confines.bind (S := fun _ _ => True) hm fun _ _ _ =>
      .modifyGet (fun _ _ => ⟨rfl, hb⟩) fun _ => trivial).of_run b a b' hb hrun⟩
  holds_byteSize kind t _ hn :=
    Discipline.byteSize_gives (D := confiningExpr env) (fun h => ⟨h.of_run⟩) kind t hn

/-- **The code of functions is confined**, and has no instructions of a frame. -/
theorem confined_of_build {env : Env} {e : Elaborated} {f : MemberFunction}
    {q : List Operand × List Operand} {b : Builder}
    (h : ((build e f).run env).run {} = .ok (q, b)) :
    Confined [] b.code ∧ ∀ i ∈ b.code, i.isOfFrame = false := by
  have hbuild : Confines env [] (build e f) fun _ _ => True :=
    BodyDiscipline.build_holds (confining env) e f ([] : List Reg)
  obtain ⟨is, hcode, his, -⟩ := hbuild.of_run {} q b (List.forall_mem_nil _) h
  obtain rfl : b.code = is := hcode
  exact his

/-! ## Labels -/

section Labels

variable {env : Env} {e : Elaborated} {f : MemberFunction} {fn : Function}

/-- Straight code has no labels. -/
lemma filterMap_label? {is : List Instr} (h : ∀ i ∈ is, i.isStraight) :
    is.filterMap Instr.label? = [] :=
  List.filterMap_eq_nil_iff.2 fun i hi => Instr.label?_of_isStraight (h i hi)

/-- The labels in the code of a faithful chunk. -/
lemma Chunk.Faithful.filterMap_label? {c : Chunk} (h : c.Faithful env) :
    c.code.filterMap Instr.label? = labelsOf [c] := by
  have inner : ∀ {is}, Quiet is → is.filterMap Instr.label? = [] := fun his =>
    List.filterMap_eq_nil_iff.2 fun i hi => by
      cases i with
      | label => cases (his _ hi).1
      | _ => rfl
  cases c with
  | quiet is => exact inner h
  | assign s is =>
    obtain ⟨_, _, _, _, _, -, his⟩ := h
    exact inner his.quiet
  | cond x is o yes no =>
    show (is ++ [Instr.branch o yes no]).filterMap Instr.label? = []
    rw [List.filterMap_append, inner (Emitted.quiet h)]
    rfl
  | label | goto => rfl

/-- The labels in the code of faithful chunks. -/
lemma filterMap_label?_flatten : ∀ {cs : List Chunk}, (∀ c ∈ cs, c.Faithful env) →
    (flatten cs).filterMap Instr.label? = labelsOf cs
  | [], _ => rfl
  | c :: cs, h => by
    obtain ⟨hc, hcs⟩ := List.forall_mem_cons.1 h
    rw [flatten_cons, List.filterMap_append, hc.filterMap_label?, filterMap_label?_flatten hcs,
      ← labelsOf_append]
    rfl

/-- The code of functions that the compiler added has no labels. -/
lemma straight_of_generated (he : env.Sound e) (hf : e.program.Declares f) (hgen : f.isGenerated)
    (hfn : function env e f = .ok fn) :
    ∃ code, fn.body = Function.frame code ∧ ∀ i ∈ code, i.isStraight := by
  obtain ⟨q, b, is, hpro, hem, hL, -⟩ := prologue_lowers (T := False) he hf 0 {} rfl
  obtain ⟨⟨⟩, b', js, hrun, hem', -⟩ := generated_lowers he hf hL hgen False.elim b rfl
  have hbody : ((bodyOf e f).run env).run b = .ok ((), b') := by
    rw [← hrun, bodyOf, if_pos hgen]
  have hstraight : ∀ i ∈ is ++ js, i.isStraight := fun i hi =>
    (List.mem_append.1 hi).elim (hem.straight i) (hem'.straight i)
  have hfun := function_of_run (e := e) hpro hbody hem.toGrows hem'.toGrows fun i hi l hl => by
    rw [Instr.targets_of_isStraight (hstraight i hi)] at hl
    cases hl
  obtain rfl := Except.ok.inj (hfun.symm.trans hfn)
  exact ⟨_, rfl, hstraight⟩

end Labels

/-! ## Functions -/

section Functions

variable {e : Elaborated} {l : Layouts} {width : Nat} {f : MemberFunction} {fn : Function}

/-- **The code of a function is tidy**. -/
theorem IsCodeOf.exists_isTidy (h : IsCodeOf e l width f fn) (he : e.Typed)
    (hl : l.Complete e.program) (hf : e.program.Declares f) (hclean : e.isClean f) :
    ∃ code, fn.body = Function.frame code ∧ IsTidy code := by
  have hspec := (h.spec he hl hf hclean).2
  obtain ⟨n, hfn⟩ := h
  obtain ⟨q, b, hrun, hbody⟩ := of_function_eq_ok hfn
  obtain ⟨⟨is, his⟩, -⟩ := (build_keeps e f).of_run {} q b (List.forall_mem_nil _) hrun
  obtain rfl : b.code = is := his.code_eq
  have eq_code : ∀ {code}, fn.body = Function.frame code → b.code = code := fun hcode => by
    have h : Function.frame b.code = Function.frame _ :=
      (congrArg Function.body hbody).symm.trans hcode
    simpa [Function.frame] using h
  refine ⟨b.code, congrArg Function.body hbody, ?_⟩
  cases hgen : f.isGenerated with
  | true =>
    have hsound := envOf_sound he.program_wf hl width (memberDecl e f n)
    obtain ⟨code, hcode, hstraight⟩ := straight_of_generated hsound hf hgen hfn
    obtain rfl := eq_code hcode
    have hlabels := filterMap_label? hstraight
    refine ⟨(confined_of_build hrun).1, his.regs_nodup, by simp [hlabels], by simp [hlabels],
      fun i hi l hl => ?_⟩
    rw [Instr.targets_of_isStraight (hstraight i hi)] at hl
    cases hl
  | false =>
    obtain ⟨c, hc⟩ := exists_body_of_isClean hclean hgen
    obtain ⟨m, opening, cs, himpl, -⟩ := hspec c hgen hc
    obtain ⟨k, hshapes⟩ := himpl.shapes
    have hcode := eq_code himpl.body_eq
    have hlabels : b.code.filterMap Instr.label? = labelsOf cs := by
      rw [hcode, List.filterMap_append, filterMap_label? himpl.opens.2,
        filterMap_label?_flatten hshapes.faithful, List.nil_append]
    refine ⟨(confined_of_build hrun).1, his.regs_nodup, hlabels ▸ hshapes.fresh.nodup, ?_, ?_⟩
    · rw [hlabels]
      intro l hl
      have hlt := (hshapes.fresh.bounds l hl).1
      exact ⟨fun he => absurd (he ▸ hlt) (by decide), fun he => absurd (he ▸ hlt) (by decide)⟩
    · exact hcode ▸ label_mem_frame himpl.opens.2 hshapes.faithful hshapes.closed

/-- The parameters and results of a function are variables. -/
lemma IsCodeOf.bound (h : IsCodeOf e l width f fn) : ∀ r, .reg r ∉ fn.params ++ fn.results := by
  obtain ⟨n, hfn⟩ := h
  have hregular := regular_of_function hfn
  intro r hr
  obtain ⟨-, v, hv⟩ := hregular.params_vars.append hregular.results_vars _ hr
  cases hv

end Functions

/-- A program that is refused has no functions and no declarations. -/
lemma of_lower_not_isOk {e : Elaborated} {name : String} {width : Int} {ds : Diagnostics}
    {p : LoweredProgram} (hp : (e.lower name width ds).2 = .ok p) (hok : p.isOk = false) :
    p.module.functions = [] ∧ p.declared.decls = [] := by
  unfold Elaborated.lower at hp
  simp only at hp
  split at hp
  · obtain rfl := Except.ok.inj hp
    exact ⟨rfl, rfl⟩
  · unfold Elaborated.lowerWith at hp
    cases hd : declare e with
    | error => simp [hd, bind, Except.bind] at hp
    | ok d =>
      simp only [hd, bind, Except.bind] at hp
      split at hp
      · cases hp
      · obtain rfl := Except.ok.inj hp
        cases hok

end Lane.Lowering

namespace Lane.Accepted

open Code Lowering

variable {file name : String} {text : List Rune} {e : Elaborated} {width : Int} {ds : Diagnostics}
  {p : LoweredProgram}

/-- **The functions of an accepted program** have well-formed registers and labels. -/
theorem lowered_wellFormed (h : Accepted file text e) (hp : (e.lower name width ds).2 = .ok p) :
    ∀ fn ∈ p.module.functions, fn.WellFormed := by
  intro fn hfn
  cases hok : p.isOk with
  | false =>
    rw [(of_lower_not_isOk hp hok).1] at hfn
    cases hfn
  | true =>
    obtain ⟨f, hf, hclean, hcode⟩ := h.exists_isCodeOf hp hok hfn
    obtain ⟨code, hbody, htidy⟩ := hcode.exists_isTidy h.typed (h.lower_isOk hp hok).1 hf hclean
    exact htidy.wellFormed hbody hcode.bound

end Lane.Accepted
