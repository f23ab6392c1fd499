import Lane.Proofs.Lowering.Confined

set_option relaxedAutoImplicit false
set_option autoImplicit false

/-!
# Code for similar environments

In similar environments a function has the same code, apart from the identifiers of functions that
are called. The number of instances that packed code works on is a constant of scalar code: it
rounds the size of `simd` containers. Apart from such constants the code of a program is the same
for all widths.

## Main definitions

* `Lane.Lowering.Agrees`: computations that do the same in alike builders.
* `Lane.Lowering.agreeing`: the discipline of code that is alike in similar environments.

## Main results

* `Lane.Lowering.alike_of_function`: the code of a function.
* `Lane.Accepted.lowered_alike`: the code of an accepted program.
-/

namespace Lane.Code

/-- An instruction is like itself. -/
lemma Instr.Alike.refl {C : FuncDecl → FuncDecl → Prop} (hC : ∀ d, C d d) (i : Instr) :
    i.Alike C i := by
  cases i with
  | call => exact .call (hC _)
  | _ => exact .same rfl

/-- A weaker relation between the callees of instructions. -/
lemma Instr.Alike.mono {C C' : FuncDecl → FuncDecl → Prop} (hC : ∀ d d', C d d' → C' d d')
    {i i' : Instr} (h : i.Alike C i') : i.Alike C' i' := by
  cases h with
  | same hi => exact .same hi
  | const ht => exact .const ht
  | call hd => exact .call (hC _ _ hd)

/-- **Alike functions** have the same parameters, results and slots, and alike code. -/
structure Function.Alike (C : FuncDecl → FuncDecl → Prop) (f f' : Function) : Prop where
  params_eq : f.params = f'.params
  results_eq : f.results = f'.results
  slots_eq : f.slots = f'.slots
  instrs : List.Forall₂ (Instr.Alike C) f.instrs f'.instrs

/-- A weaker relation between the callees of functions. -/
lemma Function.Alike.mono {C C' : FuncDecl → FuncDecl → Prop} (hC : ∀ d d', C d d' → C' d d')
    {f f' : Function} (h : f.Alike C f') : f.Alike C' f' :=
  { h with instrs := h.instrs.imp fun _ _ => .mono hC }

end Lane.Code

namespace Lane.Lowering

open Code

/-- Environments for different widths are similar. -/
lemma Env.Similar.ofWidth (env : Env) (n : Nat) : env.Similar { env with width := n } :=
  { Env.Similar.refl env with }

/-- **Alike builders** have alike code, and everything else is the same. -/
structure Builder.Alike (C : FuncDecl → FuncDecl → Prop) (b b' : Builder) : Prop where
  code : List.Forall₂ (Instr.Alike C) b.code b'.code
  eq : b' = { b with code := b'.code }

/-- **Computations that agree**: if both succeed in alike builders, they give the same result and
alike builders again. -/
structure Agrees {α : Type} (env env' : Env) (m m' : Lower α) (R : α → Prop) : Prop where
  of_run : ∀ b b' a a' c c', b.AreSettled → b.Alike (env.Corresponds env') b' →
    (m.run env).run b = .ok (a, c) → (m'.run env').run b' = .ok (a', c') →
    a = a' ∧ c.AreSettled ∧ c.Alike (env.Corresponds env') c' ∧ R a

section Agrees

variable {α β : Type} {env env' : Env} {m m' : Lower α} {f f' : α → Lower β} {R R' : α → Prop}
  {S : β → Prop}

/-- Equal results without effects. -/
lemma Agrees.pure {a : α} (h : R a) : Agrees env env' (pure a) (pure a) R where
  of_run b b' x x' c c' hs hb hrun hrun' := by
    obtain ⟨rfl, rfl⟩ := Prod.mk.inj (Except.ok.inj hrun)
    obtain ⟨rfl, rfl⟩ := Prod.mk.inj (Except.ok.inj hrun')
    exact ⟨rfl, hs, hb, h⟩

/-- Computations in sequence agree. -/
lemma Agrees.bind (hm : Agrees env env' m m' R)
    (hf : ∀ a, R a → Agrees env env' (f a) (f' a) S) :
    Agrees env env' (m >>= f) (m' >>= f') S where
  of_run b b' x x' c c' hs hb hrun hrun' := by
    obtain ⟨a, b₁, hm₁, hf₁⟩ := of_run_bind hrun
    obtain ⟨a', b₁', hm₁', hf₁'⟩ := of_run_bind hrun'
    obtain ⟨rfl, hs₁, hb₁, ha⟩ := hm.of_run b b' a a' b₁ b₁' hs hb hm₁ hm₁'
    exact (hf a ha).of_run b₁ b₁' x x' c c' hs₁ hb₁ hf₁ hf₁'

/-- A weaker relation of the results. -/
lemma Agrees.weaken (hm : Agrees env env' m m' R) (h : ∀ a, R a → R' a) :
    Agrees env env' m m' R' where
  of_run b b' a a' c c' hs hb hrun hrun' := by
    obtain ⟨ha, hs', hb', hR⟩ := hm.of_run b b' a a' c c' hs hb hrun hrun'
    exact ⟨ha, hs', hb', h a hR⟩

/-- The environment is read. -/
lemma Agrees.read {g g' : Env → Lower α} (h : Agrees env env' (g env) (g' env') R) :
    Agrees env env' (read >>= g) (read >>= g') R :=
  ⟨h.of_run⟩

/-- A change of the builder that neither depends on code nor changes it. -/
lemma Agrees.modifyGet {g : Builder → α × Builder}
    (h : ∀ b code, g { b with code } = ((g b).1, { (g b).2 with code }))
    (hs : ∀ b, b.AreSettled → (g b).2.AreSettled) (hc : ∀ b, (g b).2.code = b.code)
    (hR : ∀ b, R (g b).1) : Agrees env env' (modifyGet g) (modifyGet g) R where
  of_run b b' a a' c c' hb hbb hrun hrun' := by
    obtain ⟨rfl, rfl⟩ := Prod.mk.inj (Except.ok.inj hrun)
    have hg : g b' = ((g b).1, { (g b).2 with code := b'.code }) := by rw [hbb.eq, h]
    obtain ⟨rfl, rfl⟩ := Prod.mk.inj (Except.ok.inj hrun')
    exact ⟨by rw [hg], hs b hb, ⟨by rw [hc, hc]; exact hbb.code, by rw [hg]⟩, hR b⟩

/-- Instructions that are alike are emitted. -/
lemma Agrees.emit {i i' : Instr} (h : i.Alike (env.Corresponds env') i') :
    Agrees env env' (emit i) (emit i') fun _ => True where
  of_run b b' a a' c c' hs hb hrun hrun' := by
    obtain ⟨-, rfl⟩ := Prod.mk.inj (Except.ok.inj hrun)
    obtain ⟨-, rfl⟩ := Prod.mk.inj (Except.ok.inj hrun')
    refine ⟨rfl, hs, ⟨List.rel_append hb.code (.cons h .nil), ?_⟩, trivial⟩
    rw [hb.eq]

/-- The same register is made. -/
lemma Agrees.newReg (t : VType) :
    Agrees env env' (newReg t) (newReg t) fun o => ∃ r, o = .reg r :=
  .modifyGet (fun _ _ => rfl) (fun _ hb => hb) (fun _ => rfl) fun _ => ⟨_, rfl⟩

/-- The same storage is recorded. -/
lemma Agrees.setLocals {id : Nat} {s : Storage} (hs : s.IsSettled) :
    Agrees env env' (setStorage id s) (setStorage id s) fun _ => True :=
  .modifyGet (fun _ _ => rfl) (fun _ hb => List.forall_mem_cons.2 ⟨hs, hb⟩) (fun _ => rfl)
    fun _ => trivial

/-- A register gets the same, except for a constant. -/
lemma Agrees.compute (kind : AssignKind) (t : VType) (n : Operand) {c c' : Const}
    (h : c.type = c'.type) : Agrees env env' (compute kind t [n, .const c])
      (compute kind t [n, .const c']) fun _ => True :=
  .bind (.newReg t) fun _ _ => .bind (.emit (.const h)) fun _ _ => .pure trivial

end Agrees

variable {env env' : Env}

/-- **The discipline of code that is alike in similar environments**. Nothing has to be known. -/
def agreeingExpr (h : env.Similar env') : Discipline env where
  other := env'
  similar := h
  World := Unit
  Le _ _ := True
  le_refl _ := trivial
  le_trans _ _ := trivial
  Has _ _ := True
  has_mono _ _ := trivial
  has_of_ne_reg _ := trivial
  Relates w m m' R := Agrees env env' m m' (R w)
  holds_pure := .pure
  holds_bind hm hf := .bind hm fun a ha => hf () a ha
  holds_throw := ⟨fun _ _ _ _ _ _ _ _ hrun => nomatch hrun⟩
  holds_read := .read
  Admits _ := True
  holds_storageOf _ := ⟨fun b b' s s' c c' hs hb hrun hrun' => by
    obtain ⟨hfound, rfl⟩ := of_run_storageOf hrun
    obtain ⟨hfound', rfl⟩ := of_run_storageOf hrun'
    rw [hb.eq] at hfound'
    exact ⟨Option.some.inj (hfound.symm.trans hfound'), hs, hb, trivial, fun _ => trivial⟩⟩
  holds_emit hi _ _ := (Agrees.emit hi).weaken fun _ _ => ⟨trivial, fun _ _ => trivial⟩
  holds_newReg t := (Agrees.newReg t).weaken fun _ h => ⟨trivial, h⟩
  holds_newVar _ _ := .modifyGet (fun _ _ => rfl) (fun _ hb => hb) (fun _ => rfl) fun _ => trivial
  holds_newSlot _ _ _ _ := .modifyGet (fun _ _ => rfl) (fun _ hb => hb) (fun _ => rfl) fun _ =>
    ⟨trivial, _, rfl⟩

/-- The number of bytes of a container has the same code, except for constants. -/
lemma agrees_byteSize (h : env.Similar env') (kind : SeqKind) (t : Ty) (o : Operand) :
    Agrees env env' (byteSize kind t o) (byteSize kind t o) fun _ => True := by
  have hscaled : ∀ o, Agrees env env' _ _ fun _ => _ := fun o =>
    Discipline.scaled_gives (D := agreeingExpr h) (w := ()) t (n := o) trivial
  suffices hsize : Agrees env env' (byteSize kind t o) (byteSize kind t o) fun _ => True ∧ True from
    hsize.weaken fun _ _ => trivial
  refine .read ?_
  cases kind with
  | simd =>
    exact .bind (.compute .add .index o rfl) fun sum _ =>
      .bind (.compute .and .index sum rfl) fun count _ => hscaled count
  | array => exact .bind (R := fun _ => True) (.pure trivial) fun count _ => hscaled count

/-- **The discipline of bodies that are alike in similar environments**. -/
def agreeing (h : env.Similar env') : BodyDiscipline env where
  toDiscipline := agreeingExpr h
  admits _ := trivial
  holds_locals hg h := ⟨fun b b' a a' c c' hs hb hrun hrun' =>
    (h b hs).of_run b b' a a' c c' hs hb hrun (hg b' b (by rw [hb.eq]) ▸ hrun')⟩
  holds_setStorage _ _ hs := (Agrees.setLocals hs).weaken fun _ _ => trivial
  holds_newLabel _ := .modifyGet (fun _ _ => rfl) (fun _ hb => hb) (fun _ => rfl) fun _ => trivial
  holds_jump hc _ _ _ := (Agrees.emit (.same hc)).weaken fun _ _ => trivial
  holds_inBlock hm := ⟨fun b b' a a' c c' hs hb hrun hrun' => by
    have hlocals : b'.locals = b.locals := by rw [hb.eq]
    refine (Agrees.bind (S := fun _ => True) hm fun _ _ =>
      .modifyGet (g := fun c => ((), { c with locals := b.locals })) (fun _ _ => rfl)
        (fun _ _ => hs) (fun _ => rfl) fun _ => trivial).of_run b b' a a' c c' hs hb hrun ?_
    rw [← hlocals]
    exact hrun'⟩
  holds_byteSize kind t o _ := (agrees_byteSize h kind t o).weaken fun _ _ => ⟨trivial, trivial⟩

/-! ## Functions and programs -/

section Functions

variable {env env' : Env} {e e' : Elaborated} {f : MemberFunction} {fn fn' : Function}

/-- Builders in which runs in similar environments end. -/
lemma alike_of_build {q q' : List Operand × List Operand} {b b' : Builder} (hs : env.Similar env')
    (h : ((build e f).run env).run {} = .ok (q, b))
    (h' : ((build e f).run env').run {} = .ok (q', b')) :
    q = q' ∧ b.Alike (env.Corresponds env') b' := by
  have hbuild : Agrees env env' (build e f) (build e f) fun _ => True :=
    BodyDiscipline.build_holds (agreeing hs) e f ()
  obtain ⟨hq, -, hb, -⟩ := hbuild.of_run {} {} q q' b b' (List.forall_mem_nil _) ⟨.nil, rfl⟩ h h'
  exact ⟨hq, hb⟩

/-- Tidy functions are alike if the code that their frames are put around is. -/
lemma alike_of_function {code code' : List Instr} (hs : env.Similar env')
    (he : build e' f = build e f) (h : function env e f = .ok fn)
    (h' : function env' e' f = .ok fn') (hcode : fn.body = Function.frame code)
    (hcode' : fn'.body = Function.frame code') (htidy : IsTidy code) (htidy' : IsTidy code') :
    fn.Alike (env.Corresponds env') fn' := by
  obtain ⟨q, b, hrun, rfl⟩ := of_function_eq_ok h
  obtain ⟨q', b', hrun', rfl⟩ := of_function_eq_ok h'
  obtain ⟨rfl, hb⟩ := alike_of_build hs hrun (he ▸ hrun')
  refine ⟨rfl, rfl, by rw [hb.eq], ?_⟩
  rw [htidy.instrs_eq hcode, htidy'.instrs_eq hcode']
  obtain rfl : b.code = code := by simpa [Function.frame] using hcode
  obtain rfl : b'.code = code' := by simpa [Function.frame] using hcode'
  exact hb.code

/-- The same functions are lowered for all widths. -/
lemma forall₂_functions {env env' : FuncDecl → Env} {d : Declared} :
    ∀ {fs : List MemberFunction} {fns fns' : List Function},
      functions env e d fs = .ok fns → functions env' e d fs = .ok fns' →
      List.Forall₂ (fun fn fn' => ∃ f c, function (env c) e f = .ok fn ∧
        function (env' c) e f = .ok fn') fns fns'
  | [], fns, fns', h, h' => by
    obtain rfl := Except.ok.inj h
    obtain rfl := Except.ok.inj h'
    exact .nil
  | f :: fs, fns, fns', h, h' => by
    unfold functions at h h'
    split at h
    · rename_i hc
      simp only [hc] at h'
      exact forall₂_functions h h'
    · rename_i c hc
      simp only [hc] at h'
      obtain ⟨fn, hfn, h⟩ := of_bind_eq_ok h
      obtain ⟨fns, hrest, h⟩ := of_bind_eq_ok h
      obtain ⟨fn', hfn', h'⟩ := of_bind_eq_ok h'
      obtain ⟨fns', hrest', h'⟩ := of_bind_eq_ok h'
      obtain rfl := Except.ok.inj h
      obtain rfl := Except.ok.inj h'
      exact .cons ⟨f, c, hfn, hfn'⟩ (forall₂_functions hrest hrest')

end Functions

end Lane.Lowering

namespace Lane

open Code Lowering

/-- **Alike programs** have alike functions with the same declarations, for different widths. -/
structure LoweredProgram.Alike (p p' : LoweredProgram) : Prop where
  isOk_eq : p.isOk = p'.isOk
  layouts_eq : p.layouts = p'.layouts
  declared_eq : p.declared = p'.declared
  registry_eq : p.module.registry = p'.module.registry
  functions : List.Forall₂ (fun fn fn' => fn.decl = fn'.decl ∧ fn.Alike Eq fn') p.module.functions
    p'.module.functions

namespace Accepted

variable {file name : String} {text : List Rune} {e : Elaborated} {width width' : Int}
  {ds : Diagnostics} {p p' : LoweredProgram}

/-- **The code of an accepted program** is alike for all widths. -/
theorem lowered_alike (h : Accepted file text e) (hp : (e.lower name width ds).2 = .ok p)
    (hp' : (e.lower name width' ds).2 = .ok p') : p.Alike p' := by
  have htidy : ∀ {width p}, (e.lower name width ds).2 = .ok p → p.isOk → ∀ fn ∈ p.module.functions,
      ∃ code, fn.body = Function.frame code ∧ IsTidy code := by
    intro width p hp hok fn hfn
    obtain ⟨f, hf, hclean, hcode⟩ := h.exists_isCodeOf hp hok hfn
    exact hcode.exists_isTidy h.typed (h.lower_isOk hp hok).1 hf hclean
  cases hl : isLaidOut e ds with
  | false =>
    unfold Elaborated.lower at hp hp'
    rw [isLaidOut, Bool.not_eq_false'] at hl
    simp only [hl, if_true] at hp hp'
    obtain rfl := Except.ok.inj hp
    obtain rfl := Except.ok.inj hp'
    exact ⟨rfl, rfl, rfl, rfl, .nil⟩
  | true =>
    obtain ⟨w, m, heq⟩ := Elaborated.lower_of_isLaidOut h.declare_eq name width hl
    obtain ⟨w', m', heq'⟩ := Elaborated.lower_of_isLaidOut h.declare_eq name width' hl
    obtain ⟨fns, hfns, hq⟩ := of_bind_eq_ok (heq ▸ hp)
    obtain ⟨fns', hfns', hq'⟩ := of_bind_eq_ok (heq' ▸ hp')
    obtain rfl := Except.ok.inj hq
    obtain rfl := Except.ok.inj hq'
    refine ⟨rfl, rfl, rfl, rfl, ?_⟩
    have hall := forall₂_functions hfns hfns'
    refine List.forall₂_iff_get.2 ⟨hall.length_eq, fun i hi hi' => ?_⟩
    obtain ⟨f, c, hfn, hfn'⟩ := hall.get hi hi'
    obtain ⟨code, hcode, hc⟩ := htidy hp rfl _ (List.getElem_mem hi)
    obtain ⟨code', hcode', hc'⟩ := htidy hp' rfl _ (List.getElem_mem hi')
    have hdecl : ∀ {env : Env} {fn}, function env e f = .ok fn → fn.decl = env.current := by
      intro env fn h
      obtain ⟨_, _, -, rfl⟩ := of_function_eq_ok h
      rfl
    refine ⟨(hdecl hfn).trans (hdecl hfn').symm,
      (alike_of_function (.ofWidth _ _) rfl hfn hfn' hcode hcode' hc hc').mono ?_⟩
    rintro d d' (⟨k, hk, hk'⟩ | ⟨n, hn, hn'⟩)
    · exact Option.some.inj (hk.symm.trans hk')
    · exact Option.some.inj (hn.symm.trans hn')

end Accepted

end Lane
