import Lane.Proofs.Analysis.Program
import Lane.Proofs.Analysis.Steps

set_option relaxedAutoImplicit false
set_option autoImplicit false

/-!
# Analyses of programs are complete

The analysis of a program comes to its end, whatever errors the program has: no promise inside the
compiler is found broken, all that was entered is left again, and every function that was declared
and is not a function of the compiler gets the body that was written for it, elaborated in every
part. What is said about success is what the diagnostics say.

## Main definitions

* `Lane.Context.Idle`: contexts between declarations, in which nothing is open.
* `Lane.Context.Registers`: what is known while declarations are analysed, errors or not.
* `Lane.Analysis.Pending.Stands`: the syntax that a function comes from.
* `Lane.Analysis.Completes`: what the walk over a body gives.
* `Lane.Analysis.Reaches`: where the analysis of a program comes to the body of a function.

## Main results

* `Lane.Analysis.program_complete`: analyses of programs are complete.
-/

namespace Lane

namespace Context

/-- **Idle contexts**: nothing is open, no promise was found broken, and all that was found since
the start is among the diagnostics, with its errors counted. -/
structure Idle (ds : Diagnostics) (c : Context) : Prop where
  found : ∃ found, c.diagnostics = ds.append found ∧ c.errors = found.countP Diagnostic.isError
  fault_eq : c.fault = none
  scopes_eq : c.scopes = []
  cls_eq : c.cls = none
  function_eq : c.function = none
  loops_eq : c.loops = 0

/-- What is entered is left again. -/
lemma Idle.walks {ds : Diagnostics} {c d : Context} (hc : c.Idle ds) (h : c.Walks d) :
    d.Idle ds := by
  obtain ⟨found, hds, herr⟩ := hc.found
  obtain ⟨more, hds', herr'⟩ := h.reports
  refine ⟨⟨found ++ more, ?_, ?_⟩, h.fault_eq.trans hc.fault_eq, ?_, h.cls_eq.trans hc.cls_eq,
    h.function_eq.trans hc.function_eq, h.loops_eq.trans hc.loops_eq⟩
  · rw [hds', hds, Diagnostics.append_append]
  · rw [herr', herr, List.countP_append]
  · exact List.eq_nil_of_length_eq_zero (h.depth_eq.trans (congrArg List.length hc.scopes_eq))

/-- **Registered functions**: the classes are called `R`, and the functions that were written, and
not added by the compiler, are `F`. -/
structure Registers (ds : Diagnostics) (R : List ClassRef) (F : List MemberFunction) (c : Context) :
    Prop where
  idle : c.Idle ds
  numbered : c.program.Numbered
  refs_eq : c.program.classes.map Class.ref = R
  written_iff : ∀ f, f ∈ F ↔ c.program.Declares f ∧ f.isGenerated = false
  written_nodup : F.Nodup

/-- A walk over a body keeps what is declared. -/
lemma Registers.walks {ds : Diagnostics} {R : List ClassRef} {F : List MemberFunction}
    {c d : Context} (hc : c.Registers ds R F) (h : c.Walks d) : d.Registers ds R F :=
  ⟨hc.idle.walks h, h.program_eq ▸ hc.numbered, h.program_eq ▸ hc.refs_eq,
    h.program_eq ▸ hc.written_iff, hc.written_nodup⟩

/-- Another program with the same names and functions. -/
lemma Registers.of_program {ds : Diagnostics} {R R' : List ClassRef} {F G : List MemberFunction}
    {c : Context} {p : Program} (hc : c.Registers ds R F) (hp : p.Numbered)
    (hrefs : p.classes.map Class.ref = R')
    (hF : ∀ f, f ∈ G ↔ p.Declares f ∧ f.isGenerated = false) (hG : G.Nodup) :
    { c with program := p }.Registers ds R' G :=
  ⟨⟨hc.idle.found, hc.idle.fault_eq, hc.idle.scopes_eq, hc.idle.cls_eq, hc.idle.function_eq,
    hc.idle.loops_eq⟩, hp, hrefs, hF, hG⟩

end Context

namespace Analysis

/-- **The syntax that a function comes from**: its signature has the names that are written, and its
body is the one that is written. -/
structure Pending.Stands (q : Pending) (r : ClassRef) (d : FuncSyntax) : Prop where
  cls_eq : q.fn.cls = r
  kind_eq : q.fn.kind = d.kind
  name_eq : q.fn.name = d.name
  pos_eq : q.fn.pos = d.pos
  isSimd_eq : q.fn.isSimd = d.isSimd
  params_eq : q.fn.sig.params.map Param.name = d.params.map ParamSyntax.name
  results_eq : q.fn.sig.results.map Param.name = d.results.map ParamSyntax.name
  not_generated : q.fn.isGenerated = false
  body_eq : q.body = d.body

/-- What holds of the result and the context after an analysis that starts in the context `c`. -/
def Ends {α : Type} (c : Context) (m : Analysis α) (Q : α → Context → Prop) : Prop :=
  Q (m.run c).1 (m.run c).2

section Ends

variable {α β : Type} {c : Context} {Q Q' : α → Context → Prop} {S : β → Context → Prop}
  {m : Analysis α} {f : α → Analysis β}

/-- A result ends where it is. -/
lemma Ends.pure {a : α} (h : Q a c) : Ends c (pure a) Q := h

/-- Analyses one after the other. -/
lemma Ends.bind (hm : Ends c m Q) (hf : ∀ a d, Q a d → Ends d (f a) S) : Ends c (m >>= f) S :=
  hf _ _ hm

/-- Less may be said about the end. -/
lemma Ends.weaken (hm : Ends c m Q) (h : ∀ a d, Q a d → Q' a d) : Ends c m Q' := h _ _ hm

/-- The context is looked at. -/
lemma Ends.get_bind {f : Context → Analysis β} (hf : Ends c (f c) S) : Ends c (get >>= f) S := hf

/-- A change of the context ends in the changed one. -/
lemma Ends.modify {g : Context → Context} {Q : Unit → Context → Prop} (h : Q () (g c)) :
    Ends c (modify g) Q := h

/-- An analysis that does the same to every context. -/
lemma Steps.ends {G : Context → Context → Prop} {R : α → Prop} (hm : Steps Context.Alike G m R)
    (c : Context) : Ends c m fun a d => G c d ∧ R a :=
  hm.run c

/-- An invariant of an analysis for every entry of a list. -/
lemma Ends.forM {I : Context → Prop} {f : α → Analysis Unit} {l : List α}
    (hf : ∀ a ∈ l, ∀ c, I c → Ends c (f a) fun _ => I) (hc : I c) :
    Ends c (l.forM f) fun _ => I := by
  induction l generalizing c with
  | nil => exact hc
  | cons a l ih =>
    exact Ends.bind (hf a List.mem_cons_self c hc) fun _ d hd =>
      ih (fun b hb => hf b (List.mem_cons_of_mem a hb)) hd

end Ends

/-! ## Classes and variables -/

section Declarations

variable {ds : Diagnostics} {R : List ClassRef} {F : List MemberFunction} {c : Context}
  {A : Context → Context → Prop} [Context.Numbering A]

/-- A report leaves the declarations alone. -/
lemma report_bind_ends {α : Type} {f : Unit → Analysis α} {S : α → Context → Prop}
    (hc : c.Registers ds R F) (kind : DiagnosticKind) (pos : Position) (message : String)
    (hf : ∀ d : Context, d.Registers ds R F → Ends d (f ()) S) :
    Ends c (report kind pos message >>= f) S :=
  Ends.bind ((report_steps kind pos message).walks.ends c) fun _ _ hd => hf _ (hc.walks hd.1)

/-- A report keeps what is declared. -/
lemma report_registers (hc : c.Registers ds R F) (kind : DiagnosticKind) (pos : Position)
    (message : String) :
    Ends c (report kind pos message) fun _ => Context.Registers ds R F :=
  ((report_steps kind pos message).walks.ends c).weaken fun _ _ hd => hc.walks hd.1

/-- Classes are numbered by their names. -/
lemma declareClasses_ends : ∀ (cs : List ClassSyntax) (R : List ClassRef) (c : Context),
    c.Registers ds R [] → (∀ r ∈ R, r.id = nameNumber r.name) →
    Ends c (declareClasses cs) fun q d => d.Registers ds (R ++ q.map Prod.fst) [] ∧
      ∀ x ∈ q, x.2 ∈ cs ∧ x.1.name = x.2.name
  | [], R, c, hc, _ => Ends.pure ⟨by simpa using hc, by simp⟩
  | k :: cs, R, c, hc, hR => by
    refine Ends.get_bind ?_
    split
    · rename_i p hp
      obtain ⟨hnum, hrefs, hdecl⟩ := hc.numbered.addClass hp
        (ne_classRef_id hp fun e he => hR e.ref (hc.refs_eq ▸ List.mem_map_of_mem he))
      rw [hc.refs_eq] at hrefs
      have hadded := hc.of_program (G := []) hnum hrefs (fun f => by rw [hc.written_iff, hdecl])
        List.nodup_nil
      refine Ends.bind (Ends.modify (Q := fun _ => Context.Registers ds _ []) hadded)
        fun _ d hd => ?_
      refine Ends.bind (declareClasses_ends cs _ d hd
        (List.forall_mem_append.2 ⟨hR, List.forall_mem_singleton.2 rfl⟩)) fun q e hq => Ends.pure ?_
      refine ⟨by simpa using hq.1, List.forall_mem_cons.2 ⟨⟨List.mem_cons_self, rfl⟩,
        fun x hx => ?_⟩⟩
      exact (hq.2 x hx).imp_left (List.mem_cons_of_mem k)
    · refine report_bind_ends hc _ _ _ fun d hd => ?_
      exact (declareClasses_ends cs R d hd hR).weaken
        fun q e hq => ⟨hq.1, fun x hx => (hq.2 x hx).imp_left (List.mem_cons_of_mem k)⟩

/-- A member variable is added to a class, or reported. -/
lemma declareVar_ends {r : ClassRef} (hr : r ∈ R) (v : VarSyntax) (hc : c.Registers ds R F) :
    Ends c (declareVar r v) fun _ => Context.Registers ds R F := by
  have added : ∀ {c : Context} {t : Ty} {k : Class} {w : MemberVar}, c.Registers ds R F →
      (c.program.classOf r).addVar v.name v.pos t = .ok (k, w) →
      Ends c (modify fun ctx => { ctx with program := ctx.program.update k })
        fun _ => Context.Registers ds R F := by
    intro c t k w hc hadd
    obtain ⟨hk, -⟩ := hc.numbered.classOf_mem (hc.refs_eq ▸ hr)
    obtain ⟨hnum, hrefs, hdecl⟩ := hc.numbered.addVar hk hadd
    exact Ends.modify (hc.of_program hnum (hrefs.trans hc.refs_eq) (fun f => by
      rw [hc.written_iff, hdecl]) hc.written_nodup)
  refine Ends.bind ((resolveType_steps v.type).walks.ends c) fun t d hd => ?_
  have hd := hc.walks hd.1
  split
  · split
    · refine report_bind_ends hd _ _ _ fun e he => Ends.get_bind ?_
      split
      · exact added he ‹_›
      · exact report_registers he _ _ _
    · refine Ends.get_bind ?_
      split
      · exact added hd ‹_›
      · exact report_registers hd _ _ _
  · refine Ends.get_bind ?_
    split
    · exact added hd ‹_›
    · exact report_registers hd _ _ _

/-- Declaring the variables of a class keeps which classes and functions there are. -/
lemma declareVars_ends {r : ClassRef} (hr : r ∈ R) (k : ClassSyntax) (hc : c.Registers ds R F) :
    Ends c (declareVars r k) fun _ => Context.Registers ds R F := by
  refine Ends.forM (I := Context.Registers ds R F) (fun m _ c hc => ?_) hc
  split
  · exact declareVar_ends hr _ hc
  · exact hc

/-! ## Foreign functions -/

/-- A parameter of a foreign function is looked at without changes to the program. -/
lemma foreignParam_steps (name : String) (isOut : Bool) (a : ParamSyntax) :
    Steps A Context.Walks (foreignParam name isOut a) fun _ => True := by
  refine Steps.bind (resolveType_steps a.type).walks fun t _ => ?_
  have rest : Steps A Context.Walks (do
      return (⟨a.name, a.pos, t.withModifier .var, isOut, ← freshLocal⟩ : Param)) fun _ => True :=
    Steps.bind freshLocal_steps fun _ _ => Steps.pure trivial
  dsimp only
  split
  · exact Steps.bind (report_steps _ _ _).walks fun _ _ => rest
  · exact rest

/-- All parameters of a foreign function are looked at without changes to the program. -/
lemma foreignParams_steps (name : String) (isOut : Bool) : ∀ as : List ParamSyntax,
    Steps A Context.Walks (as.mapM (foreignParam name isOut)) fun _ => True
  | [] => Steps.pure trivial
  | a :: as => by
    rw [List.mapM_cons]
    exact Steps.bind (foreignParam_steps name isOut a) fun _ _ =>
      Steps.bind (foreignParams_steps name isOut as) fun _ _ => Steps.pure trivial

/-- A foreign function is added, or reported. -/
lemma declareForeign_ends (g : ForeignSyntax) (hc : c.Registers ds R F) :
    Ends c (declareForeign g) fun _ => Context.Registers ds R F := by
  refine Ends.bind (firstLocal_steps.ends c) fun _ c0 h0 => ?_
  refine Ends.bind ((foreignParams_steps g.name false g.params).ends c0) fun ins c1 h1 => ?_
  refine Ends.bind ((foreignParams_steps g.name true g.results).ends c1) fun outs c2 h2 => ?_
  have hc2 := ((hc.walks h0.1).walks h1.1).walks h2.1
  have added : ∀ {c : Context} {p : Program}, c.Registers ds R F →
      c.program.addForeign ⟨g.name, g.pos, ⟨ins, outs⟩⟩ = .ok p →
      Ends c (modify fun ctx => { ctx with program := p }) fun _ => Context.Registers ds R F := by
    intro c p hc hp
    obtain ⟨hclasses, -⟩ := Program.of_addForeign_eq_ok hp
    refine Ends.modify (hc.of_program ⟨hclasses ▸ hc.numbered.ids_nodup,
      hclasses ▸ hc.numbered.funcs_at⟩ (hclasses ▸ hc.refs_eq) (fun f => ?_) hc.written_nodup)
    rw [hc.written_iff, Program.Declares, Program.Declares, hclasses]
  dsimp only
  split
  · refine report_bind_ends hc2 _ _ _ fun d hd => Ends.get_bind ?_
    split
    · exact added hd ‹_›
    · exact report_registers hd _ _ _
  · refine Ends.get_bind ?_
    split
    · exact added hc2 ‹_›
    · exact report_registers hc2 _ _ _

/-! ## Functions -/

/-- A parameter keeps its name. -/
lemma param_steps (s : Scope) (a : ParamSyntax) (isOut : Bool) :
    Steps A Context.Walks (param s a isOut) fun q => q.2.name = a.name := by
  refine Steps.bind (resolveType_steps a.type).walks fun t _ => ?_
  refine Steps.bind freshLocal_steps fun id _ => ?_
  dsimp only
  split
  · exact Steps.pure rfl
  · exact Steps.bind (report_steps _ _ _).walks fun _ _ => Steps.pure rfl

/-- Parameters keep their names. -/
lemma params_steps (isOut : Bool) : ∀ (as : List ParamSyntax) (s : Scope),
    Steps A Context.Walks (params s isOut as) fun q =>
      q.2.map Param.name = as.map ParamSyntax.name
  | [], _ => Steps.pure rfl
  | a :: as, s =>
    Steps.bind (param_steps s a isOut) fun (s', _) ha =>
    Steps.bind (params_steps isOut as s') fun _ has => Steps.pure (congrArg₂ List.cons ha has)

/-- A signature keeps the names of parameters and results. -/
lemma signature_steps (ins outs : List ParamSyntax) :
    Steps A Context.Walks (signature ins outs) fun q =>
      q.2.params.map Param.name = ins.map ParamSyntax.name ∧
        q.2.results.map Param.name = outs.map ParamSyntax.name :=
  Steps.bind (params_steps false ins _) fun (s, _) hins =>
  Steps.bind (params_steps true outs s) fun _ houts => Steps.pure ⟨hins, houts⟩

/-- The shape of a function is checked with reports only. -/
lemma checkShape_steps (f : MemberFunction) :
    Steps A Context.Reports (checkShape f) fun _ => True := by
  unfold checkShape
  split
  · split
    · exact report_steps _ _ _
    · exact Steps.pure trivial
  · split
    · exact report_steps _ _ _
    · exact Steps.pure trivial
  · split
    · exact report_steps _ _ _
    · split
      · exact report_steps _ _ _
      · split
        · exact report_steps _ _ _
        · exact Steps.pure trivial
  · exact Steps.pure trivial

/-- A function is added to its class, or the class has one like it, which is reported. -/
lemma declareFunc_ends {r : ClassRef} (hr : r ∈ R) (d : FuncSyntax) (hc : c.Registers ds R F) :
    Ends c (declareFunc r d) fun q e =>
      e.Registers ds R (F ++ (q.map Pending.fn).toList) ∧ ∀ x, q = some x → x.Stands r d := by
  refine Ends.bind (firstLocal_steps.ends c) fun selfId c1 h1 => ?_
  refine Ends.bind ((signature_steps d.params d.results).ends c1) fun (scope, sig) c2 h2 => ?_
  refine Ends.bind ((checkShape_steps _).walks.ends c2) fun _ c3 h3 => ?_
  have hc3 := ((hc.walks h1.1).walks h2.1).walks h3.1
  have added : ∀ {c : Context} {k : Class} {f : MemberFunction}, c.Registers ds R F →
      (c.program.classOf r).addFunc
        ⟨r, 0, d.kind, d.name, d.pos, d.isSimd, sig, selfId, false, false⟩ = .ok (k, f) →
      Ends c (do
        modify fun ctx => { ctx with program := ctx.program.update k }
        return some (⟨f, scope, d.body⟩ : Pending)) fun q e =>
          e.Registers ds R (F ++ (q.map Pending.fn).toList) ∧ ∀ x, q = some x → x.Stands r d := by
    intro c k f hc hadd
    obtain ⟨hk, hkr⟩ := hc.numbered.classOf_mem (hc.refs_eq ▸ hr)
    obtain ⟨hnum, hrefs, hdecl⟩ := hc.numbered.addFunc hk hadd
    obtain ⟨hf, -⟩ := Class.of_addFunc_eq_ok hadd
    have hf0 : f.isGenerated = false := by rw [hf]
    have hnew : f ∉ F := fun hmem => hc.numbered.not_declares_addFunc hk hadd
      ((hc.written_iff f).1 hmem).1
    have hc' := hc.of_program (G := F ++ [f]) hnum (hrefs.trans hc.refs_eq) (fun x => by
      rw [List.mem_append, List.mem_singleton, hc.written_iff, hdecl, or_and_right]
      exact or_congr_right ⟨fun h => ⟨h, h ▸ hf0⟩, And.left⟩)
      (List.nodup_append_comm.1 (List.nodup_cons.2 ⟨hnew, hc.written_nodup⟩))
    refine Ends.bind (Ends.modify hc') fun _ e he => Ends.pure ⟨he, fun x hx => ?_⟩
    obtain rfl := Option.some.inj hx
    subst hf
    exact ⟨hkr, rfl, rfl, rfl, rfl, h2.2.1, h2.2.2, rfl, rfl⟩
  have left_out : ∀ e : Context, e.Registers ds R F →
      Ends e (pure (none : Option Pending)) fun q e =>
        e.Registers ds R (F ++ (q.map Pending.fn).toList) ∧ ∀ x, q = some x → x.Stands r d :=
    fun e he => Ends.pure ⟨by simpa using he, by simp⟩
  dsimp only
  split
  · refine report_bind_ends hc3 _ _ _ fun e he => Ends.get_bind ?_
    split
    · exact added he ‹_›
    · exact report_bind_ends he _ _ _ left_out
  · refine Ends.get_bind ?_
    split
    · exact added hc3 ‹_›
    · exact report_bind_ends hc3 _ _ _ left_out

/-- Every function that is declared stands for one that was written in the class. -/
lemma declareFuncs_ends {r : ClassRef} (hr : r ∈ R) : ∀ (ms : List MemberSyntax)
    (F : List MemberFunction) (c : Context), c.Registers ds R F →
    Ends c (declareFuncs r ms) fun qs e =>
      e.Registers ds R (F ++ qs.map Pending.fn) ∧
        ∀ q ∈ qs, ∃ d, MemberSyntax.func d ∈ ms ∧ q.Stands r d
  | [], F, c, hc => Ends.pure ⟨by simpa using hc, by simp⟩
  | .var _ :: ms, F, c, hc => (declareFuncs_ends hr ms F c hc).weaken fun qs e h =>
      ⟨h.1, fun q hq => (h.2 q hq).imp fun d => And.imp_left (List.mem_cons_of_mem _)⟩
  | .func d :: ms, F, c, hc => by
    refine Ends.bind (declareFunc_ends hr d hc) fun x e hx => ?_
    refine Ends.bind (declareFuncs_ends hr ms _ e hx.1) fun qs e' hqs => Ends.pure ⟨?_, ?_⟩
    · cases x <;> simpa using hqs.1
    · intro q hq
      obtain hq | hq := List.mem_append.1 hq
      · exact ⟨d, List.mem_cons_self, hx.2 q (Option.mem_toList.1 hq)⟩
      · exact (hqs.2 q hq).imp fun d => And.imp_left (List.mem_cons_of_mem _)

/-- Every function that is declared stands for one that was written in its class. -/
lemma declareAllFuncs_ends : ∀ (cs : List (ClassRef × ClassSyntax)) (F : List MemberFunction)
    (c : Context), (∀ x ∈ cs, x.1 ∈ R) → c.Registers ds R F →
    Ends c (declareAllFuncs cs) fun qs e =>
      e.Registers ds R (F ++ qs.map Pending.fn) ∧
        ∀ q ∈ qs, ∃ x ∈ cs, ∃ d, MemberSyntax.func d ∈ x.2.members ∧ q.Stands x.1 d
  | [], F, c, _, hc => Ends.pure ⟨by simpa using hc, by simp⟩
  | (r, k) :: cs, F, c, hR, hc => by
    refine Ends.bind (declareFuncs_ends (hR _ List.mem_cons_self) k.members F c hc)
      fun qs e hqs => ?_
    refine Ends.bind (declareAllFuncs_ends cs _ e (fun x hx => hR x (List.mem_cons_of_mem _ hx))
      hqs.1) fun qs' e' hqs' => Ends.pure ⟨by simpa using hqs'.1, fun q hq => ?_⟩
    obtain hq | hq := List.mem_append.1 hq
    · exact ⟨(r, k), List.mem_cons_self, hqs.2 q hq⟩
    · exact (hqs'.2 q hq).imp fun x => And.imp_left (List.mem_cons_of_mem _)

/-- A function of the compiler is added to a class, or the class has one like it. -/
lemma generate_ends {r : ClassRef} (hr : r ∈ R) (pos : Position) (kind : FuncKind) (isCopy : Bool)
    (hc : c.Registers ds R F) :
    Ends c (generate r pos kind isCopy) fun _ => Context.Registers ds R F := by
  refine Ends.bind (firstLocal_steps.ends c) fun selfId c1 h1 => ?_
  refine Ends.bind ((signature_steps _ []).ends c1) fun (scope, sig) c2 h2 => ?_
  have hc2 := (hc.walks h1.1).walks h2.1
  refine Ends.get_bind ?_
  split
  · rename_i k f hadd
    obtain ⟨hk, -⟩ := hc2.numbered.classOf_mem (hc2.refs_eq ▸ hr)
    obtain ⟨hnum, hrefs, hdecl⟩ := hc2.numbered.addFunc hk hadd
    have hf0 : f.isGenerated = true := by rw [(Class.of_addFunc_eq_ok hadd).1]
    refine Ends.modify (hc2.of_program hnum (hrefs.trans hc2.refs_eq) (fun x => ?_)
      hc2.written_nodup)
    rw [hc2.written_iff, hdecl, or_and_right]
    refine ⟨.inl, fun h => h.resolve_right fun hx => ?_⟩
    simp [hx.1, hf0] at hx
  · exact Ends.pure hc2

/-- The members that every class has are added. -/
lemma declareGenerated_ends {r : ClassRef} (hr : r ∈ R) (pos : Position)
    (hc : c.Registers ds R F) :
    Ends c (declareGenerated r pos) fun _ => Context.Registers ds R F := by
  have added : ∀ c : Context, c.Registers ds R F → Ends c (do
      generate r pos .create true
      generate r pos .assign true) fun _ => Context.Registers ds R F := fun c hc =>
    Ends.bind (generate_ends hr pos .create true hc) fun _ _ hd =>
      generate_ends hr pos .assign true hd
  refine Ends.get_bind ?_
  split
  · exact Ends.bind (generate_ends hr pos .create false hc) fun _ d hd => added d hd
  · exact added c hc

/-- **Declarations**: every function that was written and declared is to be analysed, with the body
that is written for it. -/
lemma declarations_ends (tree : ProgramSyntax) (ds : Diagnostics) :
    Ends { diagnostics := ds } (declarations tree) fun qs c =>
      c.Registers ds (c.program.classes.map Class.ref) (qs.map Pending.fn) ∧
        ∀ q ∈ qs, ∃ k ∈ tree.classes, ∃ r d, r.name = k.name ∧
          MemberSyntax.func d ∈ k.members ∧ q.Stands r d := by
  have start : Context.Registers ds [] [] ({ diagnostics := ds } : Context) :=
    ⟨⟨⟨[], ds.append_nil.symm, rfl⟩, rfl, rfl, rfl, rfl, rfl⟩, ⟨by simp, by simp⟩, rfl,
      by simp [Program.Declares], List.nodup_nil⟩
  refine Ends.bind (declareClasses_ends tree.classes [] _ start (by simp)) fun cs c hcs => ?_
  have hmem : ∀ x ∈ cs, x.1 ∈ [] ++ cs.map Prod.fst := fun x hx => List.mem_map_of_mem hx
  refine Ends.bind (Ends.forM (fun x hx c hc => declareVars_ends (hmem x hx) x.2 hc) hcs.1)
    fun _ c hc => ?_
  refine Ends.bind (Ends.forM (fun g _ c hc => declareForeign_ends g hc) hc) fun _ c hc => ?_
  refine Ends.bind (declareAllFuncs_ends cs [] c hmem hc) fun qs c hqs => ?_
  refine Ends.bind (Ends.forM (fun x hx c hc => declareGenerated_ends (hmem x hx) x.2.pos hc) hqs.1)
    fun _ c hc => Ends.pure ⟨hc.refs_eq ▸ hc, fun q hq => ?_⟩
  obtain ⟨x, hx, d, hd, hstands⟩ := hqs.2 q hq
  exact ⟨x.2, (hcs.2 x hx).1, x.1, d, (hcs.2 x hx).2, hd, hstands⟩

end Declarations

/-! ## Bodies -/

/-- The context in which the body of a function is walked, if the analysis comes to it in `c`. -/
def Pending.inside (q : Pending) (c : Context) : Context :=
  ({ (c.enterClass q.fn.cls).1 with nextLocal := q.fn.localCount }.enterFunction q.fn.name
    (selfLocal q.fn) q.scope.locals).1

/-- **Complete bodies**: the body of `q` was walked from the context `c`. Every part of the body
that is written was visited, and it is clean if no error was found on the walk. -/
structure Completes (b : FuncBody) (q : Pending) (c : Context) : Prop where
  fn_eq : b.fn = q.fn
  body_eq : b.body = ((statements q.body).run (q.inside c)).1
  erase_eq : TStmt.eraseAll b.body = q.body
  clean_iff : ∃ found, ((statements q.body).run (q.inside c)).2.diagnostics =
    c.diagnostics.append found ∧ (b.isClean ↔ ∀ x ∈ found, x.isError = false)

/-- The walk over the body of a function, after which the function and its class are left again. -/
lemma functionBody_run (q : Pending) (c : Context) : (functionBody q).run c =
    (⟨q.fn, ((statements q.body).run (q.inside c)).2.scopes.head?.getD {},
      ((statements q.body).run (q.inside c)).1,
      ((statements q.body).run (q.inside c)).2.errors == c.errors⟩,
    { ((statements q.body).run (q.inside c)).2 with
      scopes := ((statements q.body).run (q.inside c)).2.scopes.tail
      cls := c.cls
      function := c.function
      loops := c.loops }) := by
  obtain ⟨h, -⟩ := (statements_steps q.body).run (q.inside c)
  set w := (statements q.body).run (q.inside c) with hw
  have hleft : (w.2.left (.function (c.depth + 1) c.function c.loops)).left (.cls c.cls) =
      { w.2 with
        scopes := w.2.scopes.tail
        cls := c.cls
        function := c.function
        loops := c.loops } := by
    have hdepth : w.2.depth = c.depth + 1 := h.depth_eq
    rw [Context.left_function hdepth]
    rfl
  show (_, (w.2.left (.function (c.depth + 1) c.function c.loops)).left (.cls c.cls)) = _
  rw [hleft]
  rfl

/-- The body of a function is walked, and the function and its class are left again. -/
lemma functionBody_ends (q : Pending) (c : Context) :
    Ends c (functionBody q) fun b d => c.Walks d ∧ Completes b q c := by
  obtain ⟨h, herase⟩ := (statements_steps q.body).run (q.inside c)
  obtain ⟨found, hds, herr⟩ := h.reports
  unfold Ends
  rw [functionBody_run]
  set w := (statements q.body).run (q.inside c) with hw
  have htail : w.2.scopes.tail = c.scopes := h.below_eq
  refine ⟨⟨⟨found, hds, herr⟩, h.fault_eq, h.program_eq, congrArg List.length htail,
    congrArg List.tail htail, rfl, rfl, rfl⟩, rfl, rfl, herase, found, hds, ?_⟩
  have herr : w.2.errors = c.errors + found.countP Diagnostic.isError := herr
  simp [herr, List.countP_eq_zero]

/-- What is made for the entries of a list one after the other: each in the state that the entries
before it leave. -/
lemma exists_of_mem_mapM {α β : Type} {f : α → Analysis β} {b : β} : ∀ {l : List α} {c : Context},
    b ∈ ((l.mapM f).run c).1 → ∃ before a after, l = before ++ a :: after ∧
      b = ((f a).run ((before.mapM f).run c).2).1
  | [], c, hb => absurd hb List.not_mem_nil
  | a :: l, c, hb => by
    rw [List.mapM_cons] at hb
    obtain rfl | hb := List.mem_cons.1 hb
    · exact ⟨[], a, l, rfl, rfl⟩
    · obtain ⟨before, a', after, rfl, rfl⟩ := exists_of_mem_mapM hb
      exact ⟨a :: before, a', after, rfl, by rw [List.mapM_cons]; rfl⟩

/-- Bodies one after the other. -/
lemma bodies_ends : ∀ (qs : List Pending) (c : Context),
    Ends c (qs.mapM functionBody) fun bs d =>
      c.Walks d ∧ bs.map FuncBody.fn = qs.map Pending.fn
  | [], c => Ends.pure ⟨refl c, rfl⟩
  | q :: qs, c => by
    rw [List.mapM_cons]
    refine Ends.bind (functionBody_ends q c) fun b d hb => ?_
    exact Ends.bind (bodies_ends qs d) fun bs e hbs =>
      Ends.pure ⟨Trans.trans hb.1 hbs.1, congrArg₂ List.cons hb.2.fn_eq hbs.2⟩

/-! ## Programs -/

/-- **Bodies in programs**: the analysis of `tree` comes to the body of `q` in the context `c`,
after all declarations and the bodies before it. -/
def Reaches (tree : ProgramSyntax) (ds : Diagnostics) (q : Pending) (c : Context) : Prop :=
  ∃ c₀ before after, (declarations tree).run { diagnostics := ds } = (before ++ q :: after, c₀) ∧
    ((before.mapM functionBody).run c₀).2 = c

/-- No scope is left open. -/
lemma checkBalance_ends {c : Context} (hc : c.scopes = []) :
    Ends c checkBalance fun _ d => d = c := by
  refine Ends.get_bind ?_
  simp [Context.depth, hc, Ends.pure]

/-- The body that is found for a function is the one of its own. -/
lemma body?_of_map_eq {e : Elaborated} {F : List MemberFunction} (he : e.program.Numbered)
    (hF : e.bodies.map FuncBody.fn = F) (hdecl : ∀ f ∈ F, e.program.Declares f)
    {f : MemberFunction} (hf : f ∈ F) : ∃ b ∈ e.bodies, b.fn = f ∧ e.body? f = some b := by
  obtain ⟨b₀, hb₀, hf₀⟩ := List.mem_map.1 (hF ▸ hf)
  cases hbody : e.body? f with
  | none =>
    have := List.find?_eq_none.1 hbody b₀ hb₀
    simp [hf₀] at this
  | some b =>
    have hb : b ∈ e.bodies := List.mem_of_find?_eq_some hbody
    obtain ⟨hcls, hidx⟩ : b.fn.cls.id = f.cls.id ∧ b.fn.index = f.index := by
      simpa using List.find?_some hbody
    exact ⟨b, hb, he.eq_of_index_eq (hdecl _ (hF ▸ List.mem_map_of_mem hb)) (hdecl f hf) hcls hidx,
      rfl⟩

/-- **The course of an analysis**: declarations, then the bodies of what was declared, in order. -/
structure Runs (tree : ProgramSyntax) (ds : Diagnostics) (e : Elaborated) (d : Context)
    (qs : List Pending) (c : Context) : Prop where
  declares : (declarations tree).run { diagnostics := ds } = (qs, c)
  registers : c.Registers ds (c.program.classes.map Class.ref) (qs.map Pending.fn)
  stands : ∀ q ∈ qs, ∃ k ∈ tree.classes, ∃ (r : ClassRef) (g : FuncSyntax), r.name = k.name ∧
    MemberSyntax.func g ∈ k.members ∧ q.Stands r g
  walked : (qs.mapM functionBody).run c = (e.bodies, d)
  walks : c.Walks d
  fn_eq : e.bodies.map FuncBody.fn = qs.map Pending.fn
  elaborated_eq : e = ⟨d.program, e.bodies, d.isOk⟩

/-- Every analysis takes this course. -/
lemma program_runs (tree : ProgramSyntax) (ds : Diagnostics) :
    Ends { diagnostics := ds } (program tree) fun e d => ∃ qs c, Runs tree ds e d qs c := by
  rw [program_eq]
  refine Ends.bind (Q := fun qs c => (declarations tree).run { diagnostics := ds } = (qs, c) ∧
    c.Registers ds (c.program.classes.map Class.ref) (qs.map Pending.fn) ∧
      ∀ q ∈ qs, ∃ k ∈ tree.classes, ∃ (r : ClassRef) (g : FuncSyntax), r.name = k.name ∧
        MemberSyntax.func g ∈ k.members ∧ q.Stands r g) ⟨rfl, declarations_ends tree ds⟩
    fun qs c ⟨hrun, hc, hqs⟩ => ?_
  refine Ends.bind (Q := fun bs d => (qs.mapM functionBody).run c = (bs, d) ∧ c.Walks d ∧
    bs.map FuncBody.fn = qs.map Pending.fn) ⟨rfl, bodies_ends qs c⟩ fun bs d ⟨hbs, hd, hfn⟩ => ?_
  have hidle := hc.idle.walks hd
  refine Ends.bind (checkBalance_ends hidle.scopes_eq) fun _ d' hd' => Ends.get_bind (Ends.pure ?_)
  subst hd'
  exact ⟨qs, c, hrun, hc, hqs, hbs, hd, hfn, rfl⟩

/-- **Analyses come to their end** with no promise broken and nothing left open, and fail if and
only if an error was found. -/
lemma program_ends (tree : ProgramSyntax) (ds : Diagnostics) :
    Ends { diagnostics := ds } (program tree) fun e c =>
      c.fault = none ∧ (c.scopes = [] ∧ c.cls = none ∧ c.function = none ∧ c.loops = 0) ∧
      ∃ found, c.diagnostics = ds.append found ∧ (e.isOk = false ↔ ∃ x ∈ found, x.isError) := by
  refine Ends.weaken (program_runs tree ds) fun e d ⟨qs, c, h⟩ => ?_
  have hidle := h.registers.idle.walks h.walks
  obtain ⟨found, hds, herr⟩ := hidle.found
  refine ⟨hidle.fault_eq, ⟨hidle.scopes_eq, hidle.cls_eq, hidle.function_eq, hidle.loops_eq⟩,
    found, hds, ?_⟩
  rw [h.elaborated_eq]
  simp [Context.isOk, herr, List.countP_eq_zero]

/-- **Every declared function that was written has a body**: the one that is written for it,
elaborated in every part, and clean if and only if no error was found on the walk over it. -/
lemma program_bodies (tree : ProgramSyntax) (ds : Diagnostics) :
    Ends { diagnostics := ds } (program tree) fun e _ =>
      ∀ f, e.program.Declares f → f.isGenerated = false →
        ∃ q d b, Reaches tree ds q d ∧ q.fn = f ∧
          (∃ k ∈ tree.classes, ∃ r g, r.name = k.name ∧ MemberSyntax.func g ∈ k.members ∧
            q.Stands r g) ∧
          e.body? f = some b ∧ e.isClean f = b.isClean ∧ Completes b q d := by
  refine Ends.weaken (program_runs tree ds) fun e d ⟨qs, c, h⟩ f hf hgen => ?_
  have hprog : e.program = c.program :=
    (congrArg Elaborated.program h.elaborated_eq).trans h.walks.program_eq
  obtain ⟨b, hb, hbf, hbody⟩ := body?_of_map_eq (hprog ▸ h.registers.numbered) h.fn_eq
    (fun g hg => hprog ▸ ((h.registers.written_iff g).1 hg).1)
    ((h.registers.written_iff f).2 ⟨hprog ▸ hf, hgen⟩)
  have hb' : b ∈ ((qs.mapM functionBody).run c).1 := by rw [h.walked]; exact hb
  obtain ⟨before, q, after, rfl, rfl⟩ := exists_of_mem_mapM hb'
  have hcomp := (functionBody_ends q ((before.mapM functionBody).run c).2).2
  refine ⟨q, _, _, ⟨c, before, after, h.declares, rfl⟩, hcomp.fn_eq.symm.trans hbf,
    h.stands q (by simp), hbody, ?_, hcomp⟩
  rw [Elaborated.isClean, hgen, hbody]
  rfl

/-- **Analyses are complete.** Whatever errors a program has, its analysis comes to its end with no
promise broken and nothing left open, and it fails if and only if an error was found. Every declared
function that the compiler did not add has a body: the one that is written for it, elaborated in
every part, and clean if and only if no error was found on the walk over it.

**Proof sketch.** Nothing that is done to a context on the way is lost or left open
(`statements_steps`, `declarations_ends`), so the bodies are those of the declared functions, each
walked in the context that the ones before it leave. -/
theorem program_complete (tree : ProgramSyntax) (ds : Diagnostics) :
    Ends { diagnostics := ds } (program tree) fun e c =>
      c.fault = none ∧
      (c.scopes = [] ∧ c.cls = none ∧ c.function = none ∧ c.loops = 0) ∧
      (∃ found, c.diagnostics = ds.append found ∧
        (e.isOk = false ↔ ∃ x ∈ found, x.isError)) ∧
      ∀ f, e.program.Declares f → f.isGenerated = false →
        ∃ q d b, Reaches tree ds q d ∧ q.fn = f ∧
          (∃ k ∈ tree.classes, ∃ r g, r.name = k.name ∧ MemberSyntax.func g ∈ k.members ∧
            q.Stands r g) ∧
          e.body? f = some b ∧ e.isClean f = b.isClean ∧ Completes b q d := by
  obtain ⟨hfault, hleft, hfound⟩ := program_ends tree ds
  exact ⟨hfault, hleft, hfound, program_bodies tree ds⟩

end Analysis

end Lane
