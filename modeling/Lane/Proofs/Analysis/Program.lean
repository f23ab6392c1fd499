import Lane.Analysis.Program
import Lane.Proofs.Analysis.Stmt
import Lane.Proofs.Typing.Declare

set_option relaxedAutoImplicit false
set_option autoImplicit false

/-!
# Elaborated programs are typed

An analysis of a whole program that reports nothing gives a well-formed program, and a typed body
for every function in which it found one.

## Main definitions

* `Lane.MemberFunction.rootLocals`: the locals that the body of a function starts with.
* `Lane.Context.Forms`: what is known about a context while declarations are analysed.
* `Lane.Elaborated.Typed`: typed programs.

## Main results

* `Lane.Elaborated.typed_of_isOk`: what an analysis accepts is typed.
-/

namespace Lane

open Analysis (selfLocal)

/-- The local of a parameter or result. -/
def Param.toLocal (a : Param) : Local := ⟨a.localId, a.name, a.pos, a.type, .param a.isHidden⟩

/-- The locals that the body of a function starts with: parameters, results and the instance. -/
def MemberFunction.rootLocals (f : MemberFunction) : List Local :=
  (f.sig.params ++ f.sig.results).map Param.toLocal ++ (selfLocal f).toList

/-- The locals that a body starts with have valid types. -/
lemma Program.Declares.rootLocals_valid {p : Program} {f : MemberFunction} (hf : p.Declares f)
    (hp : p.WellFormed) : ∀ l ∈ f.rootLocals, p.Valid l.type := by
  have hfunc := hf.validFunc hp
  intro l hl
  obtain hl | hl := List.mem_append.1 hl
  · obtain ⟨a, ha, rfl⟩ := List.mem_map.1 hl
    obtain ha | ha := List.mem_append.1 ha
    · exact (hfunc.params_valid a ha).1
    · exact (hfunc.results_valid a ha).1
  · unfold selfLocal at hl
    split at hl
    · obtain ⟨d, hd, hm⟩ := hf
      simp only [Option.toList_some, List.mem_singleton] at hl
      subst hl
      exact ⟨d, hd, (((hp.classes_valid d hd).funcs_own f hm).1).symm⟩
    · simp at hl

/-- **Typed bodies** of functions that were written: no error was found, and the statements are
typed. -/
structure FuncBody.Typed (p : Program) (b : FuncBody) : Prop where
  is_clean : b.isClean
  not_generated : b.fn.isGenerated = false
  typed : TStmt.TypedAll p b.fn.rootLocals false b.body

/-- **Typed elaborations**: the program is well formed, and the bodies of functions are typed. -/
structure Elaborated.Typed (e : Elaborated) : Prop where
  program_wf : e.program.WellFormed
  bodies_declared : ∀ b ∈ e.bodies, e.program.Declares b.fn
  bodies_typed : ∀ b ∈ e.bodies, b.Typed e.program

namespace Context

/-- **Contexts of declarations**: the program so far is well formed and declares the functions `F`,
its classes are called `R`, and its foreign functions have names among `N`. -/
structure Forms (N : List String) (R : List ClassRef) (F : List MemberFunction) (c : Context) :
    Prop where
  program_wf : c.program.WellFormed
  ids_below : ∀ f, c.program.Declares f → ∀ i ∈ f.localIds, i < f.localCount
  scopes_nil : c.scopes = []
  foreigns_named : ∀ f ∈ c.program.foreigns, f.name ∈ N
  refs_eq : c.program.classes.map Class.ref = R
  declares : ∀ f ∈ F, c.program.Declares f

section Forms

variable {N : List String} {R : List ClassRef} {F : List MemberFunction} {c : Context}

/-- The numbers of locals do not matter. -/
lemma Forms.renumber (hc : c.Forms N R F) (n : Nat) : { c with nextLocal := n }.Forms N R F :=
  ⟨hc.program_wf, hc.ids_below, hc.scopes_nil, hc.foreigns_named, hc.refs_eq, hc.declares⟩

/-- The class of a name in types is declared. -/
lemma Forms.classOf_mem (hc : c.Forms N R F) {r : ClassRef} (hr : r ∈ R) :
    c.program.classOf r ∈ c.program.classes ∧ (c.program.classOf r).ref = r := by
  obtain ⟨d, hd, rfl⟩ := List.mem_map.1 (hc.refs_eq ▸ hr)
  rw [hc.program_wf.classOf_eq hd]
  exact ⟨hd, rfl⟩

/-- A class may be changed, as long as it keeps its functions and the numbers of new ones are
counted. -/
lemma Forms.update (hc : c.Forms N R F) {k d : Class} (hk : k ∈ c.program.classes)
    (hd : d.ref = k.ref) (hv : c.program.ValidClass d) (hsub : k.funcs ⊆ d.funcs)
    (hids : ∀ f ∈ d.funcs, f ∈ k.funcs ∨ ∀ i ∈ f.localIds, i < f.localCount) :
    { c with program := c.program.update d }.Forms N R F where
  program_wf := hc.program_wf.update hk hd hv
  ids_below f hf := by
    obtain ⟨e, he, hm⟩ := hf
    obtain rfl | ⟨he, -⟩ := (hc.program_wf.mem_update hk hd).1 he
    · obtain hm | hi := hids f hm
      · exact hc.ids_below f ⟨k, hk, hm⟩
      · exact hi
    · exact hc.ids_below f ⟨e, he, hm⟩
  scopes_nil := hc.scopes_nil
  foreigns_named := hc.foreigns_named
  refs_eq := (hc.program_wf.refs_update hk hd).trans hc.refs_eq
  declares f hf := hc.program_wf.declares_update hk hd hsub (hc.declares f hf)

/-- A function that is added to its class is declared, and takes a place of its own. -/
lemma Forms.addFunc (hc : c.Forms N R F) {f g : MemberFunction} (hr : f.cls ∈ R) {k : Class}
    (hadd : (c.program.classOf f.cls).addFunc f = .ok (k, g)) (hf : c.program.ValidFunc f)
    (hids : ∀ i ∈ f.localIds, i < f.localCount) :
    { c with program := c.program.update k }.Forms N R (F ++ [g]) := by
  obtain ⟨hk, hcls⟩ := hc.classOf_mem hr
  obtain ⟨hg, hkeq⟩ := Class.of_addFunc_eq_ok hadd
  rw [hcls] at hg
  have href : k.ref = (c.program.classOf f.cls).ref := by rw [hkeq]
  have hfuncs : k.funcs = (c.program.classOf f.cls).funcs ++ [g] := by rw [hkeq]; simp
  have hvalid : c.program.ValidFunc g := by
    rw [hg]
    exact ⟨hf.params_valid, hf.results_valid, hf.locals_nodup, hf.results_nil, hf.generated_kind,
      hf.copy_param⟩
  have hclass : c.program.ValidClass k :=
    hkeq ▸ (hc.program_wf.classes_valid _ hk).addFunc (by rw [hg, hcls]) (by rw [hg]) hvalid
  have hforms := hc.update hk href hclass (by simp [hfuncs]) fun h hh => by
    rw [hfuncs, List.mem_append, List.mem_singleton] at hh
    exact hh.imp_right fun h => by rw [h, hg]; exact hids
  refine { hforms with declares := fun h hh => ?_ }
  obtain hh | hh := List.mem_append.1 hh
  · exact hforms.declares h hh
  · obtain rfl := List.mem_singleton.1 hh
    exact ⟨_, (hc.program_wf.mem_update hk href).2 (.inl rfl), by simp [hfuncs]⟩

end Forms

end Context

namespace Analysis

section Declarations

variable {N : List String} {R : List ClassRef} {F : List MemberFunction} {c : Context} {H : Prop}

/-- Locals are numbered from one. -/
lemma firstLocal_from : From c H firstLocal fun id d => id = 0 ∧ d = { c with nextLocal := 1 } :=
  From.modifyGet (fun _ => rfl) fun _ => ⟨rfl, rfl⟩

/-- A local gets the next number. -/
lemma freshLocal_from : From c H freshLocal fun id d =>
    id = c.nextLocal ∧ d = { c with nextLocal := c.nextLocal + 1 } :=
  From.modifyGet (fun _ => rfl) fun _ => ⟨rfl, rfl⟩

/-! ## Classes and variables -/

/-- Names are told apart by their numbers: all digits are positive and at most the base. -/
lemma nameNumber_injective : Function.Injective nameNumber := by
  have digits : ∀ as bs : List Char, as.foldr (fun c n => n * 0x100000000 + c.toNat + 1) 0 =
      bs.foldr (fun c n => n * 0x100000000 + c.toNat + 1) 0 → as = bs := by
    intro as
    induction as with
    | nil =>
      rintro (_ | ⟨b, bs⟩) h
      · rfl
      · exact absurd h (Nat.succ_ne_zero _).symm
    | cons a as ih =>
      rintro (_ | ⟨b, bs⟩) h
      · exact absurd h (Nat.succ_ne_zero _)
      · have ha : a.toNat < 2 ^ 32 := a.val.toNat_lt
        have hb : b.toNat < 2 ^ 32 := b.val.toNat_lt
        simp only [List.foldr_cons] at h
        rw [ih bs (by omega), Char.toNat_inj.1 (show a.toNat = b.toNat by omega)]
  intro s t h
  unfold nameNumber at h
  rw [← List.foldr_reverse, ← List.foldr_reverse] at h
  exact String.toList_injective (List.reverse_injective (digits _ _ h))

/-- A class that is added has a number of its own. -/
lemma ne_classRef_id {p q : Program} {k : ClassSyntax}
    (h : p.addClass ⟨classRef k, k.pos, []⟩ = .ok q)
    (hp : ∀ c ∈ p.classes, c.ref.id = nameNumber c.ref.name) :
    ∀ c ∈ p.classes, c.ref.id ≠ (classRef k).id := by
  unfold Program.addClass at h
  split at h
  · cases h
  · rename_i hn
    intro c hc hid
    have hname : c.ref.name = k.name := nameNumber_injective ((hp c hc).symm.trans hid)
    exact absurd (beq_iff_eq.2 hname) (List.find?_eq_none.1 hn c hc)

/-- Classes are numbered by their names. -/
lemma declareClasses_clean : ∀ (cs : List ClassSyntax) (R : List ClassRef),
    Clean (fun c => c.Forms N R [] ∧ ∀ r ∈ R, r.id = nameNumber r.name) (declareClasses cs)
      fun q c => c.Forms N (R ++ q.map Prod.fst) []
  | [], R => Clean.pure fun c hc => by simpa using hc.1
  | k :: cs, R => by
    refine From.clean fun c => ?_
    refine From.keeps_bind Keeps.get fun d => ?_
    split
    · rename_i p hp
      refine From.bind (Q := fun _ e => e.Forms N (R ++ [classRef k]) [] ∧
        ∀ r ∈ R ++ [classRef k], r.id = nameNumber r.name) (From.modify (fun _ => rfl) fun h => ?_)
        fun _ e => ?_
      · obtain ⟨⟨hc, hR⟩, rfl⟩ := h
        obtain ⟨hwf, hclasses, hforeigns⟩ := hc.program_wf.addClass hp
          (ne_classRef_id hp fun e he => hR e.ref (hc.refs_eq ▸ List.mem_map_of_mem he))
        refine ⟨⟨hwf, ?_, hc.scopes_nil, hforeigns ▸ hc.foreigns_named, ?_, by simp⟩, ?_⟩
        · rintro f ⟨e, he, hf⟩
          rw [hclasses, List.mem_append] at he
          obtain he | he := he
          · exact hc.ids_below f ⟨e, he, hf⟩
          · obtain rfl := List.mem_singleton.1 he
            simp [Class.funcs] at hf
        · simp [hclasses, hc.refs_eq]
        · exact List.forall_mem_append.2 ⟨hR, List.forall_mem_singleton.2 rfl⟩
      · refine From.bind ((declareClasses_clean cs _).from And.right) fun q f =>
          From.pure fun h => by simpa using h.2
    · exact From.report_bind _ _ _ fun e =>
        ((declareClasses_clean cs R).from False.elim).weaken (fun h => h)
          fun _ _ h => h.elim

/-- A member variable of a valid type is added to a class. -/
lemma addVar_from {r : ClassRef} (hr : r ∈ R) (v : VarSyntax) {t : Ty} {c : Context} {H : Prop}
    (hc : H → c.Forms N R F ∧ c.program.Valid t) :
    From c H (do
      match ((← get).program.classOf r).addVar v.name v.pos t with
      | .ok (c, _) => modify fun ctx => { ctx with program := ctx.program.update c }
      | .error prev =>
        report .duplicate v.pos
          ("member '" ++ v.name ++ "' of " ++ r.name ++ " is already declared at " ++
            prev.pos.describe)) fun _ => Context.Forms N R F := by
  refine From.keeps_bind Keeps.get fun e => ?_
  split
  · rename_i k w hadd
    refine From.modify (fun _ => rfl) fun h => ?_
    obtain ⟨hH, rfl⟩ := h
    obtain ⟨hforms, ht⟩ := hc hH
    obtain ⟨hn, rfl, rfl⟩ := Class.of_addVar_eq_ok hadd
    obtain ⟨hk, -⟩ := hforms.classOf_mem hr
    refine hforms.update hk rfl
      ((hforms.program_wf.classes_valid _ hk).addVar rfl ht hn) (by simp) fun f hf => .inl ?_
    simpa using hf
  · exact From.report _ _ _

/-- A new member variable of a class. -/
lemma declareVar_clean {r : ClassRef} (hr : r ∈ R) (v : VarSyntax) :
    Clean (Context.Forms N R F) (declareVar r v) fun _ => Context.Forms N R F := by
  refine From.clean fun c => ?_
  refine From.keeps_bind (resolveType_keeps v.type) fun t => ?_
  split
  · split
    · exact From.report_bind _ _ _ fun d => addVar_from hr v (t := .failed) False.elim
    · exact addVar_from hr v id
  · exact addVar_from hr v id

/-- The variables of a class are declared, and the declarations stay well formed. -/
lemma declareVars_clean {r : ClassRef} (hr : r ∈ R) (k : ClassSyntax) :
    Clean (Context.Forms N R F) (declareVars r k) fun _ => Context.Forms N R F := by
  refine Clean.forM fun m _ => ?_
  split
  · exact declareVar_clean hr _
  · exact Clean.pure fun _ h => h

/-! ## Foreign functions -/

/-- The parameters and results of a foreign function are atomic. -/
lemma foreignParam_from (name : String) (isOut : Bool) (a : ParamSyntax) :
    From c H (foreignParam name isOut a) fun b d =>
      (c.program.Valid b.type ∧ b.type.isAtomic ∧ b.type.modifier = .var) ∧
        ∃ n, d = { c with nextLocal := n } := by
  refine From.keeps_bind (resolveType_keeps a.type) fun t => ?_
  refine From.report_if fun d H' hH => ?_
  refine From.bind freshLocal_from fun id e => From.pure fun h => ?_
  obtain ⟨h, -, rfl⟩ := h
  obtain ⟨rfl, ⟨-, ht⟩, hat⟩ := hH h
  refine ⟨⟨by simpa using ht, ?_, by simp⟩, _, rfl⟩
  simpa [ht.isError_eq_false] using hat

/-- Parameters of foreign functions are atomic. -/
lemma foreignParams_from (name : String) (isOut : Bool) : ∀ (as : List ParamSyntax)
    {c : Context} {H : Prop}, From c H (as.mapM (foreignParam name isOut)) fun bs d =>
      (∀ b ∈ bs, c.program.Valid b.type ∧ b.type.isAtomic ∧ b.type.modifier = .var) ∧
        ∃ n, d = { c with nextLocal := n }
  | [], c, H => From.pure fun _ => ⟨by simp, c.nextLocal, rfl⟩
  | a :: as, c, H => by
    rw [List.mapM_cons]
    refine From.bind (foreignParam_from name isOut a) fun b d => ?_
    refine From.bind (foreignParams_from name isOut as) fun bs e => From.pure fun h => ?_
    obtain ⟨⟨-, hb, n, rfl⟩, hbs, m, rfl⟩ := h
    exact ⟨List.forall_mem_cons.2 ⟨hb, hbs⟩, m, rfl⟩

/-- A new foreign function. -/
lemma declareForeign_clean (d : ForeignSyntax) (hd : d.name ∈ N) :
    Clean (Context.Forms N R F) (declareForeign d) fun _ => Context.Forms N R F := by
  refine From.clean fun c => ?_
  refine From.bind firstLocal_from fun _ c0 => ?_
  refine From.bind (foreignParams_from d.name false d.params) fun ins c1 => ?_
  refine From.bind (foreignParams_from d.name true d.results) fun outs c2 => ?_
  refine From.report_if fun c3 H' hH => ?_
  refine From.keeps_bind Keeps.get fun e => ?_
  split
  · rename_i p hp
    refine From.modify (fun _ => rfl) fun h => ?_
    obtain ⟨h, rfl⟩ := h
    obtain ⟨rfl, ⟨⟨⟨hc, -, rfl⟩, hins, n, rfl⟩, houts, m, rfl⟩, -⟩ := hH h
    obtain ⟨hwf, hclasses, hforeigns⟩ := hc.program_wf.addForeign hp ⟨hins, houts⟩
    have hdeclares : ∀ f, p.Declares f ↔ c.program.Declares f := by
      simp [Program.Declares, hclasses]
    refine ⟨hwf, fun f hf => hc.ids_below f ((hdeclares f).1 hf), hc.scopes_nil, ?_,
      hclasses ▸ hc.refs_eq, fun f hf => (hdeclares f).2 (hc.declares f hf)⟩
    intro f hf
    rw [hforeigns, List.mem_append, List.mem_singleton] at hf
    obtain hf | rfl := hf
    · exact hc.foreigns_named f hf
    · exact hd
  · exact From.report _ _ _

/-! ## Functions -/

/-- A parameter has the next number, and its local is bound. The type is what `T` says. -/
lemma param_from {T : Ty → Prop} (s : Scope) (a : ParamSyntax) (isOut : Bool)
    (hT : Keeps c H (resolveType a.type) T) :
    From c H (param s a isOut) fun q d =>
      (∃ t, T t ∧ q.2 = ⟨a.name, a.pos,
        t.withModifier (if isOut then .var else paramModifier a.qualifier t), isOut,
        c.nextLocal⟩) ∧
      q.1 = { s with locals := s.locals ++ [q.2.toLocal] } ∧
      d = { c with nextLocal := c.nextLocal + 1 } := by
  refine From.keeps_bind hT fun t => ?_
  refine From.bind freshLocal_from fun id d => ?_
  generalize hm : (if isOut then Modifier.var else paramModifier a.qualifier t) = m
  simp only
  split
  · rename_i s' hs
    refine From.pure fun h => ?_
    obtain ⟨⟨-, ht⟩, rfl, rfl⟩ := h
    refine ⟨⟨t, ht, by rw [hm]⟩, ?_, rfl⟩
    unfold Scope.insert at hs
    split at hs
    · cases hs
    · exact (Except.ok.inj hs).symm
  · exact From.report_bind _ _ _ fun _ => From.pure False.elim

/-- Parameters or results have consecutive numbers and valid types. -/
lemma params_from (isOut : Bool) : ∀ (as : List ParamSyntax) (s : Scope) {c : Context} {H : Prop},
    From c H (params s isOut as) fun q d =>
      (∀ b ∈ q.2, c.program.Valid b.type ∧ b.isOut = isOut ∧
        (isOut = true → b.type.modifier = .var)) ∧
      q.2.map Param.localId = List.range' c.nextLocal as.length ∧
      q.1 = { s with locals := s.locals ++ q.2.map Param.toLocal } ∧
      d = { c with nextLocal := c.nextLocal + as.length }
  | [], s, c, H => From.pure fun _ => ⟨by simp, rfl, by simp, rfl⟩
  | a :: as, s, c, H => by
    refine From.bind (param_from s a isOut (resolveType_keeps a.type)) fun (s', b) d => ?_
    refine From.bind (params_from isOut as s') fun (s'', bs) e => From.pure fun h => ?_
    obtain ⟨⟨-, ⟨t, ht, hb⟩, hs', rfl⟩, hbs, hids, hs'', rfl⟩ := h
    simp only at hb hs' hbs hids hs''
    subst hb
    refine ⟨List.forall_mem_cons.2 ⟨⟨by simpa using ht, rfl, ?_⟩, hbs⟩, ?_, ?_, ?_⟩
    · rintro rfl
      simp
    · simp [hids, List.range'_succ]
    · simp [hs'', hs']
    · simp [Nat.add_comm, Nat.add_left_comm]

/-- The locals of a signature have consecutive numbers and are bound in the root scope. -/
lemma signature_from (ins outs : List ParamSyntax) :
    From c H (signature ins outs) fun q d =>
      (∀ b ∈ q.2.params, c.program.Valid b.type ∧ b.isOut = false) ∧
      (∀ b ∈ q.2.results, c.program.Valid b.type ∧ b.isOut = true ∧ b.type.modifier = .var) ∧
      (q.2.params ++ q.2.results).map Param.localId =
        List.range' c.nextLocal (ins.length + outs.length) ∧
      q.1.locals = (q.2.params ++ q.2.results).map Param.toLocal ∧
      d = { c with nextLocal := c.nextLocal + (ins.length + outs.length) } := by
  refine From.bind (params_from false ins { isRoot := true }) fun (s, as) d => ?_
  refine From.bind (params_from true outs s) fun (s', bs) e => From.pure fun h => ?_
  obtain ⟨⟨-, has, hids, hs, rfl⟩, hbs, hids', hs', rfl⟩ := h
  simp only at has hids hs hbs hids' hs'
  refine ⟨fun b hb => ⟨(has b hb).1, (has b hb).2.1⟩,
    fun b hb => ⟨(hbs b hb).1, (hbs b hb).2.1, (hbs b hb).2.2 trivial⟩, ?_, ?_, ?_⟩
  · simp [hids, hids', List.range'_append_1]
  · simp [hs', hs]
  · simp [Nat.add_assoc]

/-- Constructors and assignments have no results. -/
lemma checkShape_keeps (f : MemberFunction) : Keeps c H (checkShape f) fun _ =>
    f.kind = .create ∨ f.kind = .assign → f.sig.results = [] := by
  unfold checkShape
  split
  · split
    · exact Keeps.report _ _ _
    · exact Keeps.pure fun _ _ => by simp_all
  · split
    · exact Keeps.report _ _ _
    · exact Keeps.pure fun _ _ => by simp_all
  · rename_i hk
    have other : ∀ H', Keeps c H' (pure ()) fun _ =>
        f.kind = .create ∨ f.kind = .assign → f.sig.results = [] :=
      fun H' => Keeps.pure fun _ h => by simp [hk] at h
    split
    · exact Keeps.report _ _ _
    · split
      · exact Keeps.report _ _ _
      · split
        · exact Keeps.report _ _ _
        · exact other H
  · rename_i h1 h2 h3
    exact Keeps.pure fun _ h => by simp_all

/-- The body of a function that was written is analysed in the scope of its parameters and
results. -/
structure Pending.Fits (q : Pending) : Prop where
  locals_eq : q.scope.locals = (q.fn.sig.params ++ q.fn.sig.results).map Param.toLocal
  not_generated : q.fn.isGenerated = false

/-- The numbers of a function's locals differ, and are those that are counted. -/
lemma localIds_range {f : MemberFunction} {k : Nat} (hs : f.selfId = 0)
    (hids : (f.sig.params ++ f.sig.results).map Param.localId = List.range' 1 k) :
    f.localIds.Nodup ∧ ∀ i ∈ f.localIds, i < f.localCount := by
  have hk : f.localCount = k + 1 := by
    have hlength := congrArg List.length hids
    simp only [List.length_map, List.length_append, List.length_range'] at hlength
    rw [MemberFunction.localCount, hlength]
  have hrange : f.localIds = List.range' 0 (k + 1) := by
    rw [MemberFunction.localIds, hs, hids, List.range'_succ]
  rw [hrange, hk]
  refine ⟨List.nodup_range', fun i hi => ?_⟩
  rw [List.mem_range'_1] at hi
  omega

/-- A new member function of a class. -/
lemma declareFunc_from {r : ClassRef} (hr : r ∈ R) (d : FuncSyntax) (hc : H → c.Forms N R F) :
    From c H (declareFunc r d) fun q e =>
      ∃ x, q = some x ∧ e.Forms N R (F ++ [x.fn]) ∧ x.Fits := by
  refine From.bind firstLocal_from fun selfId c1 => ?_
  refine From.bind (signature_from d.params d.results) fun (scope, sig) c2 => ?_
  refine From.keeps_bind (checkShape_keeps _) fun _ => ?_
  refine From.report_if fun c3 H' hH => ?_
  refine From.keeps_bind Keeps.get fun e => ?_
  split
  · rename_i k f hadd
    refine From.bind (Q := fun _ e' => e'.Forms N R (F ++ [f]) ∧ Pending.Fits ⟨f, scope, d.body⟩)
      (From.modify (fun _ => rfl) fun h => ?_) fun _ e' => From.pure fun h => ⟨_, rfl, h.2⟩
    obtain ⟨h, rfl⟩ := h
    obtain ⟨rfl, ⟨⟨⟨hH', rfl, rfl⟩, hps, hrs, hids, hlocals, rfl⟩, hshape⟩, -⟩ := hH h
    obtain ⟨hnodup, hbelow⟩ := localIds_range (f := ⟨r, 0, d.kind, d.name, d.pos, d.isSimd, sig, 0,
      false, false⟩) rfl hids
    refine ⟨((hc hH').renumber _).addFunc hr hadd ⟨hps, hrs, hnodup, hshape, by simp, by simp⟩
      hbelow, ?_⟩
    · rw [(Class.of_addFunc_eq_ok hadd).1]
      exact ⟨hlocals, rfl⟩
  · exact From.report_bind _ _ _ fun _ => From.pure False.elim

/-- The functions of a class are declared, and each fits its class. -/
lemma declareFuncs_from {r : ClassRef} (hr : r ∈ R) : ∀ (ms : List MemberSyntax)
    {F : List MemberFunction} {c : Context} {H : Prop}, (H → c.Forms N R F) →
    From c H (declareFuncs r ms) fun qs d =>
      d.Forms N R (F ++ qs.map Pending.fn) ∧ ∀ q ∈ qs, q.Fits
  | [], F, c, H, hc => From.pure fun h => ⟨by simpa using hc h, by simp⟩
  | .var _ :: ms, F, c, H, hc => declareFuncs_from hr ms hc
  | .func d :: ms, F, c, H, hc => by
    refine From.bind (declareFunc_from hr d hc) fun q c1 => ?_
    cases q with
    | none => exact From.bind ((declareFuncs_from hr ms (F := F) (H := False) False.elim).weaken
        (by simp) fun _ _ _ h => h) fun _ _ => From.pure (by simp)
    | some x =>
      refine From.bind (declareFuncs_from hr ms (F := F ++ [x.fn]) fun h => ?_) fun qs c2 =>
        From.pure fun h => ?_
      · obtain ⟨-, y, hy, hforms, -⟩ := h
        obtain rfl := Option.some.inj hy
        exact hforms
      · obtain ⟨⟨-, y, hy, -, hfits⟩, hforms, hqs⟩ := h
        obtain rfl := Option.some.inj hy
        exact ⟨by simpa using hforms, by simpa using ⟨hfits, hqs⟩⟩

/-- The functions of all classes are declared, and each fits its class. -/
lemma declareAllFuncs_from : ∀ (cs : List (ClassRef × ClassSyntax)) {F : List MemberFunction}
    {c : Context} {H : Prop}, (∀ x ∈ cs, x.1 ∈ R) → (H → c.Forms N R F) →
    From c H (declareAllFuncs cs) fun qs d =>
      d.Forms N R (F ++ qs.map Pending.fn) ∧ ∀ q ∈ qs, q.Fits
  | [], F, c, H, _, hc => From.pure fun h => ⟨by simpa using hc h, by simp⟩
  | (r, k) :: cs, F, c, H, hR, hc => by
    refine From.bind (declareFuncs_from (hR _ List.mem_cons_self) k.members hc) fun qs c1 => ?_
    refine From.bind (declareAllFuncs_from cs (fun x hx => hR x (List.mem_cons_of_mem _ hx))
      fun h => h.2.1) fun qs' c2 => From.pure fun h => ?_
    obtain ⟨⟨-, -, hqs⟩, hforms, hqs'⟩ := h
    refine ⟨by simpa [List.append_assoc] using hforms, fun q hq => ?_⟩
    obtain hq | hq := List.mem_append.1 hq
    · exact hqs q hq
    · exact hqs' q hq

/-! ## Added functions -/

/-- A written name stands for a scalar, or else for the class with that name. -/
lemma resolveName_keeps (pos : Position) (n : String) :
    Keeps c H (resolveType (.name pos n)) fun t =>
      (∃ k, ScalarKind.ofName? n = some k ∧ t = .ofScalar k) ∨
        ScalarKind.ofName? n = none ∧
          ∃ k ∈ c.program.classes, k.name = n ∧ t = .ofClass k.ref := by
  unfold resolveType
  split
  · exact Keeps.pure fun _ => .inl ⟨_, ‹_›, rfl⟩
  · refine Keeps.bind Keeps.get fun d => ?_
    split
    · rename_i hn _ k hk
      refine Keeps.pure fun h => .inr ⟨hn, k, ?_, ?_, rfl⟩
      · exact h.2 ▸ Program.mem_of_class?_eq_some hk
      · simpa using List.find?_some hk
    · exact Keeps.report_bind _ _ _ (Keeps.pure False.elim)

/-- The signature of a function that copies another instance. -/
lemma copySignature_from {r : ClassRef} (hr : r ∈ R) (pos : Position)
    (hc : H → c.Forms N R F) :
    From c H (signature [⟨pos, "other", .cref, .name pos r.name⟩] []) fun q d =>
      (∃ a, q.2 = ⟨[a], []⟩ ∧ a.localId = c.nextLocal ∧ a.isOut = false ∧
        c.program.Valid a.type ∧
        (ScalarKind.ofName? r.name = none ∧ a.type = .cls .cref r ∨
          ∃ k, ScalarKind.ofName? r.name = some k ∧ a.type = .scalar .const k)) ∧
      d = { c with nextLocal := c.nextLocal + 1 } := by
  refine From.bind (Q := fun q d => (∃ a, q.2 = [a] ∧ a.localId = c.nextLocal ∧
      a.isOut = false ∧ c.program.Valid a.type ∧
      (ScalarKind.ofName? r.name = none ∧ a.type = .cls .cref r ∨
        ∃ k, ScalarKind.ofName? r.name = some k ∧ a.type = .scalar .const k)) ∧
      d = { c with nextLocal := c.nextLocal + 1 }) ?_ fun (s, as) d => ?_
  · refine From.bind (param_from _ _ false (resolveName_keeps pos r.name)) fun (s, a) d => ?_
    refine From.pure fun h => ?_
    obtain ⟨hH, ⟨t, ht, ha⟩, -, rfl⟩ := h
    simp only at ha
    subst ha
    refine ⟨⟨_, rfl, rfl, rfl, ?_⟩, rfl⟩
    obtain ⟨k, hk, rfl⟩ | ⟨hn, k, hk, hname, rfl⟩ := ht
    · exact ⟨trivial, .inr ⟨k, hk, rfl⟩⟩
    · obtain ⟨d, hd, rfl⟩ := List.mem_map.1 ((hc hH).refs_eq ▸ hr)
      obtain rfl := List.inj_on_of_nodup_map (hc hH).program_wf.names_nodup hk hd hname
      exact ⟨⟨k, hk, rfl⟩, .inl ⟨hn, rfl⟩⟩
  · refine From.pure fun h => ?_
    obtain ⟨-, ⟨a, ha, hrest⟩, hd⟩ := h
    exact ⟨⟨a, by simp only at ha; rw [ha], hrest⟩, hd⟩

/-- The signature of an added function. -/
lemma generatedSignature_from {r : ClassRef} (hr : r ∈ R) (pos : Position) (isCopy : Bool)
    (hc : H → c.Forms N R F) :
    From c H (signature (if isCopy then [⟨pos, "other", .cref, .name pos r.name⟩] else []) [])
      fun q d => ∃ k,
        (∀ a ∈ q.2.params, c.program.Valid a.type ∧ a.isOut = false) ∧ q.2.results = [] ∧
        q.2.params.map Param.localId = List.range' c.nextLocal k ∧
        (isCopy → ∃ a, q.2.params = [a] ∧
          (ScalarKind.ofName? r.name = none ∧ a.type = .cls .cref r ∨
            ∃ k, ScalarKind.ofName? r.name = some k ∧ a.type = .scalar .const k)) ∧
        d = { c with nextLocal := c.nextLocal + k } := by
  cases isCopy with
  | true =>
    refine (copySignature_from hr pos hc).weaken id fun q d _ h => ?_
    obtain ⟨⟨a, hq, hid, hout, hv, ht⟩, rfl⟩ := h
    refine ⟨1, ?_, by simp [hq], by simp [hq, hid], fun _ => ⟨a, by rw [hq], ht⟩, rfl⟩
    simpa [hq] using ⟨hv, hout⟩
  | false =>
    refine From.pure fun _ => ⟨0, by simp, rfl, rfl, by simp, rfl⟩

/-- A function of the compiler is added to a class, or the class has one like it. -/
lemma generate_clean {r : ClassRef} (hr : r ∈ R) (pos : Position) (kind : FuncKind)
    (hk : kind = .create ∨ kind = .assign) (isCopy : Bool) :
    Clean (Context.Forms N R F) (generate r pos kind isCopy) fun _ => Context.Forms N R F := by
  refine From.clean fun c => ?_
  refine From.bind firstLocal_from fun selfId c1 => ?_
  refine From.bind (generatedSignature_from hr pos isCopy (F := F) (N := N) fun h => ?_)
    fun (scope, sig) c2 => ?_
  · obtain ⟨hc, -, rfl⟩ := h
    exact hc.renumber _
  refine From.keeps_bind Keeps.get fun e => ?_
  split
  · rename_i d f hadd
    refine From.modify (fun _ => rfl) fun h => ?_
    obtain ⟨⟨⟨hc, rfl, rfl⟩, k, hps, hres, hids, hcopy, rfl⟩, rfl⟩ := h
    simp only at hps hres hids hcopy
    obtain ⟨hnodup, hbelow⟩ := localIds_range (f := ⟨r, 0, kind, kind.name, pos, r.isSimd, sig, 0,
      true, isCopy⟩) rfl (by simpa [hres] using hids)
    have hadded := (hc.renumber (1 + k)).addFunc hr hadd ⟨hps, by simp [hres], hnodup,
      fun _ => hres, fun _ => hk, fun _ => hcopy⟩ hbelow
    exact { hadded with declares := fun g hg => hadded.declares g (List.mem_append_left _ hg) }
  · refine From.pure fun h => ?_
    obtain ⟨⟨⟨hc, -, rfl⟩, k, -, -, -, -, rfl⟩, -⟩ := h
    exact hc.renumber _

/-- The members that every class has are added. -/
lemma declareGenerated_clean {r : ClassRef} (hr : r ∈ R) (pos : Position) :
    Clean (Context.Forms N R F) (declareGenerated r pos) fun _ => Context.Forms N R F := by
  have added : Clean (Context.Forms N R F) (do
      generate r pos .create true
      generate r pos .assign true) fun _ => Context.Forms N R F :=
    Clean.bind (generate_clean hr pos .create (.inl rfl) true) fun _ =>
      generate_clean hr pos .assign (.inr rfl) true
  refine From.clean fun c => From.keeps_bind Keeps.get fun d => ?_
  split
  · exact (Clean.bind (generate_clean hr pos .create (.inl rfl) false) fun _ => added).from And.left
  · exact added.from And.left

/-! ## Bodies -/

/-- The locals that a body starts with have valid types and numbers that are counted. -/
lemma rootLocals_valid (hc : c.Forms N R F) {f : MemberFunction} (hf : f ∈ F) :
    ∀ l ∈ f.rootLocals, c.program.Valid l.type ∧ l.id < f.localCount := by
  have hdecl := hc.declares f hf
  have hids := hc.ids_below f hdecl
  refine fun l hl => ⟨hdecl.rootLocals_valid hc.program_wf l hl, hids _ ?_⟩
  obtain hl | hl := List.mem_append.1 hl
  · obtain ⟨a, ha, rfl⟩ := List.mem_map.1 hl
    exact List.mem_cons_of_mem _ (List.mem_map_of_mem ha)
  · unfold selfLocal at hl
    split at hl
    · simp only [Option.toList_some, List.mem_singleton] at hl
      subst hl
      exact List.mem_cons_self
    · simp at hl

/-- The context in which the body of a function is analysed. -/
abbrev bodyContext (c : Context) (q : Pending) : Context :=
  ({ (c.enterClass q.fn.cls).1 with nextLocal := q.fn.localCount }.enterFunction q.fn.name
    (selfLocal q.fn) q.scope.locals).1

/-- The body of a function sees the locals that it starts with. -/
lemma visible_bodyContext {q : Pending} (hq : q.Fits) (hc : c.Forms N R F) :
    (bodyContext c q).visible = q.fn.rootLocals := by
  show ((⟨q.scope.locals, true⟩ : Scope) :: c.scopes).flatMap Scope.locals ++
    (selfLocal q.fn).toList = _
  rw [hc.scopes_nil, hq.locals_eq]
  simp [MemberFunction.rootLocals]

/-- The context in which a body is analysed is inside of it. -/
lemma inside_bodyContext {q : Pending} (hfn : q.fn ∈ F) (hq : q.Fits) (hc : c.Forms N R F) :
    (bodyContext c q).Inside where
  program_wf := hc.program_wf
  visible_valid l hl := (rootLocals_valid hc hfn l (visible_bodyContext hq hc ▸ hl)).1
  scopes_ne := List.cons_ne_nil _ _
  loops_nonneg := Int.le_refl _
  ids_below l hl := (rootLocals_valid hc hfn l (visible_bodyContext hq hc ▸ hl)).2

/-- The body of a declared function is typed. -/
lemma functionBody_from {q : Pending} (hfn : q.fn ∈ F) (hq : H → q.Fits)
    (hc : H → c.Forms N R F) :
    From c H (functionBody q) fun b d =>
      d.Forms N R F ∧ d.program = c.program ∧ b.fn = q.fn ∧ b.Typed c.program := by
  let c1 := bodyContext c q
  refine From.errors (Q := fun b d => d.Forms N R F ∧ d.program = c.program ∧ b.fn = q.fn ∧
    (c.errors = 0 ∧ d.errors = 0 → b.isClean) ∧ b.fn.isGenerated = false ∧
      TStmt.TypedAll c.program b.fn.rootLocals false b.body) ?_ |>.weaken id
    fun b d _ h => ⟨h.1.1, h.1.2.1, h.1.2.2.1, h.1.2.2.2.1 h.2, h.1.2.2.2.2.1, h.1.2.2.2.2.2⟩
  refine From.bind (enter_from fun _ => rfl) fun outOfClass c₀ => ?_
  refine From.bind (enter_from fun _ => rfl) fun out e => ?_
  refine From.keeps_bind Keeps.get fun d => ?_
  -- What was entered, and the ways back out.
  have entered : ((H ∧ c₀ = (c.enterClass q.fn.cls).1 ∧ outOfClass = (c.enterClass q.fn.cls).2) ∧
      e = ({ c₀ with nextLocal := q.fn.localCount }.enterFunction q.fn.name (selfLocal q.fn)
        q.scope.locals).1 ∧
      out = ({ c₀ with nextLocal := q.fn.localCount }.enterFunction q.fn.name (selfLocal q.fn)
        q.scope.locals).2) ∧ d = e →
      H ∧ e = c1 ∧ d = c1 ∧ outOfClass = .cls c.cls ∧
        out = .function c1.depth c.function c.loops := by
    rintro ⟨⟨⟨hH, rfl, rfl⟩, rfl, rfl⟩, rfl⟩
    exact ⟨hH, rfl, rfl, rfl, rfl⟩
  have hbody : From e (((H ∧ c₀ = (c.enterClass q.fn.cls).1 ∧
      outOfClass = (c.enterClass q.fn.cls).2) ∧
      e = ({ c₀ with nextLocal := q.fn.localCount }.enterFunction q.fn.name (selfLocal q.fn)
        q.scope.locals).1 ∧
      out = ({ c₀ with nextLocal := q.fn.localCount }.enterFunction q.fn.name (selfLocal q.fn)
        q.scope.locals).2) ∧ d = e)
      (statements q.body) (StmtsTyped c1 q.fn.rootLocals) := by
    intro e' he'
    refine statements_from (c := c1) (H := H) q.body
      (fun h => inside_bodyContext hfn (hq h) (hc h))
      (fun h l => by rw [visible_bodyContext (hq h) (hc h)]) e'
      fun h => ⟨(he' h).1.trans (entered (he' h).2).2.1, (entered (he' h).2).1⟩
  refine From.bind hbody fun body after => ?_
  -- Reading the context in the end and changing it are one step.
  show From after _ (modifyGet fun f => ((⟨q.fn, f.scopes.head?.getD {}, body,
    f.errors == d.errors⟩ : FuncBody), (f.left out).left outOfClass)) _
  refine From.modifyGet (fun f => ((f.left out).errors_left outOfClass).trans (f.errors_left out))
    fun h => ?_
  obtain ⟨hent, hs, -, ht⟩ := h
  obtain ⟨hH, rfl, rfl, rfl, rfl⟩ := entered hent
  obtain ⟨s, below, hroot, hafter⟩ := hs.scopes_eq
  have hdepth : after.depth = c1.depth := by simp [Context.depth, hafter, hroot]
  rw [Context.left_function hdepth]
  obtain ⟨-, rfl⟩ := List.cons.inj hroot
  refine ⟨⟨?_, ?_, ?_, ?_, ?_, ?_⟩, hs.program_eq, rfl, fun he => ?_, (hq hH).not_generated, ht⟩
  · exact hs.program_eq ▸ (hc hH).program_wf
  · exact hs.program_eq ▸ (hc hH).ids_below
  · rw [hafter]
    exact (hc hH).scopes_nil
  · exact hs.program_eq ▸ (hc hH).foreigns_named
  · exact hs.program_eq ▸ (hc hH).refs_eq
  · exact hs.program_eq ▸ (hc hH).declares
  · show (after.errors == c.errors) = true
    rw [he.1, show after.errors = 0 from he.2]
    rfl

/-- All bodies are typed. -/
lemma bodies_from : ∀ (qs : List Pending) {c : Context} {H : Prop},
    (∀ q ∈ qs, q.fn ∈ F) → (H → ∀ q ∈ qs, q.Fits) → (H → c.Forms N R F) →
    From c H (qs.mapM functionBody) fun bs d =>
      d.Forms N R F ∧ d.program = c.program ∧
        ∀ b ∈ bs, c.program.Declares b.fn ∧ b.Typed c.program
  | [], c, H, _, _, hc => From.pure fun h => ⟨hc h, rfl, by simp⟩
  | q :: qs, c, H, hfn, hq, hc => by
    rw [List.mapM_cons]
    refine From.bind (functionBody_from (hfn q List.mem_cons_self)
      (fun h => hq h q List.mem_cons_self) hc) fun b d => ?_
    refine From.bind (bodies_from qs (fun x hx => hfn x (List.mem_cons_of_mem q hx))
      (fun h x hx => hq h.1 x (List.mem_cons_of_mem q hx)) fun h => h.2.1) fun bs e =>
        From.pure fun h => ?_
    obtain ⟨⟨hH, hforms, hprog, hb, ht⟩, hforms', hprog', hbs⟩ := h
    rw [hprog] at hprog' hbs
    refine ⟨hforms', hprog', List.forall_mem_cons.2 ⟨⟨?_, ht⟩, hbs⟩⟩
    exact hb ▸ (hc hH).declares _ (hfn q List.mem_cons_self)

end Declarations

/-! ## Programs -/

/-- The declarations of a program, and the bodies that are still to be analysed. -/
def declarations (tree : ProgramSyntax) : Analysis (List Pending) := do
  let classes ← declareClasses tree.classes
  classes.forM fun (ref, c) => declareVars ref c
  tree.foreigns.forM declareForeign
  let pending ← declareAllFuncs classes
  classes.forM fun (ref, c) => declareGenerated ref c.pos
  return pending

/-- The bodies are analysed after all declarations. -/
lemma program_eq (tree : ProgramSyntax) :
    program tree = declarations tree >>= fun pending => do
      let bodies ← pending.mapM functionBody
      checkBalance
      let ctx ← get
      return ⟨ctx.program, bodies, ctx.isOk⟩ := by
  simp only [program, declarations, bind_assoc, pure_bind]

/-- No scope is left open. -/
lemma checkBalance_keeps {c : Context} {H : Prop} (hc : H → c.scopes = []) :
    Keeps c H checkBalance fun _ => True := by
  refine Keeps.bind Keeps.get fun d => ?_
  dsimp only
  split
  · rename_i hd
    refine bind_pure (bug _) ▸ Keeps.bug_bind _ (fun h => ?_) (Keeps.pure fun _ => trivial)
    obtain ⟨hH, rfl⟩ := h
    simp [Context.depth, hc hH] at hd
  · exact Keeps.pure fun _ => trivial

/-- The declarations of a program from an empty context. -/
lemma declarations_from (tree : ProgramSyntax) (ds : Diagnostics) :
    From { diagnostics := ds } True (declarations tree) fun qs d =>
      (∀ q ∈ qs, q.Fits) ∧ d.Forms (tree.foreigns.map ForeignSyntax.name)
        (d.program.classes.map Class.ref) (qs.map Pending.fn) := by
  have start : Context.Forms (tree.foreigns.map ForeignSyntax.name) [] []
      ({ diagnostics := ds } : Context) := by
    refine ⟨⟨?_, ?_, ?_, ?_, ?_⟩, ?_, rfl, ?_, rfl, ?_⟩ <;> simp [Program.Declares]
  refine From.bind ((declareClasses_clean tree.classes []).from fun _ => ⟨start, by simp⟩)
    fun cs c => ?_
  have hcs : ∀ x ∈ cs, x.1 ∈ [] ++ cs.map Prod.fst := fun x hx => List.mem_map_of_mem hx
  refine From.bind ((Clean.forM fun x hx => declareVars_clean (hcs x hx) x.2).from And.right)
    fun _ _ => ?_
  refine From.bind ((Clean.forM fun d hd => declareForeign_clean d (List.mem_map_of_mem hd)).from
    And.right) fun _ c => ?_
  refine From.bind (declareAllFuncs_from cs hcs And.right) fun qs c => ?_
  refine From.bind ((Clean.forM fun x hx => declareGenerated_clean (hcs x hx) x.2.pos).from
    fun h => h.2.1) fun _ c => From.pure fun h => ?_
  obtain ⟨⟨-, -, hfits⟩, hforms⟩ := h
  exact ⟨hfits, hforms.refs_eq ▸ hforms⟩

/-- The analysis of a program from an empty context. -/
lemma program_clean (tree : ProgramSyntax) (ds : Diagnostics) :
    From { diagnostics := ds } True (program tree) fun e _ =>
      e.Typed ∧ ∀ f ∈ e.program.foreigns, f.name ∈ tree.foreigns.map ForeignSyntax.name := by
  rw [program_eq]
  refine From.bind (declarations_from tree ds) fun qs c => ?_
  refine From.bind (bodies_from qs (fun q hq => List.mem_map_of_mem hq) (fun h => h.2.1)
    fun h => h.2.2) fun bs c' => ?_
  refine From.keeps_bind (checkBalance_keeps fun h => h.2.1.scopes_nil) fun _ => ?_
  refine From.keeps_bind Keeps.get fun d => From.pure fun h => ?_
  obtain ⟨⟨⟨-, hforms, hprog, hbs⟩, -⟩, rfl⟩ := h
  rw [← hprog] at hbs
  exact ⟨⟨hforms.program_wf, fun b hb => (hbs b hb).1, fun b hb => (hbs b hb).2⟩,
    hforms.foreigns_named⟩

end Analysis

/-- **Accepted programs are typed**: what an analysis without errors gives is typed. -/
theorem Elaborated.typed_of_isOk (tree : ProgramSyntax) (ds : Diagnostics)
    (h : (Elaborated.ofSyntax tree ds).1.isOk) :
    (Elaborated.ofSyntax tree ds).1.Typed ∧
      ∀ f ∈ (Elaborated.ofSyntax tree ds).1.program.foreigns,
        f.name ∈ tree.foreigns.map ForeignSyntax.name :=
  (Analysis.program_clean tree ds _ (fun _ => ⟨rfl, trivial⟩) (beq_iff_eq.1 h)).2

end Lane
