import Lane.Proofs.Analysis.Program

set_option relaxedAutoImplicit false
set_option autoImplicit false

/-!
# Members of classes

What an analysis that reports nothing says about the members of a class, besides their types: a
`simd` class holds no other classes, only a `simd` class has `simd` functions, no function is
declared twice, and no written type names a class that has the name of a scalar.

## Main definitions

* `Lane.Ty.IsNamed`: types that are no class with the name of a scalar.
* `Lane.MemberFunction.Clashes`: functions that cannot be members of one class.
* `Lane.Class.Orderly`: classes whose members go together.
* `Lane.DeclarationsKeep`: what every declaration keeps of a class.

## Main results

* `Lane.Analysis.writtenDeclarations_all`: what the written declarations keep.
* `Lane.Elaborated.orderly_of_isOk`: the classes of an accepted program are orderly.
-/

namespace Lane

/-- **Clashing functions**: they have the same name, the same kind and the same types. -/
def MemberFunction.Clashes (f g : MemberFunction) : Prop :=
  f.name = g.name ∧ f.kind = g.kind ∧ f.sig.same g.sig

/-- **Named types**: a name that is that of a scalar stands for no class. -/
def Ty.IsNamed (t : Ty) : Prop := ∀ m c, t = .cls m c → ScalarKind.ofName? c.name = none

/-- A type keeps its name under another modifier. -/
lemma Ty.IsNamed.withModifier {t : Ty} (h : t.IsNamed) (m : Modifier) :
    (t.withModifier m).IsNamed := by
  cases t with
  | cls _ c =>
    intro _ d hd
    obtain ⟨-, rfl⟩ := Ty.cls.inj hd
    exact h _ c rfl
  | scalar | ptr | container | error => exact fun _ _ hd => nomatch hd

/-- A function that is declared clashes with no function before it. -/
lemma Class.not_clashes_of_addFunc {c d : Class} {f g : MemberFunction}
    (h : c.addFunc f = .ok (d, g)) : ∀ x ∈ c.funcs, ¬x.Clashes f := by
  unfold Class.addFunc at h
  split at h
  · cases h
  · rename_i hnone
    intro x hx hclash
    simpa [hclash.1, hclash.2.1, hclash.2.2] using List.find?_eq_none.1 hnone x hx

/-- **Orderly classes**: a `simd` class holds `simd` classes only, only a `simd` class has `simd`
functions, no two functions clash, and the types of all members are named. -/
structure Class.Orderly (c : Class) : Prop where
  vars_simd : c.ref.isSimd → ∀ v ∈ c.vars, ∀ m d, v.type = .cls m d → d.isSimd
  funcs_simd : ∀ f ∈ c.funcs, f.isSimd → c.ref.isSimd
  funcs_apart : c.funcs.Pairwise fun f g => ¬f.Clashes g
  vars_named : ∀ v ∈ c.vars, v.type.IsNamed
  funcs_named : ∀ f ∈ c.funcs, ∀ a ∈ f.sig.params ++ f.sig.results, a.type.IsNamed

namespace Class.Orderly

variable {c d : Class} {v : MemberVar} {f g : MemberFunction}

/-- A class without members is orderly. -/
lemma of_members (h : c.members = []) : c.Orderly := by
  constructor <;> simp [Class.vars, Class.funcs, h]

/-- A variable keeps a class orderly if `simd` classes hold `simd` classes only. -/
lemma addVar (hc : c.Orderly) {name : String} {pos : Position} {t : Ty}
    (ht : c.ref.isSimd → ∀ m d, t = .cls m d → d.isSimd) (hn : t.IsNamed)
    (h : c.addVar name pos t = .ok (d, v)) : d.Orderly := by
  obtain ⟨-, rfl, rfl⟩ := Class.of_addVar_eq_ok h
  refine ⟨fun hs w hw => ?_, by simpa using hc.funcs_simd, by simpa using hc.funcs_apart,
    fun w hw => ?_, by simpa using hc.funcs_named⟩
  all_goals
    rw [Class.vars_append_var, List.mem_append, List.mem_singleton] at hw
    obtain hw | rfl := hw
  · exact hc.vars_simd hs w hw
  · exact ht hs
  · exact hc.vars_named w hw
  · exact hn

/-- A function keeps a class orderly if it is `simd` in a `simd` class only. -/
lemma addFunc (hc : c.Orderly) (hs : f.isSimd → c.ref.isSimd)
    (hn : ∀ a ∈ f.sig.params ++ f.sig.results, a.type.IsNamed) (h : c.addFunc f = .ok (d, g)) :
    d.Orderly := by
  have hnew := Class.not_clashes_of_addFunc h
  obtain ⟨rfl, rfl⟩ := Class.of_addFunc_eq_ok h
  refine ⟨by simpa using hc.vars_simd, fun x hx => ?_, ?_, by simpa using hc.vars_named,
    fun x hx => ?_⟩
  · rw [Class.funcs_append_func, List.mem_append, List.mem_singleton] at hx
    obtain hx | rfl := hx
    · exact hc.funcs_simd x hx
    · exact hs
  · rw [Class.funcs_append_func, List.pairwise_append]
    exact ⟨hc.funcs_apart, List.pairwise_singleton _ _,
      fun x hx y hy => List.mem_singleton.1 hy ▸ hnew x hx⟩
  · rw [Class.funcs_append_func, List.mem_append, List.mem_singleton] at hx
    obtain hx | rfl := hx
    · exact hc.funcs_named x hx
    · exact hn

end Class.Orderly

/-- **What declarations keep**: what holds of a class without members, and is not lost when a
variable or a function that was written is declared. -/
structure DeclarationsKeep (K : Class → Prop) : Prop where
  of_members {c : Class} (h : c.members = []) : K c
  addVar {c d : Class} {v : MemberVar} {name : String} {pos : Position} {t : Ty} (hc : K c)
    (ht : c.ref.isSimd → ∀ m d, t = .cls m d → d.isSimd) (hn : t.IsNamed)
    (h : c.addVar name pos t = .ok (d, v)) : K d
  addFunc {c d : Class} {f g : MemberFunction} (hc : K c) (hf : f.isGenerated = false)
    (hs : f.isSimd → c.ref.isSimd) (hn : ∀ a ∈ f.sig.params ++ f.sig.results, a.type.IsNamed)
    (h : c.addFunc f = .ok (d, g)) : K d

/-- Declarations keep classes orderly. -/
lemma Class.orderly_keep : DeclarationsKeep Class.Orderly where
  of_members := .of_members
  addVar hc := hc.addVar
  addFunc hc _ := hc.addFunc

namespace Program

variable {p : Program} {c : Class} {K : Class → Prop}

/-- All classes of a program. -/
def All (K : Class → Prop) (p : Program) : Prop := ∀ c ∈ p.classes, K c

/-- The class that a type names is like all classes. -/
lemma All.classOf (h : p.All K) (hK : ∀ {c : Class}, c.members = [] → K c) (r : ClassRef) :
    K (p.classOf r) := by
  obtain ⟨d, hd, -, heq⟩ | ⟨-, hnil⟩ := p.classOf_mem_or r
  · exact heq ▸ h d hd
  · exact hK hnil

/-- A class is replaced by one that is like the others. -/
lemma All.update (h : p.All K) (hc : K c) : (p.update c).All K := by
  intro d hd
  obtain ⟨k, hk, rfl⟩ := List.mem_map.1 hd
  split
  · exact hc
  · exact h k hk

end Program

namespace Analysis

variable {K : Class → Prop} {N : List String} {R : List ClassRef} {F : List MemberFunction}
  {c : Context} {H : Prop}

/-- **Contexts of declarations** whose classes satisfy `K`. -/
def Tidy (K : Class → Prop) (N : List String) (R : List ClassRef) (c : Context) : Prop :=
  c.Forms N R [] ∧ c.program.All K

/-- What was declared may be forgotten. -/
lemma Tidy.of_forms (h : c.Forms N R F) (ho : c.program.All K) : Tidy K N R c :=
  ⟨{ h with declares := List.forall_mem_nil _ }, ho⟩

/-! ## Written types -/

/-- Written types are named. -/
lemma resolveType_named : ∀ (t : TypeExpr) {H : Prop}, Keeps c H (resolveType t) Ty.IsNamed
  | .name pos n, H => by
    refine (resolveName_keeps pos n).weaken id fun t ht => ?_
    obtain ⟨k, -, rfl⟩ | ⟨hn, k, -, rfl, rfl⟩ := ht
    · exact fun _ _ h => by cases h
    · intro m d hd
      obtain ⟨-, rfl⟩ := Ty.cls.inj hd
      exact hn
  | .container pos kind inner, H => by
    have failed : Ty.failed.IsNamed := fun _ _ h => by cases h
    unfold resolveType
    refine Keeps.bind (resolveType_named inner) fun t => ?_
    split
    · exact Keeps.pure And.right
    · split
      · exact Keeps.pure fun _ _ _ h => by cases h
      · exact Keeps.pure fun _ _ _ h => by cases h
      · dsimp only
        split
        · exact Keeps.pure fun _ _ _ h => by cases h
        · split
          · exact Keeps.pure fun _ _ _ h => by cases h
          · exact Keeps.report_bind _ _ _ (Keeps.pure fun _ => failed)
        · exact Keeps.report_bind _ _ _ (Keeps.pure fun _ => failed)

/-- The types of parameters are named. -/
lemma params_named (isOut : Bool) :
    ∀ (as : List ParamSyntax) (s : Scope) {c : Context} {H : Prop},
    From c H (params s isOut as) fun q _ => ∀ b ∈ q.2, b.type.IsNamed
  | [], s, c, H => From.pure fun _ => List.forall_mem_nil _
  | a :: as, s, c, H => by
    refine From.bind (param_from s a isOut (resolveType_named a.type)) fun (s', b) d => ?_
    refine From.bind (params_named isOut as s') fun (s'', bs) e => From.pure fun h => ?_
    obtain ⟨⟨-, ⟨t, ht, rfl⟩, -⟩, hbs⟩ := h
    exact List.forall_mem_cons.2 ⟨ht.withModifier _, hbs⟩

/-- The types in a signature are named. -/
lemma signature_named (ins outs : List ParamSyntax) :
    From c H (signature ins outs) fun q _ =>
      ∀ a ∈ q.2.params ++ q.2.results, a.type.IsNamed := by
  refine From.bind (params_named false ins { isRoot := true }) fun (s, as) d => ?_
  refine From.bind (params_named true outs s) fun (s', bs) e => From.pure fun h a ha => ?_
  obtain ha | ha := List.mem_append.1 ha
  · exact h.1.2 a ha
  · exact h.2 a ha

/-! ## Declarations -/

/-- A class is changed. -/
lemma update_all {k : Class} (hc : H → c.program.All K ∧ K k) :
    From c H (modify fun ctx => { ctx with program := ctx.program.update k })
      fun _ d => d.program.All K :=
  From.modify (fun _ => rfl) fun h => (hc h).1.update (hc h).2

/-- A new member variable of a class. -/
lemma addVar_all (hK : DeclarationsKeep K) {r : ClassRef} (hr : r ∈ R) (v : VarSyntax) {t : Ty}
    {c : Context} {H : Prop}
    (hc : H → Tidy K N R c ∧ (r.isSimd → ∀ m d, t = .cls m d → d.isSimd) ∧ t.IsNamed) :
    From c H (do
      match ((← get).program.classOf r).addVar v.name v.pos t with
      | .ok (c, _) => modify fun ctx => { ctx with program := ctx.program.update c }
      | .error prev =>
        report .duplicate v.pos
          ("member '" ++ v.name ++ "' of " ++ r.name ++ " is already declared at " ++
            prev.pos.describe)) fun _ d => d.program.All K := by
  refine From.keeps_bind Keeps.get fun e => ?_
  split
  · rename_i k w hadd
    refine update_all fun ⟨hH, he⟩ => ?_
    subst he
    obtain ⟨⟨hforms, ho⟩, ht, hn⟩ := hc hH
    refine ⟨ho, hK.addVar (ho.classOf hK.of_members r) (fun hs => ht ?_) hn hadd⟩
    rwa [(hforms.classOf_mem hr).2] at hs
  · exact From.report _ _ _

/-- The declaration of a variable keeps what declarations keep. -/
lemma declareVar_all (hK : DeclarationsKeep K) {r : ClassRef} (hr : r ∈ R) (v : VarSyntax) :
    From c (Tidy K N R c) (declareVar r v) fun _ d => d.program.All K := by
  refine From.keeps_bind (resolveType_named v.type) fun t => ?_
  split
  · rename_i m k
    split
    · exact From.report_bind _ _ _ fun d => addVar_all hK hr v (N := N) (t := .failed) False.elim
    · rename_i hsimd
      refine addVar_all hK hr v fun h => ⟨h.1, fun hs m' d hd => ?_, h.2⟩
      obtain ⟨-, rfl⟩ := Ty.cls.inj hd
      simpa [hs] using hsimd
  · rename_i hcls
    exact addVar_all hK hr v fun h => ⟨h.1, fun _ m d hd => (hcls m d hd).elim, h.2⟩

/-- Declarations of variables keep what declarations keep. -/
lemma declareVars_all (hK : DeclarationsKeep K) {r : ClassRef} (hr : r ∈ R) (k : ClassSyntax) :
    Clean (Tidy K N R) (declareVars r k) fun _ => Tidy K N R := by
  refine Clean.forM fun m _ => ?_
  split
  · refine From.clean fun c => ?_
    exact (((declareVar_clean hr _).from And.left).and (declareVar_all hK hr _)).weaken id
      fun _ _ _ h => h
  · exact Clean.pure fun _ h => h

/-- The declaration of a function keeps what declarations keep. -/
lemma declareFunc_all (hK : DeclarationsKeep K) {r : ClassRef} (hr : r ∈ R) (d : FuncSyntax)
    (hc : H → Tidy K N R c) :
    From c H (declareFunc r d) fun _ e => e.program.All K := by
  refine From.bind firstLocal_from fun selfId c1 => ?_
  refine From.bind ((signature_from d.params d.results).and (signature_named d.params d.results))
    fun (scope, sig) c2 => ?_
  refine From.keeps_bind (checkShape_keeps _) fun _ => ?_
  refine From.report_if fun c3 H' hH => ?_
  refine From.keeps_bind Keeps.get fun e => ?_
  split
  · rename_i k f hadd
    refine From.bind (Q := fun _ d => d.program.All K) (update_all fun h => ?_) fun _ _ =>
      From.pure fun h => h.2
    obtain ⟨h, rfl⟩ := h
    obtain ⟨rfl, ⟨⟨⟨hH', rfl, rfl⟩, ⟨-, -, -, -, rfl⟩, hn⟩, -⟩, hcheck⟩ := hH h
    obtain ⟨hforms, ho⟩ := hc hH'
    refine ⟨ho, hK.addFunc (ho.classOf hK.of_members r) rfl (fun hs => ?_) hn hadd⟩
    have hs : d.isSimd = true := hs
    rw [(hforms.classOf_mem hr).2]
    simpa [hs] using hcheck
  · exact From.report_bind _ _ _ fun _ => From.pure False.elim

/-- Declarations of functions keep what declarations keep. -/
lemma declareFuncs_all (hK : DeclarationsKeep K) {r : ClassRef} (hr : r ∈ R) :
    ∀ (ms : List MemberSyntax) {c : Context} {H : Prop}, (H → Tidy K N R c) →
    From c H (declareFuncs r ms) fun _ => Tidy K N R
  | [], c, H, hc => From.pure hc
  | .var _ :: ms, c, H, hc => declareFuncs_all hK hr ms hc
  | .func d :: ms, c, H, hc => by
    refine From.bind ((declareFunc_from hr d fun h => (hc h).1).and (declareFunc_all hK hr d hc))
      fun q c1 => ?_
    refine From.bind (declareFuncs_all hK hr ms fun h => ?_) fun qs c2 => From.pure fun h => h.2
    obtain ⟨-, ⟨x, -, hforms, -⟩, ho⟩ := h
    exact .of_forms hforms ho

/-- Declarations of the functions of all classes keep what declarations keep. -/
lemma declareAllFuncs_all (hK : DeclarationsKeep K) :
    ∀ (cs : List (ClassRef × ClassSyntax)) {c : Context} {H : Prop},
    (∀ x ∈ cs, x.1 ∈ R) → (H → Tidy K N R c) →
    From c H (declareAllFuncs cs) fun _ => Tidy K N R
  | [], c, H, _, hc => From.pure hc
  | (r, k) :: cs, c, H, hR, hc => by
    refine From.bind (declareFuncs_all hK (hR _ List.mem_cons_self) k.members hc) fun qs c1 => ?_
    exact From.bind (declareAllFuncs_all hK cs (fun x hx => hR x (List.mem_cons_of_mem _ hx))
      fun h => h.2) fun qs' c2 => From.pure fun h => h.2

/-- Classes that are entered without members have what declarations keep. -/
lemma declareClasses_all (hK : DeclarationsKeep K) :
    ∀ (cs : List ClassSyntax) {c : Context} {H : Prop},
    (H → c.program.All K) → From c H (declareClasses cs) fun _ d => d.program.All K
  | [], c, H, hc => From.pure hc
  | k :: cs, c, H, hc => by
    refine From.keeps_bind Keeps.get fun d => ?_
    split
    · rename_i p hp
      refine From.bind (Q := fun _ e => e.program.All K) (From.modify (fun _ => rfl) fun h => ?_)
        fun _ e => ?_
      · obtain ⟨hH, rfl⟩ := h
        unfold Program.addClass at hp
        split at hp
        · cases hp
        · obtain rfl := Except.ok.inj hp
          intro x hx
          obtain hx | hx := List.mem_append.1 hx
          · exact hc hH x hx
          · exact List.mem_singleton.1 hx ▸ hK.of_members rfl
      · exact From.bind (declareClasses_all hK cs And.right) fun _ _ =>
          From.pure fun h => h.2
    · exact From.report_bind _ _ _ fun e => declareClasses_all hK cs False.elim

/-- Foreign functions leave the classes alone. -/
lemma declareForeign_all (d : ForeignSyntax) (hc : H → c.program.All K) :
    From c H (declareForeign d) fun _ d => d.program.All K := by
  refine From.bind firstLocal_from fun _ c0 => ?_
  refine From.bind (foreignParams_from d.name false d.params) fun ins c1 => ?_
  refine From.bind (foreignParams_from d.name true d.results) fun outs c2 => ?_
  refine From.report_if fun c3 H' hH => ?_
  refine From.keeps_bind Keeps.get fun e => ?_
  split
  · rename_i p hp
    refine From.modify (fun _ => rfl) fun h => ?_
    obtain ⟨h, rfl⟩ := h
    obtain ⟨rfl, ⟨⟨⟨hH', -, rfl⟩, -, n, rfl⟩, -, m, rfl⟩, -⟩ := hH h
    unfold Program.addForeign at hp
    split at hp
    · cases hp
    · obtain rfl := Except.ok.inj hp
      exact hc hH'
  · exact From.report _ _ _

/-! ## Functions of the compiler -/

/-- An added function of a `simd` class is `simd`. -/
lemma generate_orderly {r : ClassRef} (hr : r ∈ R) (pos : Position) (kind : FuncKind)
    (isCopy : Bool) :
    From c (Tidy Class.Orderly N R c) (generate r pos kind isCopy) fun _ d =>
      d.program.All Class.Orderly := by
  refine From.bind firstLocal_from fun selfId c1 => ?_
  refine From.bind ((generatedSignature_from hr pos isCopy (F := []) (N := N) fun h => ?_).and
    (signature_named _ _)) fun (scope, sig) c2 => ?_
  · obtain ⟨hc, -, rfl⟩ := h
    exact hc.1.renumber _
  refine From.keeps_bind Keeps.get fun e => ?_
  split
  · rename_i d f hadd
    refine update_all fun h => ?_
    obtain ⟨⟨⟨hc, rfl, rfl⟩, ⟨k, -, -, -, -, rfl⟩, hn⟩, rfl⟩ := h
    refine ⟨hc.2, (hc.2.classOf Class.Orderly.of_members r).addFunc (fun hs => ?_) hn hadd⟩
    rw [(hc.1.classOf_mem hr).2]
    exact hs
  · refine From.pure fun h => ?_
    obtain ⟨⟨⟨hc, -, rfl⟩, ⟨k, -, -, -, -, rfl⟩, -⟩, -⟩ := h
    exact hc.2

/-- A generated function keeps a class orderly. -/
lemma generate_tidy {r : ClassRef} (hr : r ∈ R) (pos : Position) (kind : FuncKind)
    (hk : kind = .create ∨ kind = .assign) (isCopy : Bool) :
    Clean (Tidy Class.Orderly N R) (generate r pos kind isCopy) fun _ => Tidy Class.Orderly N R :=
  From.clean fun _ => (((generate_clean hr pos kind hk isCopy).from And.left).and
    (generate_orderly hr pos kind isCopy)).weaken id fun _ _ _ h => h

/-- All functions that are generated keep a class orderly. -/
lemma declareGenerated_orderly {r : ClassRef} (hr : r ∈ R) (pos : Position) :
    Clean (Tidy Class.Orderly N R) (declareGenerated r pos) fun _ => Tidy Class.Orderly N R := by
  have added : Clean (Tidy Class.Orderly N R) (do
      generate r pos .create true
      generate r pos .assign true) fun _ => Tidy Class.Orderly N R :=
    Clean.bind (generate_tidy hr pos .create (.inl rfl) true) fun _ =>
      generate_tidy hr pos .assign (.inr rfl) true
  refine From.clean fun c => From.keeps_bind Keeps.get fun d => ?_
  split
  · exact (Clean.bind (generate_tidy hr pos .create (.inl rfl) false) fun _ => added).from And.left
  · exact added.from And.left

/-! ## Programs -/

/-- The classes and functions that are written, before the compiler adds functions to classes. -/
def writtenDeclarations (tree : ProgramSyntax) :
    Analysis (List (ClassRef × ClassSyntax) × List Pending) := do
  let classes ← declareClasses tree.classes
  classes.forM fun (ref, c) => declareVars ref c
  tree.foreigns.forM declareForeign
  let pending ← declareAllFuncs classes
  return (classes, pending)

/-- The functions of the compiler are added last. -/
lemma declarations_eq (tree : ProgramSyntax) :
    declarations tree = writtenDeclarations tree >>= fun q => do
      q.1.forM fun (ref, c) => declareGenerated ref c.pos
      return q.2 := by
  simp only [declarations, writtenDeclarations, bind_assoc, pure_bind]

/-- **What the written declarations keep** of classes holds of all classes. -/
lemma writtenDeclarations_all (hK : DeclarationsKeep K) (tree : ProgramSyntax) (ds : Diagnostics) :
    From { diagnostics := ds } True (writtenDeclarations tree) fun q d =>
      Tidy K (tree.foreigns.map ForeignSyntax.name) (q.1.map Prod.fst) d := by
  have start : Context.Forms (tree.foreigns.map ForeignSyntax.name) [] []
      ({ diagnostics := ds } : Context) := by
    refine ⟨⟨?_, ?_, ?_, ?_, ?_⟩, ?_, rfl, ?_, rfl, ?_⟩ <;> simp [Program.Declares]
  refine From.bind (((declareClasses_clean tree.classes []).from fun _ => ⟨start, by simp⟩).and
    (declareClasses_all hK tree.classes fun _ _ h => by cases h)) fun cs c => ?_
  have hcs : ∀ x ∈ cs, x.1 ∈ [] ++ cs.map Prod.fst := fun x hx => List.mem_map_of_mem hx
  refine From.bind ((Clean.forM fun x hx => declareVars_all hK (hcs x hx) x.2).from And.right)
    fun _ _ => ?_
  refine From.bind ((Clean.forM fun d hd => From.clean fun c =>
    (((declareForeign_clean d (List.mem_map_of_mem hd)).from And.left).and
      (declareForeign_all d And.right)).weaken id fun _ _ _ h => h).from And.right) fun _ c => ?_
  exact From.bind (declareAllFuncs_all hK cs hcs And.right) fun qs c => From.pure fun h => h.2

/-- The declarations of a program are orderly. -/
lemma declarations_orderly (tree : ProgramSyntax) (ds : Diagnostics) :
    From { diagnostics := ds } True (declarations tree) fun _ d => d.program.All Class.Orderly := by
  rw [declarations_eq]
  refine From.bind (writtenDeclarations_all Class.orderly_keep tree ds) fun (cs, qs) c => ?_
  refine From.bind ((Clean.forM fun x hx =>
    declareGenerated_orderly (List.mem_map_of_mem hx) x.2.pos).from And.right) fun _ c =>
      From.pure fun h => h.2.2

/-- Bodies leave the declarations alone. -/
lemma program_all (tree : ProgramSyntax) (ds : Diagnostics)
    (h : From { diagnostics := ds } True (declarations tree) fun _ d => d.program.All K) :
    From { diagnostics := ds } True (program tree) fun e _ => e.program.All K := by
  rw [program_eq]
  refine From.bind ((declarations_from tree ds).and h) fun qs c => ?_
  refine From.bind (bodies_from qs (fun q hq => List.mem_map_of_mem hq) (fun h => h.2.1.1)
    fun h => h.2.1.2) fun bs c' => ?_
  refine From.keeps_bind (checkBalance_keeps fun h => h.2.1.scopes_nil) fun _ => ?_
  refine From.keeps_bind Keeps.get fun d => From.pure fun h => ?_
  obtain ⟨⟨⟨⟨-, -, ho⟩, -, hprog, -⟩, -⟩, rfl⟩ := h
  exact hprog ▸ ho

end Analysis

/-- **Accepted programs are orderly**. -/
theorem Elaborated.orderly_of_isOk (tree : ProgramSyntax) (ds : Diagnostics)
    (h : (Elaborated.ofSyntax tree ds).1.isOk) :
    (Elaborated.ofSyntax tree ds).1.program.All Class.Orderly :=
  (Analysis.program_all tree ds (Analysis.declarations_orderly tree ds) _ (fun _ => ⟨rfl, trivial⟩)
    (beq_iff_eq.1 h)).2

end Lane
