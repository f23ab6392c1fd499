import Lane.Packing.Program
import Lane.Proofs.Lowering.Program
import Lane.Proofs.Packing.Typed

set_option relaxedAutoImplicit false
set_option autoImplicit false

/-!
# Packed programs are well typed

The functions that packing adds to an accepted program are the packed versions of its tasks, one for
one. Every one of them is well typed on vectors, unless an address differs between the instances.

## Main definitions

* `Lane.Packing.packEnvOf`: what the packing of a program relies on.
* `Lane.Packing.Task.counterparts`: the counterparts of operands in packed versions.

## Main results

* `Lane.Packing.setting_of_mem_tasks`: the functions to pack are regular and well typed.
* `Lane.Accepted.packed_wideTyped_iff`: which functions of a packed program are well typed.
-/

namespace Lane.Lowering

open Code

variable {e : Elaborated} {f g : MemberFunction} {c : FuncDecl} {n : Nat}

/-! ## Identifiers of declarations -/

/-- Declarations are those of the functions of the program. -/
lemma mem_declsFrom {d : FuncDecl} (h : d ∈ (declsFrom e 0 (memberFuncs e)).map Prod.snd) :
    ∃ g n, (memberFuncs e)[n]? = some g ∧ d = memberDecl e g n := by
  obtain ⟨_, hx, rfl⟩ := List.mem_map.1 h
  obtain ⟨⟨g, n⟩, hg, rfl⟩ := List.mem_map.1 hx
  exact ⟨g, n, List.mem_zipIdx_iff_getElem?.1 hg, rfl⟩

/-- **The identifier of a function** is that of no other declaration. -/
lemma eq_memberDecl (hn : ∀ f ∈ e.program.foreigns, IsPlain f.name)
    (hf : (memberFuncs e)[n]? = some f) (hc : c ∈ (declaredOf e).registry.decls)
    (hid : c.id = identifier f n) : c = memberDecl e f n := by
  obtain hc | hc := List.mem_append.1 hc
  · obtain ⟨_, hx, rfl⟩ := List.mem_map.1 hc
    obtain ⟨g, hg, rfl⟩ := List.mem_map.1 hx
    exact absurd (hid ▸ hn g hg) (not_isPlain_identifier f n)
  · obtain ⟨g, m, hg, rfl⟩ := mem_declsFrom hc
    obtain rfl := identifier_injective hid
    obtain rfl := Option.some.inj (hg.symm.trans hf)
    rfl

end Lane.Lowering

namespace Lane.Packing

open Code Lowering

variable {e : Elaborated} {p : LoweredProgram} {l : PackedLayouts} {W : Nat} {t : Task}
  {ts : List Task} {r r' : Registry} {f : MemberFunction} {n : Nat}

/-! ## Declarations -/

/-- The packed declaration of a task. -/
def Task.decl (l : PackedLayouts) (W : Nat) (t : Task) : DeclLanes :=
  declLanes l W t.fn t.scalar.decl

/-- The type of a scalar is not that of addresses. -/
lemma code_scalar_ne_ptr (m : Modifier) (k : ScalarKind) : (Ty.scalar m k).code ≠ .ptr := by
  change VType.scalar k.code ≠ .ptr
  cases k <;> decide

/-- Scalars that are returned differ between the instances, addresses do not. -/
lemma splits_value (t : Ty) : Splits t.code (valueLane t) := by
  cases t with
  | scalar m k => exact iff_of_true rfl (code_scalar_ne_ptr m k)
  | ptr | cls | container | error => exact iff_of_false nofun fun h => h rfl

/-- Scalars that are passed by value differ between the instances, addresses do not. -/
lemma splits_param (l : PackedLayouts) (t : Ty) : Splits (paramType t) (paramLane l t) := by
  cases t with
  | scalar m k =>
    cases m with
    | ref => exact iff_of_false (by simp [paramLane]) fun h => h rfl
    | var | const | cref => exact iff_of_true rfl (code_scalar_ne_ptr .var k)
  | ptr m t =>
    exact iff_of_false (by simp [paramLane, valueLane]) fun h => h (by simp [paramType, Ty.code])
  | cls m c =>
    refine iff_of_false ?_ fun h => h rfl
    simp only [paramLane]
    split <;> decide
  | container | error => exact iff_of_false (by simp [paramLane, valueLane]) fun h => h rfl

/-- **Packed declarations** widen the declarations of functions. -/
lemma declLanes_widens (l : PackedLayouts) (W : Nat) (f : MemberFunction) (n : Nat) :
    (declLanes l W f (memberDecl e f n)).Widens W (memberDecl e f n) where
  params_split := by
    refine List.rel_append ?_ ?_
    · split
      · exact .cons (iff_of_false nofun fun h => h rfl) .nil
      · exact .nil
    · rw [List.forall₂_map_left_iff, List.forall₂_map_right_iff]
      exact List.forall₂_same.2 fun a _ => splits_param l a.type
  params_eq := rfl
  results_split := by
    change List.Forall₂ Splits (List.map _ _) (List.map _ _)
    rw [List.forall₂_map_left_iff, List.forall₂_map_right_iff]
    exact List.forall₂_same.2 fun a _ => splits_value a.type
  results_eq := rfl

/-- What registering a declaration gives. -/
lemma of_register_eq_ok {d : FuncDecl} (h : register r d = .ok r') :
    r'.decls = r.decls ++ [d] := by
  unfold register Registry.declare at h
  split at h
  · rename_i hd
    split at hd
    · cases hd
    · obtain rfl := Except.ok.inj hd
      obtain rfl := Except.ok.inj h
      rfl
  · cases h

/-- **All packed versions are declared**, and nothing is lost. -/
lemma of_declareAll_eq_ok (l : PackedLayouts) (W : Nat) : ∀ {ts : List Task} {r r' : Registry}
    {ds : List (String × DeclLanes)}, declareAll l W ts r = .ok (r', ds) →
    ds = ts.map (fun t => (t.scalar.decl.id, t.decl l W)) ∧ r.decls ⊆ r'.decls ∧
      ∀ t ∈ ts, (t.decl l W).decl ∈ r'.decls
  | [], r, r', ds, h => by
    obtain ⟨rfl, rfl⟩ := Prod.mk.inj (Except.ok.inj h)
    exact ⟨rfl, List.Subset.refl _, List.forall_mem_nil _⟩
  | t :: ts, r, r', ds, h => by
    obtain ⟨r₁, hreg, h⟩ := of_bind_eq_ok h
    obtain ⟨q, hrest, h⟩ := of_bind_eq_ok h
    obtain ⟨rfl, rfl⟩ := Prod.mk.inj (Except.ok.inj h)
    obtain ⟨hds, hsub, hall⟩ := of_declareAll_eq_ok l W hrest
    have hsub : r₁.decls ⊆ q.1.decls := hsub
    rw [of_register_eq_ok hreg] at hsub
    refine ⟨by rw [hds]; rfl, fun d hd => hsub (List.mem_append_left _ hd),
      List.forall_mem_cons.2 ⟨hsub (List.mem_append_right _ List.mem_cons_self), hall⟩⟩

/-! ## Packed functions -/

/-- What packing the functions of a program relies on. -/
def packEnvOf (e : Elaborated) (p : LoweredProgram) (l : PackedLayouts) : PackEnv :=
  ⟨l, (tasks e p l).map fun t => (t.scalar.decl.id, t.decl l p.width), p.width⟩

/-- The lanes of the operands of a task. -/
def Task.lanes (e : Elaborated) (p : LoweredProgram) (l : PackedLayouts) (t : Task) : Lanes :=
  Lanes.ofFunction (packEnvOf e p l) (t.decl l p.width) t.scalar

/-- The packed layouts of a program. -/
def layoutsOf (e : Elaborated) (p : LoweredProgram) (ds : Diagnostics) : PackedLayouts :=
  packAll e.program p.layouts p.width ds

/-- What the packed version of a task is made with. -/
def Task.widenEnv (e : Elaborated) (p : LoweredProgram) (ds : Diagnostics) (t : Task) : WidenEnv :=
  ⟨packEnvOf e p (layoutsOf e p ds), t.lanes e p (layoutsOf e p ds)⟩

/-- The counterparts of operands in the packed version of a task. -/
def Task.counterparts (e : Elaborated) (p : LoweredProgram) (ds : Diagnostics) (t : Task) :
    List (Operand × Operand) :=
  counterpartsOf (t.widenEnv e p ds) t.scalar

/-- Packing reports what it cannot pack, and takes nothing back. -/
lemma errors_le_packFunctions (env : PackEnv) : ∀ (ts : List Task) (r : PackedFunctions),
    r.errors ≤ (packFunctions env ts r).errors
  | [], _ => Nat.le_refl _
  | t :: ts, r => by
    unfold packFunctions
    split
    · exact Nat.le_refl _
    · split
      · refine Nat.le_trans ?_ (errors_le_packFunctions env ts _)
        exact Nat.le_refl _
      · refine Nat.le_trans ?_ (errors_le_packFunctions env ts _)
        exact Nat.le_succ _
      · exact Nat.le_refl _

/-- **Packed functions** are added one for one if there is no error. -/
lemma of_packFunctions (env : PackEnv) : ∀ (ts : List Task) (r : PackedFunctions),
    (packFunctions env ts r).errors = 0 → (packFunctions env ts r).fault = none →
    ∃ gs, (packFunctions env ts r).functions = r.functions ++ gs ∧
      List.Forall₂ (fun t g => ∃ d, env.packed? t.scalar.decl = some d ∧
        packFunction env d t.scalar = .ok g) ts gs
  | [], r, _, _ => ⟨[], by simp [packFunctions], .nil⟩
  | t :: ts, r, herr, hfault => by
    unfold packFunctions at herr hfault ⊢
    split
    · rename_i hnone
      simp [hnone] at hfault
    rename_i d hd
    simp only [hd] at herr hfault
    split
    · rename_i g hg
      simp only [hg] at herr hfault
      obtain ⟨gs, hgs, hall⟩ := of_packFunctions env ts _ herr hfault
      exact ⟨g :: gs, by rw [hgs, List.append_assoc]; rfl, .cons ⟨d, hd, hg⟩ hall⟩
    · rename_i o ho
      simp only [ho] at herr
      have hle := errors_le_packFunctions env ts { r with
        diagnostics := r.diagnostics.push (o.report t.fn), errors := r.errors + 1 }
      rw [herr] at hle
      cases hle
    · rename_i x hx
      simp [hx] at hfault

/-- **Packed programs**: a packed function for each task, and their declarations. -/
lemma of_pack_eq_ok {ds : Diagnostics} {q : PackedProgram} (h : (p.pack e ds).2 = .ok q)
    (hok : q.isOk) (hl : l = layoutsOf e p ds) :
    ∃ gs, q.module.functions = p.module.functions ++ gs ∧
      p.module.registry.decls ⊆ q.module.registry.decls ∧
      (∀ t ∈ tasks e p l, (t.decl l p.width).decl ∈ q.module.registry.decls) ∧
      List.Forall₂ (fun t g => ∃ d, (packEnvOf e p l).packed? t.scalar.decl = some d ∧
        packFunction (packEnvOf e p l) d t.scalar = .ok g) (tasks e p l) gs := by
  subst hl
  unfold LoweredProgram.pack at h
  extract_lets l ts at h
  cases hdecl : declareAll l p.width ts p.module.registry with
  | error x =>
    rw [hdecl] at h
    cases h
  | ok r =>
    obtain ⟨registry, decls⟩ := r
    obtain ⟨rfl, hsub, hall⟩ := of_declareAll_eq_ok l p.width hdecl
    rw [hdecl] at h
    simp only at h
    split at h
    · cases h
    · rename_i hfault
      obtain rfl := Except.ok.inj h
      have herr := (Nat.add_eq_zero_iff.1 (beq_iff_eq.1 hok)).2
      obtain ⟨gs, hgs, hpacked⟩ := of_packFunctions _ _ _ herr hfault
      exact ⟨gs, by rw [hgs]; rfl, hsub, hall, hpacked⟩

/-! ## The functions to pack -/

/-- **The functions to pack**: functions of the program that the compiler did not add, with the code
under their number. -/
structure IsTask (e : Elaborated) (p : LoweredProgram) (t : Task) (n : Nat) : Prop where
  getElem?_eq : (memberFuncs e)[n]? = some t.fn
  function_eq : function (envOf e p.layouts p.width (memberDecl e t.fn n)) e t.fn = .ok t.scalar
  not_generated : t.fn.isGenerated = false
  clean : e.isClean t.fn

/-- A task has the declaration of its function. -/
lemma IsTask.decl_eq (h : IsTask e p t n) : t.scalar.decl = memberDecl e t.fn n :=
  decl_of_function_eq_ok h.function_eq

/-- The identifier of the code tells tasks apart. -/
lemma IsTask.eq_of_id_eq {t' : Task} {m : Nat} (h : IsTask e p t n) (h' : IsTask e p t' m)
    (hid : t.scalar.decl.id = t'.scalar.decl.id) : t = t' := by
  rw [h.decl_eq, h'.decl_eq] at hid
  obtain rfl := identifier_injective hid
  obtain ⟨f, g⟩ := t
  obtain ⟨f', g'⟩ := t'
  obtain rfl : f = f' := Option.some.inj (h.getElem?_eq.symm.trans h'.getElem?_eq)
  obtain rfl : g = g' := Except.ok.inj (h.function_eq.symm.trans h'.function_eq)
  rfl

/-- A packed version that is found is that of a task. -/
lemma exists_of_packed? {c : FuncDecl} {d : DeclLanes} (h : (packEnvOf e p l).packed? c = some d) :
    ∃ t ∈ tasks e p l, t.scalar.decl.id = c.id ∧ t.decl l p.width = d := by
  have hmem : (c.id, d) ∈ (tasks e p l).map fun t => (t.scalar.decl.id, t.decl l p.width) := by
    obtain ⟨l₁, l₂, heq, -⟩ := List.lookup_eq_some_iff.1 h
    rw [show (tasks e p l).map _ = l₁ ++ (c.id, d) :: l₂ from heq]
    exact List.mem_append_right _ List.mem_cons_self
  obtain ⟨t, ht, heq⟩ := List.mem_map.1 hmem
  exact ⟨t, ht, Prod.mk.inj heq⟩

end Lane.Packing

namespace Lane.Elaborated.Typed

open Code Lowering Packing

variable {name : String} {e : Elaborated} {width : Int} {ds : Diagnostics} {p : LoweredProgram}
  {l : PackedLayouts} {t : Task}

/-- **What the tasks are**.

**Proof sketch.** The code is found by the identifier of the declaration, which ends in the number
of the function. -/
lemma isTask_of_mem (h : e.Typed) (hp : (e.lower name width ds).2 = .ok p)
    (hok : p.isOk) (ht : t ∈ tasks e p l) : ∃ n, IsTask e p t n := by
  obtain ⟨-, -, hdeclared, -, hall⟩ := h.of_lower_isOk hp hok
  obtain ⟨f, hf, ht⟩ := List.mem_filterMap.1 ht
  split at ht
  · rename_i hcond
    simp only [Bool.and_eq_true, Bool.not_eq_true'] at hcond
    obtain ⟨⟨-, hgen⟩, hclean⟩ := hcond
    obtain ⟨d, hd, ht⟩ := Option.bind_eq_some_iff.1 ht
    obtain ⟨scalar, hscalar, ht⟩ := Option.bind_eq_some_iff.1 ht
    obtain rfl := Option.some.inj ht
    have hdecl : e.program.Declares f := by
      obtain ⟨c, hc, hfc⟩ := List.mem_flatMap.1 hf
      exact ⟨c, (List.mem_filter.1 hc).1, hfc⟩
    obtain ⟨n, hget, hn⟩ := exists_number h.program_wf hdecl
    rw [hdeclared, hn] at hd
    obtain rfl := Option.some.inj hd
    have hfound := List.find?_some hscalar
    have hid : scalar.decl.id = identifier f n := beq_iff_eq.1 hfound
    obtain ⟨g, -, m, hg, hfn⟩ := exists_of_forall₂ hall.flip (List.mem_of_find?_eq_some hscalar)
    obtain rfl : m = n := by
      rw [decl_of_function_eq_ok hfn] at hid
      exact identifier_injective hid
    obtain rfl := Option.some.inj (hg.symm.trans hget)
    exact ⟨m, hget, hfn, hgen, hclean⟩
  · cases ht

/-- A task is packed as it is declared. -/
lemma decl_of_packed? (h : e.Typed) (hp : (e.lower name width ds).2 = .ok p)
    (hok : p.isOk) (ht : t ∈ tasks e p l) {d : DeclLanes}
    (hd : (packEnvOf e p l).packed? t.scalar.decl = some d) : d = t.decl l p.width := by
  obtain ⟨t', ht', hid, rfl⟩ := exists_of_packed? hd
  obtain ⟨n, hn⟩ := h.isTask_of_mem hp hok ht
  obtain ⟨m, hm⟩ := h.isTask_of_mem hp hok ht'
  rw [hm.eq_of_id_eq hn hid]

end Lane.Elaborated.Typed

namespace Lane.Accepted

open Code Lowering Packing

variable {file name : String} {text : List Rune} {e : Elaborated} {width : Int}
  {ds ds' : Diagnostics} {p : LoweredProgram} {l : PackedLayouts} {t : Task}

/-- The names of foreign functions are no identifiers of member functions. -/
lemma isPlain_foreign (h : Accepted file text e) : ∀ f ∈ e.program.foreigns, IsPlain f.name := by
  intro f hf
  obtain ⟨tree, ds, hparse, rfl, hok⟩ := h
  obtain ⟨g, hg, hname⟩ := List.mem_map.1 ((Elaborated.typed_of_isOk tree ds hok).2 f hf)
  exact hname ▸ ProgramSyntax.isPlain_of_parse (by rw [hparse]) g hg

/-- **What packing relies on**: the functions to pack are regular and well typed, the packed layouts
represent the values in memory, and the packed versions of functions are declared. -/
lemma setting_of_mem (h : Accepted file text e) (hp : (e.lower name width ds).2 = .ok p)
    (hok : p.isOk) (hW : 2 ≤ p.width) (hl : l = layoutsOf e p ds') {D : FuncDecl → Prop}
    (hD : ∀ d ∈ p.module.registry.decls, D d)
    (hpacked : ∀ t ∈ tasks e p l, D (t.decl l p.width).decl) (ht : t ∈ tasks e p l) :
    Setting (· ∈ p.module.registry.decls) D p.layouts (t.decl l p.width) t.scalar
        ⟨packEnvOf e p l, t.lanes e p l⟩ ∧
      t.scalar.WellTyped (· ∈ p.module.registry.decls) ∧
      (t.decl l p.width).Widens p.width t.scalar.decl := by
  obtain ⟨-, hlayouts, -, hregistry, -⟩ := h.typed.of_lower_isOk hp hok
  obtain ⟨hcomplete, -, -, -⟩ := h.lower_isOk hp hok
  obtain ⟨n, hn⟩ := h.typed.isTask_of_mem hp hok ht
  have hdeclares : e.program.Declares t.fn :=
    mem_memberFuncs.1 (List.mem_of_getElem? hn.getElem?_eq)
  have htyped : t.scalar.WellTyped (· ∈ p.module.registry.decls) := by
    rw [hregistry]
    refine (IsCodeOf.spec ⟨n, hn.function_eq⟩ h.typed hcomplete hdeclares hn.clean).1.2 ?_
    exact fun hgen => absurd hgen (by simp [hn.not_generated])
  have hwidens : ∀ {t : Task} {n : Nat}, IsTask e p t n →
      (t.decl l p.width).Widens p.width t.scalar.decl := by
    intro t n hn
    rw [Task.decl, hn.decl_eq]
    exact declLanes_widens l p.width t.fn n
  refine ⟨⟨regular_of_function hn.function_eq, fun i hi => htyped.body_typed i ?_, hW, rfl, ?_, ?_,
    hD⟩, htyped, hwidens hn⟩
  · exact (((List.takeWhile_sublist _).trans (List.drop_sublist ..)).trans
      (List.dropWhile_sublist _)).mem hi
  · intro o off last ho h'
    have h' : l.offset? o = some (off, last) := h'
    rw [hl, layoutsOf, hlayouts] at h'
    rw [hlayouts] at ho
    exact offset?_represents h.typed.program_wf ds ds' ho h'
  · intro c d hc hd
    obtain ⟨t', ht', hid, rfl⟩ := exists_of_packed? hd
    obtain ⟨m, hm⟩ := h.typed.isTask_of_mem hp hok ht'
    have hceq : c = t'.scalar.decl := by
      rw [hm.decl_eq] at hid ⊢
      exact eq_memberDecl h.isPlain_foreign hm.getElem?_eq (hregistry ▸ hc) hid.symm
    exact ⟨hceq ▸ hwidens hm, hpacked t' ht'⟩

/-- Packed functions are made of tasks on which packing may rely. -/
lemma forall₂_of_pack (h : Accepted file text e) (hp : (e.lower name width ds).2 = .ok p)
    (hok : p.isOk) (hW : 2 ≤ p.width) {q : PackedProgram} (hq : (p.pack e ds').2 = .ok q)
    (hqok : q.isOk) (hl : l = layoutsOf e p ds') :
    ∃ gs, q.module.functions = p.module.functions ++ gs ∧
      List.Forall₂ (fun t g => packFunction (packEnvOf e p l) (t.decl l p.width) t.scalar = .ok g ∧
        Setting (· ∈ p.module.registry.decls) (· ∈ q.module.registry.decls) p.layouts
          (t.decl l p.width) t.scalar ⟨packEnvOf e p l, t.lanes e p l⟩ ∧
        t.scalar.WellTyped (· ∈ p.module.registry.decls) ∧
        (t.decl l p.width).Widens p.width t.scalar.decl) (tasks e p l) gs := by
  obtain ⟨gs, hgs, hsub, hdecls, hall⟩ := of_pack_eq_ok hq hqok hl
  have hmem := (List.forall₂_and_left (p := (· ∈ tasks e p l)) _ _).2 ⟨fun _ => id, hall⟩
  refine ⟨gs, hgs, hmem.imp fun t g ⟨ht, d, hd, hg⟩ => ⟨?_, ?_⟩⟩
  · rwa [h.typed.decl_of_packed? hp hok ht hd] at hg
  · exact h.setting_of_mem hp hok hW hl (fun _ hd => hsub hd) hdecls ht

/-- **Which packed functions are well typed**: those in which no address differs between the
instances. -/
theorem packed_wideTyped_iff (h : Accepted file text e) (hp : (e.lower name width ds).2 = .ok p)
    (hok : p.isOk) (hW : 2 ≤ p.width) {q : PackedProgram} (hq : (p.pack e ds').2 = .ok q)
    (hqok : q.isOk) :
    ∃ gs, q.module.functions = p.module.functions ++ gs ∧
      List.Forall₂ (fun t g => g.WideTyped p.width (· ∈ q.module.registry.decls) ↔
          ∀ o ∈ t.scalar.addresses, (t.lanes e p (layoutsOf e p ds')).get o ≠ .varying)
        (tasks e p (layoutsOf e p ds')) gs := by
  obtain ⟨gs, hgs, hall⟩ := h.forall₂_of_pack hp hok hW hq hqok rfl
  exact ⟨gs, hgs, hall.imp fun t g ⟨hg, hs, htyped, hwidens⟩ =>
    packFunction_wideTyped_iff hs htyped hwidens hg⟩

/-- The program of an ASCII text, its code, and its packed code. -/
def vectorize? (text : String) : Option (Elaborated × LoweredProgram × PackedProgram) := do
  let (e, p) ← compile? text
  let q ← (p.pack e {}).2.toOption
  return (e, p, q)

/-- What is vectorized was accepted, lowered and packed. -/
lemma of_vectorize? {text : String} {q : PackedProgram} (h : vectorize? text = some (e, p, q)) :
    Accepted "" (Rune.ascii text) e ∧ (e.lower "" 0 {}).2 = .ok p ∧ (p.pack e {}).2 = .ok q := by
  simp only [vectorize?, Option.bind_eq_bind, Option.bind_eq_some_iff, Option.pure_def,
    Option.some.injEq, Prod.exists, Prod.mk.injEq] at h
  obtain ⟨e', p', hc, q', hq, rfl, rfl, rfl⟩ := h
  refine ⟨(of_compile? hc).1, (of_compile? hc).2, ?_⟩
  revert hq
  cases (p'.pack e' {}).2 with
  | error => exact nofun
  | ok r => exact fun hq => congrArg _ (Option.some.inj hq)

/-- A `simd` function that doubles a member. -/
def doubles : String :=
  "simd class P { var x: real; simd writer w() { self.x = self.x + self.x; } }"

/-- Packed functions that are well typed: no addresses differ between the instances. -/
theorem packed_wideTyped_iff_double : ∃ e p q, vectorize? doubles = some (e, p, q) ∧
    p.isOk ∧ 2 ≤ p.width ∧ q.isOk ∧
    p.module.functions.length < q.module.functions.length ∧
    ∃ gs, q.module.functions = p.module.functions ++ gs ∧
      List.Forall₂ (fun t g => g.WideTyped p.width (· ∈ q.module.registry.decls) ↔
          ∀ o ∈ t.scalar.addresses, (t.lanes e p (layoutsOf e p {})).get o ≠ .varying)
        (tasks e p (layoutsOf e p {})) gs := by
  have hrun : (vectorize? doubles).any fun (_, p, q) =>
      p.isOk && decide (2 ≤ p.width) && q.isOk &&
        decide (p.module.functions.length < q.module.functions.length) := by
    rw [vectorize?, compile?, doubles, Rune.ascii_ofList]
    decide +kernel
  obtain ⟨⟨e, p, q⟩, hv, hrun⟩ := (Option.any_eq_true ..).1 hrun
  simp only [Bool.and_eq_true, decide_eq_true_eq] at hrun
  obtain ⟨⟨⟨hok, hW⟩, hqok⟩, hlen⟩ := hrun
  obtain ⟨hacc, hp, hq⟩ := of_vectorize? hv
  exact ⟨e, p, q, hv, hok, hW, hqok, hlen, hacc.packed_wideTyped_iff hp hok hW hq hqok⟩

/-- Addresses are scalars in well-typed code on vectors. -/
lemma isVector_of_mem_addresses {W : Nat} {D : FuncDecl → Prop} {i : Instr}
    (hi : i.WideTyped W D) {a : Operand} (ha : a ∈ i.addresses) : a.type.isVector = false := by
  cases i with
  | load d p o =>
    obtain rfl := List.mem_singleton.1 ha
    rw [hi.2.1.2]
    rfl
  | store p o b =>
    obtain rfl := List.mem_singleton.1 ha
    rw [hi.2.1.2]
    rfl
  | lea d p o =>
    obtain rfl := List.mem_singleton.1 ha
    rw [hi.2.2.2]
    rfl
  | _ => cases ha

/-- A `simd` function that writes through the addresses in a packed member. -/
def writesThrough : String :=
  "simd class P { var p: ptr{int};
    simd writer w() { var q: ptr{ptr{int}} = self.p; q^^ = 1; } }"

/-- A packed function that is not well typed: it writes to the addresses in a packed member. -/
theorem not_wideTyped_pointers : ∃ e p q, vectorize? writesThrough = some (e, p, q) ∧
    p.isOk ∧ q.isOk ∧
    ∃ g ∈ q.module.functions.drop p.module.functions.length,
      ¬g.WideTyped p.width (· ∈ q.module.registry.decls) := by
  have hrun : (vectorize? writesThrough).any fun (_, p, q) =>
      p.isOk && q.isOk &&
        (q.module.functions.drop p.module.functions.length).any fun g =>
          g.body.any fun i => i.addresses.any fun a => a.type.isVector := by
    rw [vectorize?, compile?, writesThrough, Rune.ascii_ofList]
    decide +kernel
  obtain ⟨⟨e, p, q⟩, hv, hrun⟩ := (Option.any_eq_true ..).1 hrun
  simp only [Bool.and_eq_true] at hrun
  obtain ⟨⟨hok, hqok⟩, hrun⟩ := hrun
  obtain ⟨g, hg, hbody⟩ := List.any_eq_true.1 hrun
  obtain ⟨i, hi, haddress⟩ := List.any_eq_true.1 hbody
  obtain ⟨a, ha, hvector⟩ := List.any_eq_true.1 haddress
  refine ⟨e, p, q, hv, hok, hqok, g, hg, fun hw => ?_⟩
  simp [isVector_of_mem_addresses (hw.body_typed i hi) ha] at hvector

end Lane.Accepted
