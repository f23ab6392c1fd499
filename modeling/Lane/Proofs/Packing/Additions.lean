import Lane.Proofs.Analysis.Complete
import Lane.Proofs.Analysis.Members
import Lane.Proofs.Packing.Complete
import Lane.Proofs.Packing.Total

set_option relaxedAutoImplicit false
set_option autoImplicit false

/-!
# Packing only adds

Packing keeps all that a program has, and puts packed layouts, declarations and functions after it.
Every `simd` function is tried: either its packed version is added, or one error is reported. What
becomes of a function depends on its own code and on declarations, so that a function which has no
packed version is in the way of no other.

## Main definitions

* `Lane.Packing.Task.outcome`: what becomes of a function that is to be packed.
* `Lane.LoweredProgram.withCode`: a program with other code for one of its functions.
* `Lane.LoweredProgram.Adds`: packed programs that add to a program.

## Main results

* `Lane.Packing.packFunctions_eq`: packing functions one after the other.
* `Lane.Accepted.map_fn_tasks`: the functions to pack are the `simd` functions that were written.
* `Lane.Accepted.pack_adds`: packing adds to an accepted program.
-/

namespace Lane

open Code Lowering Packing

/-! ## Outcomes -/

namespace Packing

variable {env : PackEnv} {t : Task} {ts : List Task} {r : PackedFunctions}

/-- **What becomes of a function**: its packed version, or why there is none. -/
def Task.outcome (env : PackEnv) (t : Task) : Except Stop Function :=
  match env.packed? t.scalar.decl with
  | none => .error (.fault .missing)
  | some d => packFunction env d t.scalar

/-- The packed version of a function, if there is one. -/
def Task.version? (env : PackEnv) (t : Task) : Option Function := (t.outcome env).toOption

/-- The error about a function that has no packed version. -/
def Task.report? (env : PackEnv) (t : Task) : Option Diagnostic :=
  match t.outcome env with
  | .error (.obstacle o) => some (o.report t.fn)
  | _ => none

/-- A packed version has the packed declaration of the function. -/
lemma decl_of_packFunction_eq_ok {d : DeclLanes} {f g : Function}
    (h : packFunction env d f = .ok g) : g.decl = d.decl := by
  obtain ⟨_, _, _, -, -, -, hg⟩ := of_packFunction_eq_ok h
  rw [hg]

/-- A packed version is made for a packed declaration that is found. -/
lemma of_version? {g : Function} (h : t.version? env = some g) :
    ∃ d, env.packed? t.scalar.decl = some d ∧ packFunction env d t.scalar = .ok g := by
  unfold Task.version? Task.outcome at h
  split at h
  · cases h
  · rename_i d hd
    cases hpack : packFunction env d t.scalar with
    | error =>
      rw [hpack] at h
      cases h
    | ok g' =>
      rw [hpack] at h
      obtain rfl := Option.some.inj h
      exact ⟨d, hd, hpack⟩

/-- **Functions are packed one after the other**, and each adds its packed version or an error. -/
lemma packFunctions_eq (env : PackEnv) : ∀ (ts : List Task) (r : PackedFunctions),
    r.fault = none → (packFunctions env ts r).fault = none →
    packFunctions env ts r =
      { functions := r.functions ++ ts.filterMap (Task.version? env)
        diagnostics := r.diagnostics.append (ts.filterMap (Task.report? env))
        errors := r.errors + (ts.filterMap (Task.report? env)).length
        fault := none } ∧
      ∀ t ∈ ts, ∀ x, t.outcome env ≠ .error (.fault x)
  | [], r, hr, _ => by
    refine ⟨?_, List.forall_mem_nil _⟩
    obtain ⟨functions, diagnostics, errors, fault⟩ := r
    obtain rfl : fault = none := hr
    simp [packFunctions, Diagnostics.append_nil]
  | t :: ts, r, hr, hfault => by
    unfold packFunctions at hfault ⊢
    cases hd : env.packed? t.scalar.decl with
    | none => simp [hd] at hfault
    | some d =>
      rw [hd] at hfault
      dsimp only at hfault ⊢
      have houtcome : t.outcome env = packFunction env d t.scalar := by rw [Task.outcome, hd]
      -- A task has a version or is reported. A fault would have stopped the packing of all.
      cases hpack : packFunction env d t.scalar with
      | ok g =>
        rw [hpack] at hfault houtcome
        obtain ⟨heq, hts⟩ := packFunctions_eq env ts _ (by exact hr) hfault
        refine ⟨?_, List.forall_mem_cons.2 ⟨fun x hx => by simp [houtcome] at hx, hts⟩⟩
        have hversion : t.version? env = some g := by rw [Task.version?, houtcome]; rfl
        have hreport : t.report? env = none := by rw [Task.report?, houtcome]
        rw [List.filterMap_cons_some hversion, List.filterMap_cons_none hreport]
        simpa using heq
      | error y =>
        cases y with
        | obstacle o =>
          rw [hpack] at hfault houtcome
          obtain ⟨heq, hts⟩ := packFunctions_eq env ts _ (by exact hr) hfault
          refine ⟨?_, List.forall_mem_cons.2 ⟨fun x hx => by simp [houtcome] at hx, hts⟩⟩
          have hversion : t.version? env = none := by rw [Task.version?, houtcome]; rfl
          have hreport : t.report? env = some (o.report t.fn) := by rw [Task.report?, houtcome]
          rw [List.filterMap_cons_none hversion, List.filterMap_cons_some hreport]
          refine heq.trans ?_
          rw [List.length_cons, ← Nat.add_assoc, Nat.add_right_comm]
          congr 1
          simp [Diagnostics.append, Diagnostics.push]
        | fault x =>
          rw [hpack] at hfault
          simp at hfault

/-- **The registry after all packed versions are declared**. -/
lemma registry_of_declareAll (l : PackedLayouts) (W : Nat) : ∀ {ts : List Task} {r r' : Registry}
    {ds : List (String × DeclLanes)}, declareAll l W ts r = .ok (r', ds) →
    r' = ⟨r.decls ++ ts.map fun t => (t.decl l W).decl,
      (ts.map fun t => (t.scalar.decl.id, (t.decl l W).decl)).reverse ++ r.packed⟩
  | [], r, r', ds, h => by
    obtain ⟨rfl, rfl⟩ := Prod.mk.inj (Except.ok.inj h)
    simp
  | t :: ts, r, r', ds, h => by
    obtain ⟨r₁, hreg, h⟩ := of_bind_eq_ok h
    obtain ⟨q, hrest, h⟩ := of_bind_eq_ok h
    obtain ⟨rfl, -⟩ := Prod.mk.inj (Except.ok.inj h)
    have hdecls := of_register_eq_ok hreg
    have hpacked : r₁.packed = r.packed := by
      unfold register Registry.declare at hreg
      split at hreg
      · rename_i hd
        split at hd
        · cases hd
        · obtain rfl := Except.ok.inj hd
          obtain rfl := Except.ok.inj hreg
          rfl
      · cases hreg
    rw [registry_of_declareAll l W hrest]
    simp [Registry.mapPacked, hdecls, hpacked, Task.decl]

end Packing

/-! ## Programs -/

/-- **What a packed program has**: all that the program has, and after it the packed layouts, the
packed declarations and the packed versions of functions. -/
structure PackedProgram.IsPackedFrom (q : PackedProgram) (e : Elaborated) (p : LoweredProgram)
    (l : PackedLayouts) : Prop where
  name_eq : q.module.name = p.module.name
  registry_eq : q.module.registry =
    ⟨p.module.registry.decls ++ (tasks e p l).map fun t => (t.decl l p.width).decl,
      ((tasks e p l).map fun t => (t.scalar.decl.id, (t.decl l p.width).decl)).reverse ++
        p.module.registry.packed⟩
  structs_eq : q.module.structs = p.module.structs ++ l.structs
  functions_eq : q.module.functions =
    p.module.functions ++ (tasks e p l).filterMap (Task.version? (packEnvOf e p l))
  isOk_eq : q.isOk =
    (l.errors + ((tasks e p l).filterMap (Task.report? (packEnvOf e p l))).length == 0)

/-- **Packing a program**. -/
lemma LoweredProgram.of_pack {p : LoweredProgram} {e : Elaborated} {ds : Diagnostics}
    {q : PackedProgram} {l : PackedLayouts} (h : (p.pack e ds).2 = .ok q)
    (hl : l = layoutsOf e p ds) : q.IsPackedFrom e p l ∧
      (p.pack e ds).1 =
        l.diagnostics.append ((tasks e p l).filterMap (Task.report? (packEnvOf e p l))) ∧
      ∀ t ∈ tasks e p l, ∀ x, t.outcome (packEnvOf e p l) ≠ .error (.fault x) := by
  subst hl
  revert h
  unfold LoweredProgram.pack
  extract_lets l ts
  intro h
  cases hdecl : declareAll l p.width ts p.module.registry with
  | error x =>
    rw [hdecl] at h
    cases h
  | ok r =>
    obtain ⟨registry, decls⟩ := r
    obtain ⟨rfl, -⟩ := of_declareAll_eq_ok l p.width hdecl
    have hregistry := registry_of_declareAll l p.width hdecl
    rw [hdecl] at h
    simp only at h ⊢
    split at h
    · cases h
    · rename_i hfault
      obtain rfl := Except.ok.inj h
      obtain ⟨heq, hall⟩ := packFunctions_eq (packEnvOf e p l) ts { diagnostics := l.diagnostics }
        rfl hfault
      have hfunctions := (congrArg PackedFunctions.functions heq).trans (List.nil_append _)
      have herrors := (congrArg PackedFunctions.errors heq).trans (Nat.zero_add _)
      exact ⟨⟨rfl, hregistry, rfl, congrArg (p.module.functions ++ ·) hfunctions,
        congrArg (l.errors + · == 0) herrors⟩, congrArg PackedFunctions.diagnostics heq, hall⟩

/-! ## Other code for a function -/

/-- **A program with other code for one of its functions**: the function with the same
declaration. -/
def LoweredProgram.withCode (p : LoweredProgram) (fn : Function) : LoweredProgram :=
  { p with
    module := { p.module with
      functions := p.module.functions.map fun g => if g.decl = fn.decl then fn else g } }

namespace Packing

variable {e : Elaborated} {p : LoweredProgram} {l : PackedLayouts} {fn : Function} {t : Task}
  {ts : List Task}

/-- A function to pack with other code, if its declaration is the same. -/
def Task.withCode (fn : Function) (t : Task) : Task :=
  { t with scalar := if t.scalar.decl = fn.decl then fn else t.scalar }

/-- Code is set for the function of its own declaration only. -/
lemma Task.withCode_of_ne (h : t.scalar.decl ≠ fn.decl) : t.withCode fn = t := by
  rw [Task.withCode, if_neg h]

/-- Setting code keeps the declaration. -/
lemma Task.decl_withCode (fn : Function) (t : Task) :
    (t.withCode fn).scalar.decl = t.scalar.decl := by
  unfold Task.withCode
  split
  · exact Eq.symm ‹_›
  · rfl

/-- A function is found as before, or has the other code. -/
lemma function?_withCode (p : LoweredProgram) (fn : Function) (id : String) :
    (p.withCode fn).module.function? id =
      (p.module.function? id).map fun g => if g.decl = fn.decl then fn else g := by
  unfold LoweredProgram.withCode Module.function?
  rw [List.find?_map]
  congr 2
  funext g
  simp only [Function.comp_apply]
  split
  · rw [‹g.decl = fn.decl›]
  · rfl

/-- The code of a task is found. -/
lemma function?_of_mem_tasks (ht : t ∈ tasks e p l) :
    p.module.function? t.scalar.decl.id = some t.scalar := by
  obtain ⟨f, -, ht⟩ := List.mem_filterMap.1 ht
  split at ht
  · obtain ⟨d, -, ht⟩ := Option.bind_eq_some_iff.1 ht
    obtain ⟨scalar, hscalar, ht⟩ := Option.bind_eq_some_iff.1 ht
    obtain rfl := Option.some.inj ht
    have hid := List.find?_some hscalar
    rw [beq_iff_eq] at hid
    exact hid ▸ hscalar
  · cases ht

/-- The same functions are to be packed. -/
lemma tasks_withCode (e : Elaborated) (p : LoweredProgram) (l : PackedLayouts) (fn : Function) :
    tasks e (p.withCode fn) l = (tasks e p l).map (Task.withCode fn) := by
  unfold tasks
  extract_lets classes
  rw [List.map_filterMap]
  refine List.filterMap_congr fun f _ => ?_
  simp only [function?_withCode]
  split
  · show (p.declared.decls.lookup (f.cls.id, f.index) >>= _) = _
    cases p.declared.decls.lookup (f.cls.id, f.index) with
    | none => rfl
    | some d =>
      show (Option.map _ (p.module.function? d.id) >>= _) =
        Option.map _ (p.module.function? d.id >>= _)
      cases p.module.function? d.id <;> rfl
  · rfl

/-- The packing relies on the same declarations. -/
lemma packEnvOf_withCode (e : Elaborated) (p : LoweredProgram) (l : PackedLayouts) (fn : Function) :
    packEnvOf e (p.withCode fn) l = packEnvOf e p l := by
  unfold packEnvOf
  rw [tasks_withCode, List.map_map]
  have heq : (fun t : Task => (t.scalar.decl.id, t.decl l p.width)) ∘ Task.withCode fn =
      fun t => (t.scalar.decl.id, t.decl l p.width) := by
    funext t
    simp only [Function.comp_apply, Task.decl, Task.decl_withCode]
    rfl
  exact congrArg (fun ds => (⟨l, ds, p.width⟩ : PackEnv)) (congrArg (List.map · (tasks e p l)) heq)

/-- The identifier of a packed version. -/
lemma id_of_version? {g : Function} (h : t.version? (packEnvOf e p l) = some g) :
    g.decl.id = packedId p.width t.scalar.decl := by
  obtain ⟨d, hd, hpack⟩ := of_version? h
  obtain ⟨t', -, hid, rfl⟩ := exists_of_packed? hd
  rw [decl_of_packFunction_eq_ok hpack]
  exact congrArg (· ++ ".x" ++ toString p.width) hid

/-- **Other packed versions** are the same. -/
lemma find?_versions_withCode {id : String} (hid : id ≠ packedId p.width fn.decl) (ts : List Task) :
    ((ts.map (Task.withCode fn)).filterMap (Task.version? (packEnvOf e p l))).find?
        (fun g => g.decl.id == id) =
      (ts.filterMap (Task.version? (packEnvOf e p l))).find? fun g => g.decl.id == id := by
  have skip : ∀ t : Task, t.scalar.decl = fn.decl →
      (t.version? (packEnvOf e p l)).bind (Option.guard fun g => g.decl.id == id) = none := by
    intro t hdecl
    refine Option.bind_eq_none_iff.2 fun g hg => ?_
    have hne : (g.decl.id == id) = false := by
      rw [id_of_version? hg, hdecl]
      exact beq_eq_false_iff_ne.2 hid.symm
    simp [Option.guard, hne]
  simp only [← List.head?_filter, ← List.filterMap_eq_filter, List.filterMap_filterMap,
    List.filterMap_map]
  refine congrArg List.head? (List.filterMap_congr fun t _ => ?_)
  rw [Function.comp_apply]
  by_cases ht : t.scalar.decl = fn.decl
  · rw [skip t ht, skip _ ((Task.decl_withCode fn t).trans ht)]
  · rw [Task.withCode_of_ne ht]

end Packing

/-! ## Programs that packing adds to -/

/-- **Modules that are kept**: all that a module has is at the front of what the other has. -/
structure Code.Module.IsKeptIn (m m' : Module) : Prop where
  name_eq : m'.name = m.name
  functions : m.functions <+: m'.functions
  structs : m.structs <+: m'.structs
  decls : m.registry.decls <+: m'.registry.decls
  /-- The newest packed version comes first. -/
  packed : m.registry.packed <:+ m'.registry.packed

/-- The functions of a program that are to be packed. -/
def LoweredProgram.tasks (p : LoweredProgram) (e : Elaborated) (ds : Diagnostics) : List Task :=
  Packing.tasks e p (layoutsOf e p ds)

/-- What the packing of a program relies on. -/
def LoweredProgram.packEnv (p : LoweredProgram) (e : Elaborated) (ds : Diagnostics) : PackEnv :=
  packEnvOf e p (layoutsOf e p ds)

/-- **Packing adds to a program**, whether all functions have a packed version or not. -/
structure LoweredProgram.Adds (p : LoweredProgram) (e : Elaborated) (ds : Diagnostics)
    (q : PackedProgram) : Prop where
  kept : p.module.IsKeptIn q.module
  /-- The `simd` functions that were written are tried, with the code that they have. -/
  tried : (p.tasks e ds).map Task.fn = (memberFuncs e).filter fun f => f.isSimd && !f.isGenerated
  scalar : ∀ t ∈ p.tasks e ds, p.module.function? t.scalar.decl.id = some t.scalar
  /-- Each has a packed version or meets an obstacle. -/
  decided : ∀ t ∈ p.tasks e ds, (∃ g, t.outcome (p.packEnv e ds) = .ok g) ∨
    ∃ o, t.outcome (p.packEnv e ds) = .error (.obstacle o)
  /-- The packed versions are added, and nothing else. -/
  functions_eq : q.module.functions =
    p.module.functions ++ (p.tasks e ds).filterMap (Task.version? (p.packEnv e ds))
  versions : ∀ t ∈ p.tasks e ds,
    q.module.function? (packedId p.width t.scalar.decl) = t.version? (p.packEnv e ds)
  /-- Each obstacle is reported once, and nothing else. -/
  reports_eq : (p.pack e ds).1 =
    ds.append ((p.tasks e ds).filterMap (Task.report? (p.packEnv e ds)))
  isOk_iff : q.isOk ↔ ∀ t ∈ p.tasks e ds, ∃ g, t.outcome (p.packEnv e ds) = .ok g
  /-- What becomes of other functions does not depend on the code of a function. -/
  others : ∀ fn q', ((p.withCode fn).pack e ds).2 = .ok q' → ∀ id, id ≠ fn.decl.id →
    id ≠ packedId p.width fn.decl → q'.module.function? id = q.module.function? id

/-- All other functions are those of the program with other code for a function. -/
lemma PackedProgram.IsPackedFrom.function?_withCode {e : Elaborated} {p : LoweredProgram}
    {l : PackedLayouts} {q q' : PackedProgram} {fn : Function} (h : q.IsPackedFrom e p l)
    (h' : q'.IsPackedFrom e (p.withCode fn) l) {id : String} (hid : id ≠ fn.decl.id)
    (hpacked : id ≠ packedId p.width fn.decl) :
    q'.module.function? id = q.module.function? id := by
  have hscalar : (p.withCode fn).module.functions.find? (fun g => g.decl.id == id) =
      p.module.functions.find? fun g => g.decl.id == id := by
    refine (Packing.function?_withCode p fn id).trans ?_
    show Option.map _ (p.module.functions.find? _) = _
    cases hg : p.module.functions.find? fun g => g.decl.id == id with
    | none => rfl
    | some g =>
      have hgid := List.find?_some hg
      rw [beq_iff_eq] at hgid
      have hne : g.decl ≠ fn.decl := fun heq => hid (hgid.symm.trans (congrArg FuncDecl.id heq))
      rw [Option.map_some, if_neg hne]
  unfold Module.function?
  rw [h.functions_eq, h'.functions_eq, List.find?_append, List.find?_append, hscalar,
    tasks_withCode, packEnvOf_withCode, find?_versions_withCode hpacked]

/-! ## Accepted programs -/

namespace Accepted

variable {file name : String} {text : List Rune} {e : Elaborated} {width : Int}
  {ds ds' : Diagnostics} {p : LoweredProgram}

/-- The functions of an accepted program have no errors. -/
lemma isClean (h : Accepted file text e) {f : MemberFunction} (hf : e.program.Declares f) :
    e.isClean f := by
  cases hgen : f.isGenerated with
  | true => simp [Elaborated.isClean, hgen]
  | false =>
    obtain ⟨b, hb⟩ : ∃ b, e.body? f = some b := by
      obtain ⟨tree, ds, -, rfl, -⟩ := h
      obtain ⟨_, _, b, -, -, -, hb, -⟩ := Analysis.program_bodies tree ds f hf hgen
      exact ⟨b, hb⟩
    simp [Elaborated.isClean, hb, (typed_of_body? h.typed hf hb).1.is_clean]

/-- The classes of an accepted program are orderly. -/
lemma orderly (h : Accepted file text e) : e.program.All Class.Orderly := by
  obtain ⟨tree, ds, -, rfl, hok⟩ := h
  exact Elaborated.orderly_of_isOk tree ds hok

/-- **The packed layouts of an accepted program** have no flaw. -/
lemma layoutsOf_isFlawless (h : Accepted file text e) (hp : (e.lower name width ds).2 = .ok p)
    (hok : p.isOk) (ds' : Diagnostics) :
    IsFlawless e.program ds' (layoutsOf e p ds') ∧
      ∀ k ∈ e.program.classes, k.ref.isSimd → ((layoutsOf e p ds').struct? k.ref).isSome := by
  obtain ⟨hl, hlayouts, -⟩ := h.typed.of_lower_isOk hp hok
  have hcomplete := h.typed.complete hl
  unfold layoutsOf
  rw [hlayouts]
  exact packAll_isFlawless h.typed.program_wf (fun k hk => (h.orderly k hk).vars_simd) hcomplete
    (isGrounded_of_complete hcomplete)

/-- A `simd` function that was written is to be packed. -/
lemma exists_task (h : Accepted file text e) (hp : (e.lower name width ds).2 = .ok p)
    (hok : p.isOk) {f : MemberFunction} (hf : e.program.Declares f) : ∃ scalar, (do
      let d ← p.declared.decls.lookup (f.cls.id, f.index)
      let scalar ← p.module.function? d.id
      return (⟨f, scalar⟩ : Task)) = some ⟨f, scalar⟩ := by
  obtain ⟨-, -, hdeclared, -, hall⟩ := h.typed.of_lower_isOk hp hok
  obtain ⟨n, hget, hn⟩ := exists_number h.typed.program_wf hf
  have hmem : f ∈ (memberFuncs e).filter e.isClean :=
    List.mem_filter.2 ⟨mem_memberFuncs.2 hf, h.isClean hf⟩
  obtain ⟨fn, hfn, m, hm, hcode⟩ := exists_of_forall₂ hall hmem
  have hfound : (p.module.function? (memberDecl e f n).id).isSome := by
    refine List.find?_isSome.2 ⟨fn, hfn, ?_⟩
    rw [decl_of_function_eq_ok hcode]
    obtain rfl : m = n := (List.getElem?_inj (List.getElem?_eq_some_iff.1 hm).1
      (nodup_memberFuncs h.typed.program_wf)).1 (hm.trans hget.symm)
    exact beq_self_eq_true _
  obtain ⟨scalar, hscalar⟩ := Option.isSome_iff_exists.1 hfound
  refine ⟨scalar, ?_⟩
  rw [hdeclared, hn]
  show (p.module.function? (memberDecl e f n).id >>= fun scalar => some (⟨f, scalar⟩ : Task)) = _
  rw [hscalar]
  rfl

/-- **The functions to pack** are the `simd` functions that were written, in their order. -/
theorem map_fn_tasks (h : Accepted file text e) (hp : (e.lower name width ds).2 = .ok p)
    (hok : p.isOk) (ds' : Diagnostics) :
    (tasks e p (layoutsOf e p ds')).map Task.fn =
      (memberFuncs e).filter fun f => f.isSimd && !f.isGenerated := by
  obtain ⟨-, hpacked⟩ := h.layoutsOf_isFlawless hp hok ds'
  unfold tasks memberFuncs
  extract_lets classes
  rw [List.map_filterMap]
  -- A class without packed layout is not `simd`, and has no `simd` functions.
  suffices hcs : ∀ cs : List Class, (∀ c ∈ cs, c ∈ e.program.classes) →
      ((cs.filter fun c => c.ref.isSimd && ((layoutsOf e p ds').struct? c.ref).isSome).flatMap
        Class.funcs).filterMap (fun f => Option.map Task.fn
          (if f.isSimd && !f.isGenerated && e.isClean f then do
            let d ← p.declared.decls.lookup (f.cls.id, f.index)
            let scalar ← p.module.function? d.id
            return ⟨f, scalar⟩
          else none)) =
      (cs.flatMap Class.funcs).filter fun f => f.isSimd && !f.isGenerated from
    hcs _ fun _ => id
  intro cs
  induction cs with
  | nil => exact fun _ => rfl
  | cons c cs ih =>
    intro hcs
    obtain ⟨hc, hcs⟩ := List.forall_mem_cons.1 hcs
    rw [List.flatMap_cons, List.filter_append, ← ih hcs]
    cases hsimd : c.ref.isSimd with
    | false =>
      rw [List.filter_cons_of_neg (by simp [hsimd])]
      have hnone : c.funcs.filter (fun f => f.isSimd && !f.isGenerated) = [] := by
        refine List.filter_eq_nil_iff.2 fun f hf hcond => ?_
        rw [Bool.and_eq_true] at hcond
        have := (h.orderly c hc).funcs_simd f hf hcond.1
        simp [hsimd] at this
      rw [hnone, List.nil_append]
    | true =>
      rw [List.filter_cons_of_pos (by simp [hsimd, hpacked c hc hsimd]), List.flatMap_cons,
        List.filterMap_append]
      refine congrArg (· ++ _) ?_
      rw [← List.filterMap_eq_filter]
      refine List.filterMap_congr fun f hf => ?_
      have hdeclares : e.program.Declares f := ⟨c, hc, hf⟩
      cases hcond : f.isSimd && !f.isGenerated with
      | false => simp [Option.guard, hcond]
      | true =>
        obtain ⟨scalar, hscalar⟩ := h.exists_task hp hok hdeclares
        simp only [h.isClean hdeclares, Bool.and_self, if_true, hscalar]
        simp [Option.guard, hcond]

/-- The packed version of a task is found, if there is one. -/
lemma function?_packedId (h : Accepted file text e) (hp : (e.lower name width ds).2 = .ok p)
    (hok : p.isOk) {l : PackedLayouts} {q : PackedProgram} (hq : q.IsPackedFrom e p l) {t : Task}
    (ht : t ∈ tasks e p l) :
    q.module.function? (packedId p.width t.scalar.decl) = t.version? (packEnvOf e p l) := by
  obtain ⟨n, hn⟩ := h.typed.isTask_of_mem hp hok ht
  have hscalar : p.module.functions.find?
      (fun g => g.decl.id == packedId p.width t.scalar.decl) = none := by
    refine List.find?_eq_none.2 fun g hg hid => ?_
    obtain ⟨-, -, -, -, hall⟩ := h.typed.of_lower_isOk hp hok
    obtain ⟨f, -, m, -, hcode⟩ := exists_of_forall₂ hall.flip hg
    rw [decl_of_function_eq_ok hcode] at hid
    exact packedId_ne_identifier t.scalar.decl f m (beq_iff_eq.1 hid).symm
  -- Whatever has the identifier is the version of this task.
  have unique : ∀ g ∈ (tasks e p l).filterMap (Task.version? (packEnvOf e p l)),
      (g.decl.id == packedId p.width t.scalar.decl) = true →
        t.version? (packEnvOf e p l) = some g := by
    intro g hg hid
    obtain ⟨t', ht', hv⟩ := List.mem_filterMap.1 hg
    obtain ⟨m, hm⟩ := h.typed.isTask_of_mem hp hok ht'
    rw [beq_iff_eq, id_of_version? hv] at hid
    obtain rfl := hm.eq_of_id_eq hn (packedId_injective hid)
    exact hv
  unfold Module.function?
  rw [hq.functions_eq, List.find?_append, hscalar, Option.none_or]
  cases hv : t.version? (packEnvOf e p l) with
  | none =>
    refine List.find?_eq_none.2 fun g hg hid => ?_
    cases hv.symm.trans (unique g hg hid)
  | some g =>
    have hmem : g ∈ (tasks e p l).filterMap (Task.version? (packEnvOf e p l)) :=
      List.mem_filterMap.2 ⟨t, ht, hv⟩
    have hfound : (((tasks e p l).filterMap (Task.version? (packEnvOf e p l))).find?
        fun g => g.decl.id == packedId p.width t.scalar.decl).isSome :=
      List.find?_isSome.2 ⟨g, hmem, beq_iff_eq.2 (id_of_version? hv)⟩
    obtain ⟨g', hg'⟩ := Option.isSome_iff_exists.1 hfound
    have hid := List.find?_some hg'
    rw [hg', ← unique g' (List.mem_of_find?_eq_some hg') hid, hv]

/-- What packing gives for an accepted program adds to it. -/
lemma adds_of_pack (h : Accepted file text e) (hp : (e.lower name width ds).2 = .ok p)
    (hok : p.isOk) {ds' : Diagnostics} {q : PackedProgram} (hq : (p.pack e ds').2 = .ok q) :
    p.Adds e ds' q := by
  obtain ⟨hfrom, hreports, hfaults⟩ := LoweredProgram.of_pack hq rfl
  obtain ⟨hflawless, -⟩ := h.layoutsOf_isFlawless hp hok ds'
  have hdecided : ∀ t ∈ p.tasks e ds', (∃ g, t.outcome (p.packEnv e ds') = .ok g) ∨
      ∃ o, t.outcome (p.packEnv e ds') = .error (.obstacle o) := by
    intro t ht
    cases ho : t.outcome (p.packEnv e ds') with
    | ok g => exact .inl ⟨g, rfl⟩
    | error x =>
      cases x with
      | obstacle o => exact .inr ⟨o, rfl⟩
      | fault x => exact absurd ho (hfaults t ht x)
  refine ⟨?_, h.map_fn_tasks hp hok ds', fun t => function?_of_mem_tasks, hdecided,
    hfrom.functions_eq, fun t ht => h.function?_packedId hp hok hfrom ht, ?_, ?_, ?_⟩
  · refine ⟨hfrom.name_eq, ?_, ?_, ?_, ?_⟩
    · exact hfrom.functions_eq ▸ List.prefix_append _ _
    · exact hfrom.structs_eq ▸ List.prefix_append _ _
    · exact hfrom.registry_eq ▸ List.prefix_append _ _
    · exact hfrom.registry_eq ▸ List.suffix_append _ _
  · rw [hreports, hflawless.diagnostics_eq]
    rfl
  · rw [hfrom.isOk_eq, hflawless.errors_eq, Nat.zero_add, beq_iff_eq, List.length_eq_zero_iff,
      List.filterMap_eq_nil_iff]
    refine forall₂_congr fun t ht => ?_
    show t.report? (p.packEnv e ds') = none ↔ _
    unfold Task.report?
    obtain ⟨g, hg⟩ | ⟨o, ho⟩ := hdecided t ht
    · simp [hg]
    · simp [ho]
  · intro fn q' hq' id hid hpacked
    obtain ⟨hfrom', -⟩ := LoweredProgram.of_pack hq' (l := layoutsOf e p ds') rfl
    exact hfrom.function?_withCode hfrom' hid hpacked

/-- **Packing adds to an accepted program**: nothing that was there is changed, and each `simd`
function that was written gets its packed version or is reported once. A function that is reported
is in the way of no other.

**Proof sketch.** Packing stops at obstacles only (`exists_pack`), so each function is tried. What
becomes of it is a function of its code and of the packed declarations and layouts
(`packFunctions_eq`), which are there for all functions before the first is tried. -/
theorem pack_adds (h : Accepted file text e) (hp : (e.lower name width ds).2 = .ok p)
    (hok : p.isOk) (ds' : Diagnostics) : ∃ q, (p.pack e ds').2 = .ok q ∧ p.Adds e ds' q := by
  obtain ⟨q, hq⟩ := h.exists_pack hp ds'
  exact ⟨q, hq, h.adds_of_pack hp hok hq⟩

/-- A class with two `simd` functions, the first of which is refused. -/
def refusesFirst : String :=
  "simd class P { var a: bool; var x: int; simd writer b() { if self.a { self.x = 1; } }
    simd writer w() { self.x = self.x + self.x; } }"

/-- Packing adds to a program whose first `simd` function is refused, and whose second is packed. -/
theorem pack_adds_branch : ∃ e p q, vectorize? refusesFirst =
      some (e, p, q) ∧ p.isOk ∧ ¬q.isOk ∧
    p.module.functions.length < q.module.functions.length ∧
    ∃ q', (p.pack e {}).2 = .ok q' ∧ p.Adds e {} q' := by
  have hrun : (vectorize? refusesFirst).any fun (_, p, q) =>
      p.isOk && !q.isOk &&
        decide (p.module.functions.length < q.module.functions.length) := by
    rw [vectorize?, compile?, refusesFirst, Rune.ascii_ofList]
    decide +kernel
  obtain ⟨⟨e, p, q⟩, hv, hrun⟩ := (Option.any_eq_true ..).1 hrun
  simp only [Bool.and_eq_true, Bool.not_eq_true', decide_eq_true_eq] at hrun
  obtain ⟨⟨hok, hqok⟩, hlen⟩ := hrun
  obtain ⟨hacc, hp, -⟩ := of_vectorize? hv
  exact ⟨e, p, q, hv, hok, by simp [hqok], hlen, hacc.pack_adds hp hok {}⟩

end Accepted

end Lane
