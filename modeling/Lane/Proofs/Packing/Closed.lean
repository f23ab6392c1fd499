import Lane.Proofs.Packing.Additions

set_option relaxedAutoImplicit false
set_option autoImplicit false

/-!
# Packed programs are closed

No two functions of a program have the same identifier, whether they are foreign, members of a class
or packed versions, so that all of them can be declared. In a program that is lowered and packed,
all functions that are called are declared, each declaration that is not foreign has one body, and
the packed versions are those of the `simd` functions that were written.

## Main definitions

* `Lane.Elaborated.identifiers`: the identifiers of a program.
* `Lane.PackedProgram.IsClosed`: programs in which all functions are declared and have a body.

## Main results

* `Lane.Accepted.nodup_identifiers`: the identifiers of an accepted program are different.
* `Lane.Accepted.callees_mem`: scalar functions call declared functions.
* `Lane.Accepted.map_decl_functions`: which scalar functions have a body.
* `Lane.Accepted.pack_isClosed`: packed programs are closed.
-/

namespace Lane

open Code Lowering Packing

/-! ## Identifiers -/

/-- **The identifiers of a program**: the names of its foreign functions, the identifiers of its
member functions, and those of packed versions. -/
def Elaborated.identifiers (e : Elaborated) (W : Nat) : List String :=
  e.program.foreigns.map Foreign.name ++
    (declsFrom e 0 (memberFuncs e)).map (fun x => x.2.id) ++
    (declsFrom e 0 (memberFuncs e)).map fun x => packedId W x.2

namespace Lowering

variable {e : Elaborated} {l : Layouts} {W : Nat} {current c : FuncDecl} {s : CallSite}

/-- The declarations of functions are numbered in their order. -/
lemma snd_map_declsFrom (e : Elaborated) (fs : List MemberFunction) :
    (declsFrom e 0 fs).map Prod.snd = fs.zipIdx.map fun (f, n) => memberDecl e f n := by
  rw [declsFrom, List.map_map]
  rfl

/-- Numbers tell the entries of a numbered list apart. -/
lemma nodup_map_zipIdx {α β : Type} {g : α × Nat → β} (hg : ∀ x y, g x = g y → x.2 = y.2)
    (l : List α) : (l.zipIdx.map g).Nodup := by
  refine List.Nodup.map_on (fun x hx y hy h => ?_) (List.Nodup.of_map Prod.snd ?_)
  · have hn := hg x y h
    have hx := List.mem_zipIdx_iff_getElem?.1 hx
    rw [hn, List.mem_zipIdx_iff_getElem?.1 hy] at hx
    exact Prod.ext (Option.some.inj hx).symm hn
  · rw [List.zipIdx_map_snd]
    exact List.nodup_range' ..

/-- Declarations of functions have identifiers of their own. -/
lemma nodup_ids_declsFrom (e : Elaborated) (fs : List MemberFunction) :
    ((declsFrom e 0 fs).map fun x => x.2.id).Nodup := by
  rw [declsFrom, List.map_map]
  exact nodup_map_zipIdx (fun _ _ h => identifier_injective h) fs

/-- What is looked up is in the list. -/
lemma mem_map_snd_of_lookup {α β : Type} [BEq α] [LawfulBEq α] {k : α} {b : β} {l : List (α × β)}
    (h : l.lookup k = some b) : b ∈ l.map Prod.snd := by
  obtain ⟨l₁, l₂, rfl, -⟩ := List.lookup_eq_some_iff.1 h
  simp

/-- The declarations that are not foreign are those of member functions. -/
lemma filter_isForeign_declaredOf (e : Elaborated) :
    (declaredOf e).registry.decls.filter (fun d => !d.isForeign) =
      (declsFrom e 0 (memberFuncs e)).map Prod.snd := by
  have hforeign : ((foreignsOf e).map Prod.snd).filter (fun d => !d.isForeign) = [] := by
    refine List.filter_eq_nil_iff.2 fun d hd => ?_
    obtain ⟨_, hx, rfl⟩ := List.mem_map.1 hd
    obtain ⟨f, -, rfl⟩ := List.mem_map.1 hx
    exact Bool.false_ne_true
  show (_ ++ _ : List FuncDecl).filter _ = _
  rw [List.filter_append, hforeign, List.nil_append]
  refine List.filter_eq_self.2 fun d hd => ?_
  obtain ⟨g, n, -, rfl⟩ := mem_declsFrom hd
  rfl

/-- What is called at a site is declared. -/
lemma CallSite.callee?_mem (h : s.callee? (envOf e l W current) = some c) :
    c ∈ (declaredOf e).registry.decls := by
  have member : ∀ {k d}, (declaredOf e).decls.lookup k = some d →
      d ∈ (declaredOf e).registry.decls := fun hd =>
    List.mem_append_right _ (mem_map_snd_of_lookup hd)
  have foreign : ∀ {k d}, (declaredOf e).foreigns.lookup k = some d →
      d ∈ (declaredOf e).registry.decls := fun hd =>
    List.mem_append_left _ (mem_map_snd_of_lookup hd)
  cases s with
  | value f => exact member (Option.filter_eq_some_iff.1 h).1
  | expr x =>
    revert h
    simp only [CallSite.callee?]
    unfold TExpr.callee? neededDecl
    split
    all_goals first
      | exact fun h => member (Option.filter_eq_some_iff.1 h).1
      | exact fun h => foreign (Option.filter_eq_some_iff.1 h).1
      | exact fun h => by cases h

end Lowering

namespace Packing

/-- Declaring packed versions keeps identifiers apart. -/
lemma nodup_ids_of_declareAll (l : PackedLayouts) (W : Nat) : ∀ {ts : List Task} {r r' : Registry}
    {ds : List (String × DeclLanes)}, declareAll l W ts r = .ok (r', ds) →
    (r.decls.map FuncDecl.id).Nodup → (r'.decls.map FuncDecl.id).Nodup
  | [], _, _, _, h, hr => by
    obtain ⟨rfl, -⟩ := Prod.mk.inj (Except.ok.inj h)
    exact hr
  | t :: ts, r, r', ds, h, hr => by
    obtain ⟨r₁, hreg, h⟩ := of_bind_eq_ok h
    obtain ⟨q, hrest, h⟩ := of_bind_eq_ok h
    obtain ⟨rfl, -⟩ := Prod.mk.inj (Except.ok.inj h)
    refine nodup_ids_of_declareAll l W hrest ?_
    show (r₁.decls.map FuncDecl.id).Nodup
    have hdecls := of_register_eq_ok hreg
    have hnew : (t.decl l W).decl.id ∉ r.decls.map FuncDecl.id := by
      unfold register Registry.declare at hreg
      split at hreg
      · rename_i hd
        split at hd
        · cases hd
        · rename_i hnone
          intro hmem
          obtain ⟨d, hd, hid⟩ := List.mem_map.1 hmem
          exact hnone (List.find?_isSome.2 ⟨d, hd, beq_iff_eq.2 hid⟩)
      · cases hreg
    rw [hdecls, List.map_append, List.map_singleton, ← List.concat_eq_append]
    exact hr.concat hnew

end Packing

/-! ## Closed programs -/

/-- **Closed programs**: all identifiers are different, all functions that are called are declared,
each declaration that is not foreign has one body, and the recorded packed versions are those of the
functions of `simd` classes that were written as `simd`. -/
structure PackedProgram.IsClosed (q : PackedProgram) (e : Elaborated) (W : Nat) : Prop where
  ids_nodup : (q.module.registry.decls.map FuncDecl.id).Nodup
  calls_declared : ∀ fn ∈ q.module.functions, ∀ c ∈ callees fn.body, c ∈ q.module.registry.decls
  bodies_eq : q.module.functions.map Function.decl =
    q.module.registry.decls.filter fun d => !d.isForeign
  packed_isSome_iff : ∀ d, (q.module.registry.packed? d).isSome ↔
    ∃ f n, (memberFuncs e)[n]? = some f ∧ d.id = identifier f n ∧
      f.cls.isSimd ∧ f.isSimd ∧ f.isGenerated = false
  packed_body : ∀ d x, q.module.registry.packed? d = some x →
    x.id = packedId W d ∧ x ∈ q.module.registry.decls ∧ ∃ fn ∈ q.module.functions, fn.decl = x

namespace Accepted

variable {file name : String} {text : List Rune} {e : Elaborated} {width : Int}
  {ds ds' : Diagnostics} {p : LoweredProgram} {q : PackedProgram} {l : PackedLayouts}

/-- **The identifiers of an accepted program** are different. -/
theorem nodup_identifiers (h : Accepted file text e) (W : Nat) : (e.identifiers W).Nodup := by
  refine List.nodup_append'.2 ⟨List.nodup_append'.2 ⟨h.typed.program_wf.foreign_names,
    nodup_ids_declsFrom e _, ?_⟩, ?_, ?_⟩
  · intro id hforeign hmember
    obtain ⟨f, hf, rfl⟩ := List.mem_map.1 hforeign
    obtain ⟨x, hx, hid⟩ := List.mem_map.1 hmember
    obtain ⟨g, n, -, hdecl⟩ := mem_declsFrom (List.mem_map_of_mem hx)
    refine not_isPlain_identifier g n ?_
    rw [show identifier g n = f.name from (congrArg FuncDecl.id hdecl).symm.trans hid]
    exact h.isPlain_foreign f hf
  · rw [declsFrom, List.map_map]
    exact nodup_map_zipIdx (fun _ _ h => identifier_injective (packedId_injective h)) _
  · intro id hs hm
    obtain ⟨x, -, rfl⟩ := List.mem_map.1 hm
    obtain hs | hs := List.mem_append.1 hs
    · obtain ⟨f, hf, hid⟩ := List.mem_map.1 hs
      exact not_isPlain_packedId x.2 (hid ▸ h.isPlain_foreign f hf)
    · obtain ⟨y, hy, hid⟩ := List.mem_map.1 hs
      obtain ⟨g, n, -, hdecl⟩ := mem_declsFrom (List.mem_map_of_mem hy)
      refine packedId_ne_identifier (W := W) x.2 g n ?_
      exact hid.symm.trans (congrArg FuncDecl.id hdecl)

/-- The declarations of an accepted program have different identifiers. -/
lemma nodup_ids_declaredOf (h : Accepted file text e) :
    ((declaredOf e).registry.decls.map FuncDecl.id).Nodup := by
  have hids : (declaredOf e).registry.decls.map FuncDecl.id = e.program.foreigns.map Foreign.name ++
      (declsFrom e 0 (memberFuncs e)).map fun x => x.2.id := by
    simp only [declaredOf, foreignsOf, List.map_append, List.map_map]
    rfl
  rw [hids]
  exact (h.nodup_identifiers 0).of_append_left

/-- **Scalar functions call declared functions**. -/
lemma callees_mem (h : Accepted file text e) (hp : (e.lower name width ds).2 = .ok p)
    (hok : p.isOk) {fn : Function} (hfn : fn ∈ p.module.functions) :
    ∀ c ∈ callees fn.body, c ∈ (declaredOf e).registry.decls := by
  intro c hc
  obtain ⟨f, n, -, -, hcallees, -⟩ := h.exists_sites hp hok hfn
  rw [hcallees] at hc
  obtain ⟨s, -, hs⟩ := List.mem_filterMap.1 hc
  exact CallSite.callee?_mem hs

/-- **All member functions have a body**, in the order of their declarations. -/
lemma map_decl_functions (h : Accepted file text e) (hp : (e.lower name width ds).2 = .ok p)
    (hok : p.isOk) :
    p.module.functions.map Function.decl = (declsFrom e 0 (memberFuncs e)).map Prod.snd := by
  obtain ⟨-, -, -, -, hall⟩ := h.typed.of_lower_isOk hp hok
  have hclean : (memberFuncs e).filter e.isClean = memberFuncs e :=
    List.filter_eq_self.2 fun f hf => h.isClean (mem_memberFuncs.1 hf)
  rw [hclean] at hall
  rw [snd_map_declsFrom]
  refine List.ext_getElem (by simp [hall.length_eq]) fun i hi hi' => ?_
  rw [List.length_map] at hi
  have hi' : i < (memberFuncs e).length := hall.length_eq ▸ hi
  obtain ⟨n, hn, hcode⟩ := hall.get hi' hi
  -- The number of a function is its place, since no function is there twice.
  obtain rfl : i = n := (List.getElem?_inj hi' (nodup_memberFuncs h.typed.program_wf)).1
    ((List.getElem?_eq_getElem hi').trans hn.symm)
  rw [List.getElem_map, List.getElem_map, List.getElem_zipIdx]
  have hdecl : (p.module.functions.get ⟨i, hi⟩).decl =
      memberDecl e ((memberFuncs e).get ⟨i, hi'⟩) i := decl_of_function_eq_ok hcode
  simpa using hdecl

/-- **Packed versions call declared functions**: packed versions, and scalar functions that have
none. -/
lemma callees_of_version? (h : Accepted file text e) (hp : (e.lower name width ds).2 = .ok p)
    {t : Task} (ht : t ∈ tasks e p l) {g : Function}
    (hg : t.version? (packEnvOf e p l) = some g) : ∀ c ∈ callees g.body,
    c ∈ (declaredOf e).registry.decls ∨ ∃ t ∈ tasks e p l, c = (t.decl l p.width).decl := by
  obtain ⟨d, -, hpack⟩ := of_version? hg
  exact callees_packFunction (h.typed.isPackable_of_mem hp ht)
    (h.typed.packEnvOf_serves h.isPlain_foreign hp l) hpack

/-- A packed version has the packed declaration of its task. -/
lemma decl_of_version? (h : Accepted file text e) (hp : (e.lower name width ds).2 = .ok p)
    {t : Task} (ht : t ∈ tasks e p l) {g : Function}
    (hg : t.version? (packEnvOf e p l) = some g) : g.decl = (t.decl l p.width).decl := by
  obtain ⟨d, hd, hpack⟩ := of_version? hg
  obtain rfl := Option.some.inj ((h.typed.packed?_of_mem hp ht).symm.trans hd)
  exact decl_of_packFunction_eq_ok hpack

/-- What is recorded as a packed version. -/
lemma packed?_eq_some_iff (h : Accepted file text e) (hp : (e.lower name width ds).2 = .ok p)
    (hok : p.isOk) (hq : q.IsPackedFrom e p l) {d x : FuncDecl} :
    q.module.registry.packed? d = some x ↔
      ∃ t ∈ tasks e p l, t.scalar.decl.id = d.id ∧ (t.decl l p.width).decl = x := by
  obtain ⟨-, -, -, hregistry, -⟩ := h.typed.of_lower_isOk hp hok
  have hpacked : q.module.registry.packed =
      ((tasks e p l).map fun t => (t.scalar.decl.id, (t.decl l p.width).decl)).reverse := by
    rw [hq.registry_eq, hregistry]
    exact List.append_nil _
  have hmem : ∀ {x}, (d.id, x) ∈ q.module.registry.packed ↔
      ∃ t ∈ tasks e p l, t.scalar.decl.id = d.id ∧ (t.decl l p.width).decl = x := by
    intro x
    simp [hpacked]
  have of_lookup : ∀ {x}, q.module.registry.packed? d = some x →
      (d.id, x) ∈ q.module.registry.packed := by
    intro x hx
    obtain ⟨l₁, l₂, heq, -⟩ := List.lookup_eq_some_iff.1 hx
    exact heq ▸ List.mem_append_right _ List.mem_cons_self
  refine ⟨fun hx => hmem.1 (of_lookup hx), fun ⟨t, ht, hid, hx⟩ => ?_⟩
  cases hlookup : q.module.registry.packed? d with
  | none =>
    have := List.lookup_eq_none_iff.1 hlookup _ (hmem.2 ⟨t, ht, hid, hx⟩)
    simp at this
  | some y =>
    obtain ⟨t', ht', hid', rfl⟩ := hmem.1 (of_lookup hlookup)
    obtain ⟨n, hn⟩ := h.typed.isTask_of_mem hp hok ht
    obtain ⟨m, hm⟩ := h.typed.isTask_of_mem hp hok ht'
    rw [hm.eq_of_id_eq hn (hid'.trans hid.symm), hx]

/-- **Which functions have a packed version**: those of `simd` classes that were written as
`simd`. -/
lemma packed?_isSome_iff (h : Accepted file text e) (hp : (e.lower name width ds).2 = .ok p)
    (hok : p.isOk) (hq : q.IsPackedFrom e p (layoutsOf e p ds')) (d : FuncDecl) :
    (q.module.registry.packed? d).isSome ↔ ∃ f n, (memberFuncs e)[n]? = some f ∧
      d.id = identifier f n ∧ f.cls.isSimd ∧ f.isSimd ∧ f.isGenerated = false := by
  have hsome : (q.module.registry.packed? d).isSome ↔
      ∃ t ∈ tasks e p (layoutsOf e p ds'), t.scalar.decl.id = d.id := by
    simp only [Option.isSome_iff_exists, h.packed?_eq_some_iff hp hok hq]
    exact ⟨fun ⟨_, t, ht, hid, _⟩ => ⟨t, ht, hid⟩, fun ⟨t, ht, hid⟩ => ⟨_, t, ht, hid, rfl⟩⟩
  have hfns := h.map_fn_tasks hp hok ds'
  rw [hsome]
  constructor
  · rintro ⟨t, ht, hid⟩
    obtain ⟨n, hn⟩ := h.typed.isTask_of_mem hp hok ht
    obtain ⟨hmem, hcond⟩ := List.mem_filter.1 (hfns ▸ List.mem_map_of_mem ht)
    obtain ⟨c, hc, hf⟩ := mem_memberFuncs.1 hmem
    have hcls := ((h.typed.program_wf.classes_valid c hc).funcs_own _ hf).1
    have hsimd := (Bool.and_eq_true_iff.1 hcond).1
    exact ⟨t.fn, n, hn.getElem?_eq, hid.symm.trans (congrArg FuncDecl.id hn.decl_eq),
      hcls ▸ (h.orderly c hc).funcs_simd _ hf hsimd, hsimd, hn.not_generated⟩
  · rintro ⟨f, n, hget, hid, -, hsimd, hgen⟩
    have hmem : f ∈ (tasks e p (layoutsOf e p ds')).map Task.fn :=
      hfns ▸ List.mem_filter.2 ⟨List.mem_of_getElem? hget, by simp [hsimd, hgen]⟩
    obtain ⟨t, ht, rfl⟩ := List.mem_map.1 hmem
    obtain ⟨m, hm⟩ := h.typed.isTask_of_mem hp hok ht
    obtain rfl : m = n := (List.getElem?_inj (List.getElem?_eq_some_iff.1 hm.getElem?_eq).1
      (nodup_memberFuncs h.typed.program_wf)).1 (hm.getElem?_eq.trans hget.symm)
    exact ⟨t, ht, (congrArg FuncDecl.id hm.decl_eq).trans hid.symm⟩

/-- If lowering and packing succeed, the program is closed. -/
lemma isClosed_of_isOk (h : Accepted file text e) (hp : (e.lower name width ds).2 = .ok p)
    (hok : p.isOk) (hq : (p.pack e ds').2 = .ok q) (hqok : q.isOk) : q.IsClosed e p.width := by
  obtain ⟨-, -, -, hregistry, -⟩ := h.typed.of_lower_isOk hp hok
  obtain ⟨hfrom, -, -⟩ := LoweredProgram.of_pack hq rfl
  have hadds := h.adds_of_pack hp hok hq
  have hdecls : q.module.registry.decls = (declaredOf e).registry.decls ++
      (p.tasks e ds').map fun t => (t.decl (layoutsOf e p ds') p.width).decl := by
    rw [hfrom.registry_eq, hregistry]
    rfl
  have hversion : ∀ t ∈ p.tasks e ds', ∃ g, t.version? (p.packEnv e ds') = some g ∧
      g.decl = (t.decl (layoutsOf e p ds') p.width).decl := by
    intro t ht
    obtain ⟨g, hg⟩ := hadds.isOk_iff.1 hqok t ht
    have hg : t.version? (p.packEnv e ds') = some g := by rw [Task.version?, hg]; rfl
    exact ⟨g, hg, h.decl_of_version? hp ht hg⟩
  have hversions : ((p.tasks e ds').filterMap (Task.version? (p.packEnv e ds'))).map Function.decl =
      (p.tasks e ds').map fun t => (t.decl (layoutsOf e p ds') p.width).decl := by
    rw [List.map_filterMap, ← List.filterMap_eq_map]
    refine List.filterMap_congr fun t ht => ?_
    obtain ⟨g, hg, hdecl⟩ := hversion t ht
    rw [hg, Option.map_some, hdecl]
    rfl
  refine ⟨?_, fun fn hfn c hc => ?_, ?_, h.packed?_isSome_iff hp hok hfrom, fun d x hx => ?_⟩
  · obtain ⟨r, hr⟩ := h.typed.declareAll_eq h.isPlain_foreign hp (layoutsOf e p ds')
    rw [hfrom.registry_eq, ← registry_of_declareAll _ _ hr]
    exact nodup_ids_of_declareAll _ _ hr (hregistry ▸ h.nodup_ids_declaredOf)
  · rw [hdecls, List.mem_append]
    rw [hadds.functions_eq, List.mem_append] at hfn
    obtain hfn | hfn := hfn
    · exact .inl (h.callees_mem hp hok hfn c hc)
    · obtain ⟨t, ht, hg⟩ := List.mem_filterMap.1 hfn
      obtain hc | ⟨t', ht', rfl⟩ := h.callees_of_version? hp ht hg c hc
      · exact .inl hc
      · exact .inr (List.mem_map_of_mem ht')
  · rw [hadds.functions_eq, List.map_append, hversions, h.map_decl_functions hp hok, hdecls,
      List.filter_append, filter_isForeign_declaredOf]
    congr 1
    refine (List.filter_eq_self.2 fun d hd => ?_).symm
    obtain ⟨t, -, rfl⟩ := List.mem_map.1 hd
    rfl
  · obtain ⟨t, ht, hid, rfl⟩ := (h.packed?_eq_some_iff hp hok hfrom).1 hx
    obtain ⟨g, hg, hdecl⟩ := hversion t ht
    refine ⟨?_, ?_, g, ?_, hdecl⟩
    · exact congrArg (· ++ ".x" ++ toString p.width) hid
    · exact hdecls ▸ List.mem_append_right _ (List.mem_map_of_mem ht)
    · exact hadds.functions_eq ▸ List.mem_append_right _ (List.mem_filterMap.2 ⟨t, ht, hg⟩)

/-- **Packed programs are closed**: the identifiers of an accepted program are different, so that
all functions can be declared, and all packed versions too. If lowering and packing succeed, all
functions that are called are declared, and all declarations that are not foreign have one body.

**Proof sketch.** Foreign names have no dots, scalar functions end in their number and packed
versions in the width (`nodup_identifiers`). Lowering calls what it looks up among the declarations
(`callees_mem`), and packing replaces a function by its packed version, if there is one
(`callees_of_version?`). -/
theorem pack_isClosed (h : Accepted file text e) (name : String) (width : Int) (ds : Diagnostics) :
    (∀ W, (e.identifiers W).Nodup) ∧ declare e = .ok (declaredOf e) ∧
    ∀ p, (e.lower name width ds).2 = .ok p → ∀ ds',
      (∃ r, declareAll (layoutsOf e p ds') p.width (p.tasks e ds') p.module.registry = .ok r) ∧
      ∃ q, (p.pack e ds').2 = .ok q ∧ (p.isOk → q.isOk → q.IsClosed e p.width) := by
  refine ⟨h.nodup_identifiers, h.declare_eq, fun p hp ds' => ⟨?_, ?_⟩⟩
  · obtain ⟨r, hr⟩ := h.typed.declareAll_eq h.isPlain_foreign hp (layoutsOf e p ds')
    exact ⟨_, hr⟩
  · obtain ⟨q, hq⟩ := h.exists_pack hp ds'
    exact ⟨q, hq, fun hok hqok => h.isClosed_of_isOk hp hok hq hqok⟩

/-- A `simd` function that calls another one, and a foreign function. -/
def callsPacked : String :=
  "extern n() -> (r: int);
    simd class P { var x: int; simd writer a() { self.x = self.x + self.x; }
    simd writer b() { self.a(); var k: int = c_call n(); }
    operator +(a: P, b: P) -> (r: int) { r = a.x; } }"

/-- A closed program, in which a packed version calls another one, and a foreign function is
called. -/
theorem pack_isClosed_calls : ∃ e p q, vectorize? callsPacked =
      some (e, p, q) ∧ p.isOk ∧ q.isOk ∧
    (q.module.functions.any fun fn => (callees fn.body).length == 2) ∧
    (e.identifiers p.width).Nodup ∧ q.IsClosed e p.width := by
  have hrun : (vectorize? callsPacked).any fun (_, p, q) =>
      p.isOk && q.isOk &&
        q.module.functions.any fun fn => (callees fn.body).length == 2 := by
    rw [vectorize?, compile?, callsPacked, Rune.ascii_ofList]
    decide +kernel
  obtain ⟨⟨e, p, q⟩, hv, hrun⟩ := (Option.any_eq_true ..).1 hrun
  simp only [Bool.and_eq_true] at hrun
  obtain ⟨⟨hok, hqok⟩, hcalls⟩ := hrun
  obtain ⟨hacc, hp, hq⟩ := of_vectorize? hv
  obtain ⟨hids, -, hpack⟩ := hacc.pack_isClosed "" 0 {}
  obtain ⟨-, q', hq', hclosed⟩ := hpack p hp {}
  obtain rfl := Except.ok.inj (hq.symm.trans hq')
  exact ⟨e, p, q, hv, hok, hqok, hcalls, hids _, hclosed hok hqok⟩

end Accepted

end Lane
