import Lane.Proofs.Packing.Alike
import Mathlib.Data.List.Flatten

set_option relaxedAutoImplicit false
set_option autoImplicit false

/-!
# Packing does not depend on the width

For all widths of two or more the same programs are lowered and packed, the same functions have no
packed version, and the packed versions have the same instructions. With one lane a vector is no
vector: what is read from packed memory is shared, and branches on it are not refused.

## Main definitions

* `Lane.PackedProgram.Alike`: packed programs that differ in their widths only.

## Main results

* `Lane.Packing.declareAll_eq`: all packed versions are declared.
* `Lane.Accepted.pack_alike`: packing for different widths.
* `Lane.Accepted.not_alike_one`: packing for the width one.
-/

namespace Lane.Packing

open Code Lowering

/-! ## Declarations -/

section Declarations

variable {e : Elaborated} {p p' : LoweredProgram} {l l' : PackedLayouts} {W W' : Nat} {t t' : Task}

/-- The letters of the identifier of a packed version. -/
lemma toList_packedId (W : Nat) (d : FuncDecl) :
    (packedId W d).toList = d.id.toList ++ '.' :: 'x' :: Nat.toDigits 10 W := by
  simp only [packedId, String.toList_append, toList_toString, List.append_assoc]
  rfl

/-- The packed versions of different functions have different identifiers. -/
lemma packedId_injective {d d' : FuncDecl} (h : packedId W d = packedId W d') : d.id = d'.id := by
  have hlist := congrArg String.toList h
  rw [toList_packedId, toList_packedId] at hlist
  exact String.toList_inj.1 (List.append_cancel_right hlist)

/-- The identifier of a packed version is not the name of a foreign function. -/
lemma not_isPlain_packedId (d : FuncDecl) : ¬Lane.IsPlain (packedId W d) := by
  simp [Lane.IsPlain, toList_packedId]

/-- The identifier of a packed version is not that of a scalar function, which ends in a number. -/
lemma packedId_ne_identifier (d : FuncDecl) (f : MemberFunction) (n : Nat) :
    packedId W d ≠ identifier f n := by
  intro h
  obtain ⟨cs, hcs⟩ := toList_identifier f n
  rw [← h, toList_packedId] at hcs
  have hx : '.' ∉ 'x' :: Nat.toDigits 10 W := fun hmem => by
    obtain h | hmem := List.mem_cons.1 hmem
    · exact absurd h (by decide)
    · exact dot_notMem_toDigits W hmem
  have hdigits := (eq_of_append_dot hcs hx (dot_notMem_toDigits n)).2
  have hdigit : 'x' ∈ Nat.toDigits 10 n := hdigits ▸ List.mem_cons_self
  exact absurd (Nat.isDigit_of_mem_toDigits (by decide) (by decide) hdigit) (by decide)

/-- **All packed versions are declared** if their identifiers are new and different. -/
lemma declareAll_eq (l : PackedLayouts) (W : Nat) : ∀ (ts : List Task) {r : Registry},
    (∀ t ∈ ts, packedId W t.scalar.decl ∉ r.decls.map FuncDecl.id) →
    (ts.map fun t => t.scalar.decl.id).Nodup →
    ∃ r', declareAll l W ts r = .ok (r', ts.map fun t => (t.scalar.decl.id, t.decl l W))
  | [], r, _, _ => ⟨r, rfl⟩
  | t :: ts, r, hnew, hnodup => by
    obtain ⟨ht, hts⟩ := List.forall_mem_cons.1 hnew
    obtain ⟨hid, hnodup⟩ := List.nodup_cons.1 hnodup
    have hreg : register r (t.decl l W).decl =
        .ok { r with decls := r.decls ++ [(t.decl l W).decl] } :=
      register_eq ht
    obtain ⟨r', hrest⟩ := declareAll_eq l W ts
      (r := Registry.mapPacked { r with decls := r.decls ++ [(t.decl l W).decl] } t.scalar.decl
        (t.decl l W).decl) (fun t' ht' hmem => by
          obtain hmem | hmem := List.mem_append.1 (List.map_append ▸ hmem)
          · exact hts t' ht' hmem
          · refine hid (List.mem_map.2 ⟨t', ht', ?_⟩)
            exact packedId_injective (List.mem_singleton.1 hmem)) hnodup
    refine ⟨r', ?_⟩
    unfold declareAll
    show (register r (t.decl l W).decl >>= _) = _
    rw [hreg]
    show (declareAll l W ts (Registry.mapPacked _ t.scalar.decl (t.decl l W).decl) >>= _) = _
    rw [hrest]
    rfl

/-- The functions of a well-formed program are different. -/
lemma nodup_memberFuncs (hp : e.program.WellFormed) : (memberFuncs e).Nodup := by
  refine List.nodup_flatMap.2 ⟨fun c hc => ?_, ?_⟩
  · refine List.Nodup.of_map MemberFunction.index (List.nodup_iff_getElem?_ne_getElem?.2 ?_)
    intro i j hij hj heq
    rw [List.getElem?_map, List.getElem?_map] at heq
    rw [List.length_map] at hj
    have hi := Nat.lt_trans hij hj
    rw [List.getElem?_eq_getElem hi, List.getElem?_eq_getElem hj] at heq
    have hindex := (hp.classes_valid c hc).func_index
    have := hindex i _ (List.getElem?_eq_getElem hi)
    have := hindex j _ (List.getElem?_eq_getElem hj)
    simp_all
  · refine (List.pairwise_map.1 hp.ids_nodup).imp_of_mem fun {c d} hc hd hne f hfc hfd => hne ?_
    rw [← ((hp.classes_valid c hc).funcs_own f hfc).1, ((hp.classes_valid d hd).funcs_own f hfd).1]

/-- Tasks of alike programs: the same functions with alike code. -/
structure Task.Alike (t t' : Task) : Prop where
  fn_eq : t.fn = t'.fn
  decl_eq : t.scalar.decl = t'.scalar.decl
  scalar : t.scalar.Alike Eq t'.scalar

/-- **The same functions are to be packed** in alike programs. -/
lemma tasks_alike (hp : p.Alike p') (hl : l.Alike l') :
    List.Forall₂ Task.Alike (tasks e p l) (tasks e p' l') := by
  have hstruct : ∀ c : ClassRef, (l.struct? c).isSome = (l'.struct? c).isSome := by
    intro c
    obtain ⟨hx, hx'⟩ | ⟨_, _, hx, hx', -⟩ := of_rel (hl.struct? c)
    · rw [hx, hx']
    · rw [hx, hx']
      rfl
  have hfound : ∀ id, Option.Rel (fun fn fn' => fn.decl = fn'.decl ∧ fn.Alike Eq fn')
      (p.module.function? id) (p'.module.function? id) := by
    intro id
    have hall := hp.functions
    unfold Module.function?
    generalize p.module.functions = fs, p'.module.functions = fs' at hall
    induction hall with
    | nil => exact .none
    | @cons f f' fs fs' hf _ ih =>
      rw [List.find?_cons, List.find?_cons, hf.1]
      split
      · exact .some hf
      · exact ih
  unfold tasks
  simp only [hstruct, ← hp.declared_eq]
  refine List.rel_filterMap (R := Eq) ?_ (List.forall₂_same.2 fun _ _ => rfl)
  rintro f _ rfl
  dsimp only
  split
  · cases p.declared.decls.lookup (f.cls.id, f.index) with
    | none => exact .none
    | some d =>
      show Option.Rel _ (p.module.function? d.id >>= _) (p'.module.function? d.id >>= _)
      obtain ⟨hx, hx'⟩ | ⟨fn, fn', hx, hx', hfn⟩ := of_rel (hfound d.id)
      · rw [hx, hx']
        exact .none
      · rw [hx, hx']
        exact .some ⟨rfl, hfn.1, hfn.2⟩
  · exact .none

/-- Packed declarations of a function in alike layouts. -/
lemma declLanes_alike (hl : l.Alike l') (W W' : Nat) (f : MemberFunction) (d : FuncDecl) :
    (declLanes l W f d).Alike Eq W W' (declLanes l' W' f d) := by
  have hlane : ∀ t, paramLane l t = paramLane l' t := by
    intro t
    cases t with
    | cls m c =>
      obtain ⟨hx, hx'⟩ | ⟨_, _, hx, hx', -⟩ := of_rel (hl.struct? c) <;>
        simp only [paramLane, hx, hx', Option.isSome]
    | scalar m k => cases m <;> rfl
    | _ => rfl
  refine ⟨?_, rfl, d, d, rfl, rfl, rfl⟩
  simp only [declLanes, hlane]

/-- **The packing of alike programs** relies on alike declarations. -/
lemma packEnvOf_alike (hp : p.Alike p') (hl : l.Alike l') (hW : 2 ≤ p.width) (hW' : 2 ≤ p'.width) :
    (packEnvOf e p l).Alike Eq (packEnvOf e p' l') := by
  have hdecls : AlikeEntries (DeclLanes.Alike Eq p.width p'.width) (packEnvOf e p l).decls
      (packEnvOf e p' l').decls := by
    show List.Forall₂ _ (List.map _ _) (List.map _ _)
    rw [List.forall₂_map_left_iff, List.forall₂_map_right_iff]
    refine (tasks_alike hp hl).imp fun t t' ht => ⟨?_, ?_⟩
    · rw [ht.decl_eq]
    · show DeclLanes.Alike _ _ _ (declLanes l p.width t.fn t.scalar.decl)
        (declLanes l' p'.width t'.fn t'.scalar.decl)
      rw [← ht.fn_eq, ← ht.decl_eq]
      exact declLanes_alike hl _ _ _ _
  refine ⟨hl.offset?, fun name => ?_, ?_, iff_of_true hW hW'⟩
  · show (l.byName.lookup name).isSome = (l'.byName.lookup name).isSome
    obtain ⟨hx, hx'⟩ | ⟨_, _, hx, hx', -⟩ := of_rel (hl.byName.lookup name) <;> rw [hx, hx']
    rfl
  · rintro d _ rfl
    exact hdecls.lookup d.id

end Declarations

/-! ## Packed functions -/

/-- The same report on a function, for the same reason or for another. -/
def SameReport (x x' : Diagnostic) : Prop :=
  x = x' ∨ ∃ f o o', x = Obstacle.report o f ∧ x' = Obstacle.report o' f

/-- **Packed functions that differ in their widths only**: they are packed versions of the same
function, and their code has the same forms. -/
structure SameCode (W W' : Nat) (g g' : Function) : Prop where
  forms_eq : g.forms = g'.forms
  id : ∃ c : FuncDecl, g.decl.id = packedId W c ∧ g'.decl.id = packedId W' c

/-- What was found while packing functions for two widths. -/
structure PackedFunctions.Alike (W W' : Nat) (r r' : PackedFunctions) : Prop where
  functions : List.Forall₂ (SameCode W W') r.functions r'.functions
  diagnostics : List.Forall₂ SameReport r.diagnostics.toList r'.diagnostics.toList
  errors_eq : r.errors = r'.errors
  fault_eq : r.fault.isSome = r'.fault.isSome

/-- **Functions are packed alike**. -/
theorem packFunctions_alike {env env' : PackEnv} (h : env.Alike Eq env') {ts ts' : List Task}
    (hts : List.Forall₂ Task.Alike ts ts')
    (htidy : ∀ t ∈ ts, IsTidy t.scalar.instrs ∧
      ∀ o ∈ t.scalar.params ++ t.scalar.results, ∀ c, o ≠ .const c)
    (htidy' : ∀ t ∈ ts', IsTidy t.scalar.instrs) : ∀ {r r' : PackedFunctions},
    r.Alike env.width env'.width r' →
      (packFunctions env ts r).Alike env.width env'.width (packFunctions env' ts' r') := by
  induction hts with
  | nil => exact id
  | @cons t t' ts ts' ht _ ih =>
    intro r r' hr
    obtain ⟨⟨ht₁, ht₂⟩, htidy⟩ := List.forall_mem_cons.1 htidy
    obtain ⟨ht₁', htidy'⟩ := List.forall_mem_cons.1 htidy'
    have ih := @ih htidy htidy'
    unfold packFunctions
    rw [← ht.fn_eq]
    -- A function without a version stops both; otherwise both are packed, or both are reported.
    obtain ⟨hx, hx'⟩ | ⟨d, d', hx, hx', hd⟩ := of_rel (h.packed? ht.decl_eq)
    · rw [hx, hx']
      exact ⟨hr.functions, hr.diagnostics, hr.errors_eq, rfl⟩
    · rw [hx, hx']
      dsimp only
      have hend := packFunction_alike h hd ht.scalar ht₁ ht₁' ht₂
      revert hend
      generalize packFunction env d t.scalar = x, packFunction env' d' t'.scalar = x'
      rintro (@⟨g, g', hforms, hg, hg'⟩ | @⟨y, y', hy⟩)
      · refine ih ⟨List.rel_append hr.functions (.cons ⟨hforms, ?_⟩ .nil), hr.diagnostics,
          hr.errors_eq, hr.fault_eq⟩
        obtain ⟨c, _, rfl, hid, hid'⟩ := hd.id
        exact ⟨c, hg ▸ hid, hg' ▸ hid'⟩
      · cases y with
        | obstacle o =>
          cases y' with
          | obstacle o' =>
            refine ih ⟨hr.functions, ?_, congrArg (· + 1) hr.errors_eq, hr.fault_eq⟩
            simp only [Diagnostics.push, Diagnostics.toList, Array.toList_push]
            exact List.rel_append hr.diagnostics (.cons (.inr ⟨t.fn, o, o', rfl, rfl⟩) .nil)
          | fault => cases hy
        | fault x =>
          cases y' with
          | obstacle => cases hy
          | fault x' => exact ⟨hr.functions, hr.diagnostics, hr.errors_eq, rfl⟩

end Lane.Packing

namespace Lane

open Code Lowering Packing

/-- **Packed programs that differ in their widths only**: the same functions have a packed version,
whose code has the same forms. -/
structure PackedProgram.Alike (p p' : LoweredProgram) (q q' : PackedProgram) : Prop where
  isOk_eq : q.isOk = q'.isOk
  functions : ∃ gs gs', q.module.functions = p.module.functions ++ gs ∧
    q'.module.functions = p'.module.functions ++ gs' ∧
    List.Forall₂ (SameCode p.width p'.width) gs gs'

namespace Elaborated.Typed

variable {name : String} {e : Elaborated} {width : Int} {ds : Diagnostics} {p : LoweredProgram}

/-- The packed versions of all tasks of a typed program are declared. -/
lemma declareAll_eq (h : e.Typed) (hn : ∀ f ∈ e.program.foreigns, IsPlain f.name)
    (hp : (e.lower name width ds).2 = .ok p) (l : PackedLayouts) :
    ∃ r, declareAll l p.width (tasks e p l) p.module.registry =
      .ok (r, (packEnvOf e p l).decls) := by
  refine Packing.declareAll_eq l p.width _ (fun t ht hmem => ?_) ?_
  · obtain ⟨-, -, -, hregistry, -⟩ := h.of_lower_isOk hp (isOk_of_mem_tasks hp ht)
    obtain ⟨d, hd, hid⟩ := List.mem_map.1 hmem
    rw [hregistry] at hd
    obtain hd | hd := List.mem_append.1 hd
    · obtain ⟨_, hx, rfl⟩ := List.mem_map.1 hd
      obtain ⟨g, hg, rfl⟩ := List.mem_map.1 hx
      have hid : g.name = packedId p.width t.scalar.decl := hid
      exact not_isPlain_packedId t.scalar.decl (hid ▸ hn g hg)
    · obtain ⟨g, n, -, rfl⟩ := mem_declsFrom hd
      exact packedId_ne_identifier t.scalar.decl g n hid.symm
  · refine List.Nodup.map_on (fun t ht t' ht' hid => ?_) ?_
    · have hok := isOk_of_mem_tasks hp ht
      obtain ⟨n, hn⟩ := h.isTask_of_mem hp hok ht
      obtain ⟨n', hn'⟩ := h.isTask_of_mem hp hok ht'
      exact hn.eq_of_id_eq hn' hid
    · have hclasses : ((e.program.classes.filter fun c =>
          c.ref.isSimd && (l.struct? c.ref).isSome).flatMap Class.funcs).Nodup := by
        exact (nodup_memberFuncs h.program_wf).sublist
          (List.Sublist.flatMap List.filter_sublist _)
      have hfn : ∀ {f : MemberFunction} {t : Task}, t ∈ (if f.isSimd && !f.isGenerated &&
          e.isClean f then do
            let d ← p.declared.decls.lookup (f.cls.id, f.index)
            let scalar ← p.module.function? d.id
            return ⟨f, scalar⟩
          else none : Option Task) → t.fn = f := by
        intro f t ht
        split at ht
        · obtain ⟨d, -, ht⟩ := Option.bind_eq_some_iff.1 ht
          obtain ⟨scalar, -, ht⟩ := Option.bind_eq_some_iff.1 ht
          exact Option.some.inj ht ▸ rfl
        · cases ht
      exact hclasses.filterMap fun f f' t ht ht' => (hfn ht).symm.trans (hfn ht')

/-- What packing a typed program gives. -/
lemma pack_eq (h : e.Typed) (hn : ∀ f ∈ e.program.foreigns, IsPlain f.name)
    (hp : (e.lower name width ds).2 = .ok p) (ds' : Diagnostics) {l : PackedLayouts}
    (hl : l = layoutsOf e p ds') {r : PackedFunctions}
    (hr : r = packFunctions (packEnvOf e p l) (tasks e p l) { diagnostics := l.diagnostics }) :
    ∃ registry structs, p.pack e ds' = (r.diagnostics,
      match r.fault with
      | some x => .error x
      | none => .ok ⟨⟨p.module.name, registry, structs, p.module.functions ++ r.functions⟩,
          l.errors + r.errors == 0⟩) := by
  subst hl hr
  obtain ⟨registry, hdecl⟩ := h.declareAll_eq hn hp (layoutsOf e p ds')
  refine ⟨registry, p.module.structs ++ (layoutsOf e p ds').structs, ?_⟩
  unfold LoweredProgram.pack
  unfold layoutsOf at hdecl
  simp only [hdecl]
  rfl

end Elaborated.Typed

namespace Accepted

variable {file name : String} {text : List Rune} {e : Elaborated} {width width' : Int}
  {ds ds' : Diagnostics} {p p' : LoweredProgram}

/-- The width of a lowered program is the one that was asked for. -/
lemma width_eq (hp : (e.lower name width ds).2 = .ok p) (hw : 0 < width) :
    p.width = width.toNat := by
  unfold Elaborated.lower at hp
  rw [if_neg (Int.not_le.2 hw)] at hp
  dsimp only at hp
  split at hp
  · obtain rfl := Except.ok.inj hp
    rfl
  · unfold Elaborated.lowerWith at hp
    obtain ⟨d, -, hp⟩ := of_bind_eq_ok hp
    obtain ⟨fns, -, hp⟩ := of_bind_eq_ok hp
    obtain rfl := Except.ok.inj hp
    rfl

/-- **Packing does not depend on the width**: for widths of two or more an accepted program is
lowered for both or for none, and packed for both or for none. The same functions are reported, and
the packed versions of all others have the same instructions, with the same computations of
assignments. -/
theorem pack_alike (h : Accepted file text e) (hw : 2 ≤ width) (hw' : 2 ≤ width') :
    ((∃ p, (e.lower name width ds).2 = .ok p) ↔ ∃ p', (e.lower name width' ds).2 = .ok p') ∧
    ∀ p p', (e.lower name width ds).2 = .ok p → (e.lower name width' ds).2 = .ok p' →
      p.isOk = p'.isOk ∧
      ((∃ q, (p.pack e ds').2 = .ok q) ↔ ∃ q', (p'.pack e ds').2 = .ok q') ∧
      List.Forall₂ SameReport (p.pack e ds').1.toList (p'.pack e ds').1.toList ∧
      ∀ q q', (p.pack e ds').2 = .ok q → (p'.pack e ds').2 = .ok q' → q.Alike p p' q' := by
  have hlower : ∀ width, (∃ p, (e.lower name width ds).2 = .ok p) ↔
      (isLaidOut e ds → IsReady e) := fun _ => h.typed.exists_lower_iff h.declare_eq
  refine ⟨(hlower width).trans (hlower width').symm, fun p p' hp hp' => ?_⟩
  have hpp := h.lowered_alike hp hp'
  have hW : 2 ≤ p.width := by rw [width_eq hp (by omega)]; omega
  have hW' : 2 ≤ p'.width := by rw [width_eq hp' (by omega)]; omega
  have hl : (layoutsOf e p ds').Alike (layoutsOf e p' ds') := by
    unfold layoutsOf
    rw [← hpp.layouts_eq]
    exact packAll_alike hW hW' _ _ _
  -- Code of an accepted program assigns no constants, and its parameters are variables.
  have hconst : ∀ t ∈ tasks e p (layoutsOf e p ds'), IsTidy t.scalar.instrs ∧
      ∀ o ∈ t.scalar.params ++ t.scalar.results, ∀ c, o ≠ .const c := by
    intro t ht
    obtain ⟨n, hn⟩ := h.typed.isTask_of_mem hp (isOk_of_mem_tasks hp ht) ht
    have hvars := regular_of_function hn.function_eq
    refine ⟨(h.typed.isTidy_of_mem_tasks hp ht).1, fun o ho c hc => ?_⟩
    obtain ⟨-, v, rfl⟩ := hvars.params_vars.append hvars.results_vars o ho
    cases hc
  have hstart : PackedFunctions.Alike p.width p'.width
      { diagnostics := (layoutsOf e p ds').diagnostics }
      { diagnostics := (layoutsOf e p' ds').diagnostics } :=
    ⟨.nil, by rw [hl.diagnostics_eq]; exact List.forall₂_same.2 fun _ _ => .inl rfl, rfl, rfl⟩
  have hr := packFunctions_alike (packEnvOf_alike (e := e) hpp hl hW hW')
    (tasks_alike hpp hl) hconst (fun t ht => (h.typed.isTidy_of_mem_tasks hp' ht).1) hstart
  obtain ⟨registry, structs, heq⟩ := h.typed.pack_eq h.isPlain_foreign hp ds' rfl rfl
  obtain ⟨registry', structs', heq'⟩ := h.typed.pack_eq h.isPlain_foreign hp' ds' rfl rfl
  rw [heq, heq']
  dsimp only
  generalize packFunctions (packEnvOf e p (layoutsOf e p ds')) _ _ = r at hr ⊢
  generalize packFunctions (packEnvOf e p' (layoutsOf e p' ds')) _ _ = r' at hr ⊢
  -- What is left is to compare how both ended: with a fault, or with a program.
  have hfault := hr.fault_eq
  cases hx : r.fault with
  | some x =>
    cases hx' : r'.fault with
    | some x' => exact ⟨hpp.isOk_eq, ⟨nofun, nofun⟩, hr.diagnostics, nofun⟩
    | none => simp [hx, hx'] at hfault
  | none =>
    cases hx' : r'.fault with
    | some x' => simp [hx, hx'] at hfault
    | none =>
      refine ⟨hpp.isOk_eq, ⟨fun _ => ⟨_, rfl⟩, fun _ => ⟨_, rfl⟩⟩, hr.diagnostics, ?_⟩
      intro q q' hq hq'
      obtain rfl := Except.ok.inj hq
      obtain rfl := Except.ok.inj hq'
      refine ⟨?_, r.functions, r'.functions, rfl, rfl, hr.functions⟩
      show (_ + r.errors == 0) = (_ + r'.errors == 0)
      rw [hl.errors_eq, hr.errors_eq]

/-- The code and the packed code of a program for a width. -/
def packAt? (e : Elaborated) (width : Int) : Option (LoweredProgram × PackedProgram) := do
  let p ← (e.lower "" width {}).2.toOption
  let q ← (p.pack e {}).2.toOption
  return (p, q)

/-- What is packed at a width was lowered and packed. -/
lemma of_packAt? {q : PackedProgram} (h : packAt? e width = some (p, q)) :
    (e.lower "" width {}).2 = .ok p ∧ (p.pack e {}).2 = .ok q := by
  have of_toOption : ∀ {α : Type} {x : Checked α} {a}, x.toOption = some a → x = .ok a := by
    rintro α (_ | a) b hb
    · cases hb
    · exact congrArg _ (Option.some.inj hb)
  obtain ⟨p', hp, h⟩ := Option.bind_eq_some_iff.1 h
  obtain ⟨q', hq, h⟩ := Option.bind_eq_some_iff.1 h
  obtain ⟨rfl, rfl⟩ := Prod.mk.inj (Option.some.inj h)
  exact ⟨of_toOption hp, of_toOption hq⟩

/-- A class with two `simd` functions, the second of which is refused. -/
def refusesSecond : String :=
  "simd class P { var a: bool; var x: int; simd writer w() { self.x = self.x + self.x; }
    simd writer b() { if self.a { self.x = 1; } } }"

/-- Two lanes and eight: one function is packed alike, and one is refused for both. -/
theorem pack_alike_branch : ∃ e p p' q q',
    accept? "" (Rune.ascii refusesSecond) = some e ∧
    packAt? e 2 = some (p, q) ∧ packAt? e 8 = some (p', q') ∧ q.isOk = false ∧
    p.module.functions.length < q.module.functions.length ∧ q.Alike p p' q' := by
  have hrun : (accept? "" (Rune.ascii refusesSecond)).any fun e =>
      (packAt? e 2).any fun (p, q) => (packAt? e 8).any fun _ => !q.isOk &&
        decide (p.module.functions.length < q.module.functions.length) := by
    rw [refusesSecond, Rune.ascii_ofList]
    decide +kernel
  obtain ⟨e, he, hrun⟩ := (Option.any_eq_true ..).1 hrun
  obtain ⟨⟨p, q⟩, hq, hrun⟩ := (Option.any_eq_true ..).1 hrun
  obtain ⟨⟨p', q'⟩, hq', hrun⟩ := (Option.any_eq_true ..).1 hrun
  simp only [Bool.and_eq_true, Bool.not_eq_true', decide_eq_true_eq] at hrun
  obtain ⟨hlower, hpack⟩ := of_packAt? hq
  obtain ⟨hlower', hpack'⟩ := of_packAt? hq'
  obtain ⟨-, halike⟩ := @pack_alike "" "" (Rune.ascii _) e 2 8 {} {} (of_accept? he)
    (show (2 : Int) ≤ 2 by decide) (show (2 : Int) ≤ 8 by decide)
  exact ⟨e, p, p', q, q', he, hq, hq', hrun.1, hrun.2,
    (halike p p' hlower hlower').2.2.2 q q' hpack hpack'⟩

/-- A `simd` function with a branch on a member. -/
def branchesOnMember : String :=
  "simd class P { var a: bool; simd writer w() -> (r: int) { if self.a { r = 1; } } }"

/-- One lane is not like four: a branch on a member is refused for four only. -/
theorem not_alike_one : ∃ e p p' q q',
    accept? "" (Rune.ascii branchesOnMember) = some e ∧
    packAt? e 1 = some (p, q) ∧ packAt? e 4 = some (p', q') ∧ q.isOk ∧ ¬q.Alike p p' q' := by
  have hrun : (accept? "" (Rune.ascii branchesOnMember)).any fun e =>
      (packAt? e 1).any fun (_, q) => (packAt? e 4).any fun (_, q') =>
        q.isOk && !q'.isOk := by
    rw [branchesOnMember, Rune.ascii_ofList]
    decide +kernel
  obtain ⟨e, he, hrun⟩ := (Option.any_eq_true ..).1 hrun
  obtain ⟨⟨p, q⟩, hq, hrun⟩ := (Option.any_eq_true ..).1 hrun
  obtain ⟨⟨p', q'⟩, hq', hrun⟩ := (Option.any_eq_true ..).1 hrun
  simp only [Bool.and_eq_true, Bool.not_eq_true'] at hrun
  refine ⟨e, p, p', q, q', he, hq, hq', hrun.1, fun halike => ?_⟩
  have := halike.isOk_eq
  simp [hrun] at this

end Accepted

end Lane
