import Lane.Proofs.Lowering.Order
import Lane.Proofs.Packing.Additions

set_option relaxedAutoImplicit false
set_option autoImplicit false

/-!
# The order of declarations and packed code

Whatever the order in which classes are packed, nothing is reported, the `simd` classes are those
with a packed layout, and its members have the forms that the variables ask for. So for two orders
of the same declarations the same functions are to be packed, and packed versions rely on the same,
apart from the identifiers of functions. The same of them can be made.

## Main definitions

* `Lane.Packing.IsNamed`: packed layouts whose entries have the names of `simd` classes.
* `Lane.Packing.LaidOutBy`: programs that are laid out.
* `Lane.Packing.IsCodeFor`: programs that are lowered.

## Main results

* `Lane.Packing.errors_packAll`: nothing is reported while classes are packed.
* `Lane.Elaborated.Reordered.packEnvOf_alike`: what packing relies on, for two orders.
* `Lane.ProgramSyntax.Reordered.found_alike`: what is found in programs in two orders.
-/

namespace Lane.Packing

open Code Lowering

variable {p p' : Program} {W : Nat} {l l' : PackedLayouts} {layouts layouts' : Layouts}
  {c d : ClassRef} {R : List ClassRef}

/-! ## Errors -/

/-- Member variables are packed without errors, if the classes among them are `simd`. -/
lemma errors_packVars (cls : Class) (scalar : Struct) (mask : VType)
    {nested : ClassRef → PackedLayouts → Option Struct × PackedLayouts} :
    ∀ (vs : List MemberVar), (∀ v ∈ vs, ∀ q d, v.type = .cls q d → d.isSimd ∧
        ∀ l, (nested d l).2.errors = l.errors) →
      ∀ (s : Struct) (ok : Bool) (l : PackedLayouts),
        (packVars cls scalar W mask nested vs s ok l).2.errors = l.errors
  | [], _, _, _, _ => rfl
  | v :: vs, h, s, ok, l => by
    obtain ⟨hv, hvs⟩ := List.forall_mem_cons.1 h
    have ih := errors_packVars cls scalar mask vs hvs
    unfold packVars
    simp only [placePacked_eq]
    split
    · rename_i q d hvt
      obtain ⟨hsimd, hd⟩ := hv q d hvt
      rw [if_neg (by simp [hsimd])]
      have hl := hd l
      split
      all_goals
        rename_i hres
        rw [hres] at hl
        exact (ih _ _ _).trans hl
    · exact ih _ _ _
    · exact ih _ _ _

/-- A declared class is packed without errors. -/
lemma errors_packClassIn (hp : p.WellFormed) (ho : p.All Class.Orderly) : ∀ (fuel : Nat)
    (c : ClassRef) (l : PackedLayouts), c ∈ p.classes.map Class.ref →
      (packClassIn p layouts W fuel c l).2.errors = l.errors
  | 0, _, _, _ => rfl
  | fuel + 1, c, l, hc => by
    obtain ⟨hmem, href⟩ := hp.numbered.classOf_mem hc
    have hrecorded : ∀ (n : String) (x : Option Struct) (l : PackedLayouts),
        (recorded c n x l).errors = l.errors := fun n x l => by cases x <;> rfl
    obtain ⟨x, -, heq⟩ | ⟨-, ⟨-, heq⟩ | ⟨scalar, -, hsimd, heq⟩⟩ :=
      packClassIn_cases p layouts W fuel c l <;> rw [heq]
    · exact hrecorded "" none l
    · refine (hrecorded _ _ _).trans (errors_packVars _ _ _ _ (fun v hv q d hvt => ?_) _ _ _)
      exact ⟨(ho _ hmem).vars_simd (by rwa [href]) v hv q d hvt, fun l =>
        errors_packClassIn hp ho fuel d l (List.mem_map.2 (Nests.valid hp ⟨v, hv, q, hvt⟩))⟩

/-- **Nothing is reported** while classes are packed. -/
theorem errors_packAll (hp : p.WellFormed) (ho : p.All Class.Orderly) (layouts : Layouts) (W : Nat)
    (ds : Diagnostics) : (packAll p layouts W ds).errors = 0 := by
  refine List.foldlRecOn (motive := fun l : PackedLayouts => l.errors = 0) p.classes _ rfl
    fun l hl k hk => ?_
  exact (errors_packClassIn hp ho _ k.ref l (List.mem_map_of_mem hk)).trans hl

/-! ## Names of entries -/

/-- **The names of entries** are those of `simd` classes and of their variables. -/
structure IsNamed (p : Program) (l : PackedLayouts) : Prop where
  byName : ∀ x ∈ l.byName, ∃ k ∈ p.classes, k.ref.isSimd ∧ k.name = x.1
  members : ∀ x ∈ l.members, ∃ k ∈ p.classes, k.ref.isSimd ∧ ∃ v ∈ k.vars, x.1 = (k.name, v.name)
  structs : ∀ k ∈ p.classes, (l.struct? k.ref).isSome → ∃ x ∈ l.byName, x.1 = k.name

/-- Packing a class adds names of classes and variables. -/
lemma isNamed_packClassIn (hp : p.WellFormed) (hl : layouts.Fit p) : ∀ (fuel : Nat) (c : ClassRef)
    (l : PackedLayouts), c ∈ p.classes.map Class.ref → IsNamed p l →
      IsNamed p (packClassIn p layouts W fuel c l).2
  | 0, _, _, _, h => h
  | fuel + 1, c, l, hc, h => by
    obtain ⟨hmem, href⟩ := hp.numbered.classOf_mem hc
    have hrecorded : ∀ (n : String) (x : Option Struct) (l : PackedLayouts), IsNamed p l →
        (x.isSome → c.isSimd ∧ n = (p.classOf c).name) → IsNamed p (recorded c n x l) := by
      intro n x l h hx
      refine ⟨?_, by simpa using h.members, fun k hk hsome => ?_⟩
      · cases x with
        | none => exact h.byName
        | some s =>
          obtain ⟨hsimd, rfl⟩ := hx rfl
          refine List.forall_mem_append.2 ⟨h.byName, List.forall_mem_singleton.2 ?_⟩
          exact ⟨_, hmem, by rwa [href], rfl⟩
      · obtain ⟨t, ht⟩ := Option.isSome_iff_exists.1 hsome
        obtain ht | ⟨hid, rfl⟩ := of_struct?_recorded ht
        · obtain ⟨y, hy, hname⟩ := h.structs k hk (by simp [ht])
          cases x with
          | none => exact ⟨y, hy, hname⟩
          | some => exact ⟨y, List.mem_append_left _ hy, hname⟩
        · obtain ⟨-, rfl⟩ := hx rfl
          refine ⟨((p.classOf c).name, t), List.mem_append_right _ List.mem_cons_self, ?_⟩
          rw [hp.classOf_eq_of_id hk hid.symm]
    obtain ⟨x, -, heq⟩ | ⟨-, ⟨-, heq⟩ | ⟨scalar, hscalar, hsimd, heq⟩⟩ :=
      packClassIn_cases p layouts W fuel c l <;> rw [heq]
    · exact h
    · exact hrecorded "" none l h fun hnone => by cases hnone
    · have hname : scalar.name = (p.classOf c).name :=
        (hl _ hmem scalar (href.symm ▸ hscalar)).name_eq
      refine hrecorded _ _ _ ?_ fun _ => ⟨hsimd, hname⟩
      refine packVars_induction (I := IsNamed p) (fun l' _ _ h => ⟨h.byName, h.members, h.structs⟩)
        _ _ true l (fun v hv l' x _ h => ?_) (fun v hv q d hvt l' h => ?_) h
      · refine ⟨h.byName, List.forall_mem_append.2 ⟨h.members, List.forall_mem_singleton.2 ?_⟩,
          h.structs⟩
        exact ⟨_, hmem, by rwa [href], v, hv, by rw [hname]⟩
      · have hnests : Nests p c d := ⟨v, hv, q, hvt⟩
        exact isNamed_packClassIn hp hl fuel d l' (List.mem_map.2 (hnests.valid hp)) h

/-- Packing all classes adds names of classes and variables. -/
lemma packAll_isNamed (hp : p.WellFormed) (hl : layouts.Fit p) (W : Nat) (ds : Diagnostics) :
    IsNamed p (packAll p layouts W ds) := by
  have hempty : IsNamed p { diagnostics := ds } :=
    ⟨by simp, by simp, fun k _ h => by simp [PackedLayouts.struct?] at h⟩
  refine List.foldlRecOn p.classes _ hempty fun l h k hk => ?_
  exact isNamed_packClassIn hp hl _ k.ref l (List.mem_map_of_mem hk) h

/-! ## Packed layouts for two orders -/

/-- **Programs that are laid out**, so that their `simd` classes have packed layouts. -/
structure LaidOutBy (p : Program) (layouts : Layouts) : Prop where
  program_wf : p.WellFormed
  orderly : p.All Class.Orderly
  complete : layouts.Complete p
  fit : layouts.Fit p
  grounded : ∀ d s, layouts.struct? d = some s → IsGrounded p d

/-- The widest scalar of a class is the same for both orders. -/
lemma widest_eq (h : p.Agree R p') (c : ClassRef) : widest p' c = widest p c := by
  have hin : ∀ (fuel : Nat) (c : ClassRef), widestIn p' fuel c = widestIn p fuel c := by
    intro fuel
    induction fuel with
    | zero => exact fun _ => rfl
    | succ fuel ih =>
      intro c
      unfold widestIn
      simp only [h.classOf_eq, ih]
  rw [widest, widest, h.length_classes, hin]

namespace LaidOutBy

variable (hp : LaidOutBy p layouts)
include hp

/-- The `simd` classes are those with a packed layout. -/
lemma struct?_isSome (W : Nat) (ds : Diagnostics) {k : Class} (hk : k ∈ p.classes)
    (hsimd : k.ref.isSimd) : ((packAll p layouts W ds).struct? k.ref).isSome := by
  have hground : ∀ k ∈ p.classes, IsGrounded p k.ref := by
    intro k hk
    obtain ⟨s, hs, -⟩ := hp.complete k hk
    exact hp.grounded k.ref s hs
  exact (packAll_isFlawless hp.program_wf (fun k hk => (hp.orderly k hk).vars_simd) hp.complete
    hground).2 k hk hsimd

/-- Packed layouts are found by the names of `simd` classes. -/
lemma isSome_byName_iff (W : Nat) (ds : Diagnostics) (name : String) :
    ((packAll p layouts W ds).byName.lookup name).isSome ↔
      ∃ k ∈ p.classes, k.ref.isSimd ∧ k.name = name := by
  have hnamed := packAll_isNamed hp.program_wf hp.fit W ds
  constructor
  · intro h
    obtain ⟨s, hs⟩ := Option.isSome_iff_exists.1 h
    obtain ⟨l₁, l₂, heq, -⟩ := List.lookup_eq_some_iff.1 hs
    exact hnamed.byName (name, s) (by simp [heq])
  · rintro ⟨k, hk, hsimd, rfl⟩
    obtain ⟨⟨_, s⟩, hx, rfl⟩ := hnamed.structs k hk (hp.struct?_isSome W ds hk hsimd)
    rw [Option.isSome_iff_ne_none]
    intro hnone
    exact absurd (List.lookup_eq_none_iff.1 hnone _ hx) (by simp)

/-- The packed member for a variable of a `simd` class. -/
lemma exists_member (W : Nat) (ds : Diagnostics) {k : Class} (hk : k ∈ p.classes)
    (hsimd : k.ref.isSimd) {v : MemberVar} (hv : v ∈ k.vars) :
    ∃ m, Packs p W (packAll p layouts W ds) k.ref v m := by
  obtain ⟨t, ht⟩ := Option.isSome_iff_exists.1 (hp.struct?_isSome W ds hk hsimd)
  have hpacked := packAll_isPackedAs hp.program_wf hp.fit hp.grounded ds ⟨k, hk, rfl⟩ ht
  have hv : v ∈ (p.classOf k.ref).vars := by rwa [hp.program_wf.classOf_eq hk]
  obtain ⟨m, -, hm⟩ := exists_of_forall₂ hpacked.members hv
  exact ⟨m, hm⟩

end LaidOutBy

/-- A member that is found is found for two orders, in the same form. -/
lemma exists_lookup_members (h : p.Agree R p') (hp : LaidOutBy p layouts)
    (hp' : LaidOutBy p' layouts') {ds : Diagnostics} (ds' : Diagnostics) {n : String × String}
    {x : PackedMember}
    (hx : (packAll p layouts W ds).members.lookup n = some x) :
    ∃ x', (packAll p' layouts' W ds').members.lookup n = some x' ∧ x.Alike x' := by
  obtain ⟨l₁, l₂, heq, -⟩ := List.lookup_eq_some_iff.1 hx
  obtain ⟨k, hk, hsimd, v, hv, rfl⟩ := (packAll_isNamed hp.program_wf hp.fit W ds).members (n, x)
    (by simp [heq])
  obtain ⟨m, hm⟩ := hp.exists_member W ds hk hsimd hv
  obtain ⟨m', hm'⟩ := hp'.exists_member W ds' (h.mem_classes hk) hsimd hv
  obtain rfl := Option.some.inj (hm.lookup_eq.symm.trans hx)
  refine ⟨_, hm'.lookup_eq, rfl, ?_⟩
  show m.isVector = m'.isVector
  cases ht : v.type with
  | cls q d =>
    obtain ⟨t, -, hshape⟩ := hm.holds.nested q d ht
    obtain ⟨t', -, hshape'⟩ := hm'.holds.nested q d ht
    rw [isVector_of_type?_eq_none (by rw [StructMember.type?, hshape]; rfl),
      isVector_of_type?_eq_none (by rw [StructMember.type?, hshape']; rfl)]
  | scalar | ptr | container | error =>
    have hshape := hm.holds.leaf (by rw [ht]; rfl)
    have hshape' := hm'.holds.leaf (by rw [ht]; rfl)
    have heq : packedShape p' W k.ref v.type = packedShape p W k.ref v.type := by
      unfold packedShape
      rw [widest_eq h]
    rw [StructMember.isVector, StructMember.isVector, StructMember.type?,
      StructMember.type?, hshape, hshape', heq]

/-- **Packed members for two orders** have the same form. -/
theorem member?_alike (h : p.Agree R p') (hp : LaidOutBy p layouts) (hp' : LaidOutBy p' layouts')
    (ds ds' : Diagnostics) (m : StructMember) : Option.Rel PackedMember.Alike
      ((packAll p layouts W ds).member? m) ((packAll p' layouts' W ds').member? m) := by
  unfold PackedLayouts.member?
  split
  · exact .some (.refl _)
  · rename_i owner _
    cases hx : (packAll p layouts W ds).members.lookup (owner, m.name) with
    | none =>
      cases hx' : (packAll p' layouts' W ds').members.lookup (owner, m.name) with
      | none => exact .none
      | some x' =>
        obtain ⟨x, hsome, -⟩ := exists_lookup_members h.symm hp' hp ds hx'
        cases hx.symm.trans hsome
    | some x =>
      obtain ⟨x', hx', halike⟩ := exists_lookup_members h hp hp' ds' hx
      rw [hx']
      exact .some halike

end Lane.Packing

/-! ## Runs -/

namespace Lane.Packing

open Code Lowering

variable {name : String} {e e' : Elaborated} {width : Int} {ds ds' : Diagnostics}
  {p p' : LoweredProgram} {l l' : PackedLayouts} {t : Task} {R : List ClassRef} {d d' : FuncDecl}

/-- **Programs that are lowered**: an elaborated program without errors, and its code. -/
structure IsCodeFor (e : Elaborated) (width : Int) (p : LoweredProgram) : Prop where
  typed : e.Typed
  orderly : e.program.All Class.Orderly
  isOk : p.isOk
  lower_eq : ∃ name ds, (e.lower name width ds).2 = .ok p

/-- The width of a lowered program is the one that was asked for, or the default. -/
lemma width_of_lower (hp : (e.lower name width ds).2 = .ok p) :
    p.width = if width ≤ 0 then defaultWidth else width.toNat := by
  unfold Elaborated.lower at hp
  dsimp only at hp
  split at hp
  · obtain rfl := Except.ok.inj hp
    rfl
  · unfold Elaborated.lowerWith at hp
    obtain ⟨d, -, hp⟩ := of_bind_eq_ok hp
    obtain ⟨fns, -, hp⟩ := of_bind_eq_ok hp
    obtain rfl := Except.ok.inj hp
    rfl

/-- A function has one number. -/
lemma number_unique (hp : e.program.WellFormed) {f : MemberFunction} {n m : Nat}
    (hn : (memberFuncs e)[n]? = some f) (hm : (memberFuncs e)[m]? = some f) : n = m := by
  obtain ⟨hlt, -⟩ := List.getElem?_eq_some_iff.1 hn
  exact (List.getElem?_inj hlt (nodup_memberFuncs hp)).1 (hn.trans hm.symm)

namespace IsCodeFor

variable (h : IsCodeFor e width p)
include h

/-- The layouts of a program are complete. -/
lemma layouts_eq : ∃ ds, p.layouts = layoutAll e.program ds ∧
    (layoutAll e.program ds).Complete e.program := by
  obtain ⟨name, ds, hp⟩ := h.lower_eq
  obtain ⟨hl, hlayouts, -⟩ := h.typed.of_lower_isOk hp h.isOk
  exact ⟨ds, hlayouts, h.typed.complete hl⟩

/-- A program has complete layouts. -/
lemma complete : p.layouts.Complete e.program := by
  obtain ⟨ds, heq, hl⟩ := h.layouts_eq
  exact heq ▸ hl

/-- A program is laid out. -/
lemma laidOutBy : LaidOutBy e.program p.layouts := by
  obtain ⟨ds, heq, hl⟩ := h.layouts_eq
  rw [heq]
  refine ⟨h.typed.program_wf, h.orderly, hl, layoutAll_fit h.typed.program_wf ds, ?_⟩
  rw [Lowering.layoutAll_eq]
  exact layoutEach_grounded e.program _ ds

/-- Tasks are functions to be packed. -/
lemma isTask (ht : t ∈ tasks e p l) : ∃ n, IsTask e p t n := by
  obtain ⟨name, ds, hp⟩ := h.lower_eq
  exact h.typed.isTask_of_mem hp h.isOk ht

/-- The packed version of a task is declared. -/
lemma packed?_of_mem (ht : t ∈ tasks e p l) :
    (packEnvOf e p l).packed? t.scalar.decl = some (t.decl l p.width) := by
  obtain ⟨name, ds, hp⟩ := h.lower_eq
  exact h.typed.packed?_of_mem hp ht

/-- The declaration of a task is found by its function. -/
lemma lookup_eq (ht : t ∈ tasks e p l) :
    (declaredOf e).decls.lookup (t.fn.cls.id, t.fn.index) = some t.scalar.decl := by
  obtain ⟨n, hn⟩ := h.isTask ht
  have hdeclares := mem_memberFuncs.1 (List.mem_of_getElem? hn.getElem?_eq)
  obtain ⟨m, hget, hm⟩ := exists_number h.typed.program_wf hdeclares
  obtain rfl := number_unique h.typed.program_wf hget hn.getElem?_eq
  rw [hm, hn.decl_eq]

/-- Foreign functions are not packed. -/
lemma packed?_foreign {n : String} (hd : (declaredOf e).foreigns.lookup n = some d) :
    (packEnvOf e p l).packed? d = none := by
  cases hx : (packEnvOf e p l).packed? d with
  | none => rfl
  | some x =>
    obtain ⟨t, ht, hid, -⟩ := exists_of_packed? hx
    obtain ⟨name, ds, hp⟩ := h.lower_eq
    obtain ⟨-, -, hnodup⟩ := h.typed.declare_of_lower hp h.isOk
    have hforeign : d ∈ (foreignsOf e).map Prod.snd := by
      obtain ⟨l₁, l₂, heq, -⟩ := List.lookup_eq_some_iff.1 hd
      have hmem : (n, d) ∈ foreignsOf e := by
        show (n, d) ∈ (declaredOf e).foreigns
        simp [heq]
      exact List.mem_map_of_mem (f := Prod.snd) hmem
    have hmember : t.scalar.decl ∈ (declsFrom e 0 (memberFuncs e)).map Prod.snd := by
      obtain ⟨l₁, l₂, heq, -⟩ := List.lookup_eq_some_iff.1 (h.lookup_eq ht)
      have hmem : ((t.fn.cls.id, t.fn.index), t.scalar.decl) ∈ declsFrom e 0 (memberFuncs e) := by
        show _ ∈ (declaredOf e).decls
        simp [heq]
      exact List.mem_map_of_mem (f := Prod.snd) hmem
    rw [declaredOf, List.map_append, List.nodup_append] at hnodup
    exact absurd hid.symm
      (hnodup.2.2 _ (List.mem_map_of_mem hforeign) _ (List.mem_map_of_mem hmember))

/-- **A function is to be packed** if it is declared `simd`, has code and was not added by the
compiler. -/
lemma exists_task {f : MemberFunction} {ds₁ : Diagnostics} (hl : l = layoutsOf e p ds₁)
    (hf : e.program.Declares f) (hsimd : f.isSimd) (hgen : f.isGenerated = false)
    (hclean : e.isClean f) : ∃ t ∈ tasks e p l, t.fn = f := by
  obtain ⟨name, ds, hp⟩ := h.lower_eq
  obtain ⟨-, -, hdeclared, -, hall⟩ := h.typed.of_lower_isOk hp h.isOk
  obtain ⟨c, hc, hfc⟩ := hf
  have hcls : c.ref.isSimd := (h.orderly c hc).funcs_simd f hfc hsimd
  have hstruct : (l.struct? c.ref).isSome := by
    rw [hl]
    exact h.laidOutBy.struct?_isSome p.width ds₁ hc hcls
  obtain ⟨n, hget, hn⟩ := exists_number h.typed.program_wf ⟨c, hc, hfc⟩
  obtain ⟨g, hg, m, hm, hfn⟩ := exists_of_forall₂ hall
    (List.mem_filter.2 ⟨mem_memberFuncs.2 ⟨c, hc, hfc⟩, hclean⟩)
  obtain rfl := number_unique h.typed.program_wf hget hm
  have hfound : (p.module.function? (memberDecl e f n).id).isSome :=
    List.find?_isSome.2 ⟨g, hg, by rw [decl_of_function_eq_ok hfn]; exact beq_self_eq_true _⟩
  obtain ⟨scalar, hscalar⟩ := Option.isSome_iff_exists.1 hfound
  refine ⟨⟨f, scalar⟩, List.mem_filterMap.2 ⟨f, List.mem_flatMap.2 ⟨c, ?_, hfc⟩, ?_⟩, rfl⟩
  · exact List.mem_filter.2 ⟨hc, by simp [hcls, hstruct]⟩
  · rw [if_pos (by simp [hsimd, hgen, hclean]), hdeclared, hn]
    show (p.module.function? (memberDecl e f n).id >>= _) = _
    rw [hscalar]
    rfl

/-- The code of a task is tidy. -/
lemma exists_isTidy (ht : t ∈ tasks e p l) :
    ∃ code, t.scalar.body = Function.frame code ∧ IsTidy code := by
  obtain ⟨n, hn⟩ := h.isTask ht
  have hcode : IsCodeOf e p.layouts p.width t.fn t.scalar := ⟨n, hn.function_eq⟩
  exact hcode.exists_isTidy h.typed h.complete
    (mem_memberFuncs.1 (List.mem_of_getElem? hn.getElem?_eq)) hn.clean

/-- The code to be packed is tidy. -/
lemma isTidy (ht : t ∈ tasks e p l) : IsTidy t.scalar.instrs := by
  obtain ⟨code, hbody, htidy⟩ := h.exists_isTidy ht
  exact htidy.instrs_eq hbody ▸ htidy

/-- No parameter or result of a task is a constant. -/
lemma ne_const (ht : t ∈ tasks e p l) :
    ∀ o ∈ t.scalar.params ++ t.scalar.results, ∀ c, o ≠ .const c := by
  obtain ⟨n, hn⟩ := h.isTask ht
  have hvars := regular_of_function hn.function_eq
  intro o ho c hc
  obtain ⟨-, v, rfl⟩ := hvars.params_vars.append hvars.results_vars o ho
  cases hc

end IsCodeFor

/-- Only functions that are declared `simd` are to be packed. -/
lemma isSimd_of_mem_tasks (ht : t ∈ tasks e p l) : t.fn.isSimd := by
  obtain ⟨f, -, ht⟩ := List.mem_filterMap.1 ht
  split at ht
  · rename_i hcond
    simp only [Bool.and_eq_true] at hcond
    obtain ⟨d, -, ht⟩ := Option.bind_eq_some_iff.1 ht
    obtain ⟨scalar, -, ht⟩ := Option.bind_eq_some_iff.1 ht
    obtain rfl := Option.some.inj ht
    exact hcond.1.1
  · cases ht

/-- **Declarations of the same function** of two programs. -/
def Pairs (e e' : Elaborated) (d d' : FuncDecl) : Prop :=
  (∃ k, (declaredOf e).decls.lookup k = some d ∧ (declaredOf e').decls.lookup k = some d') ∨
    ∃ n, (declaredOf e).foreigns.lookup n = some d ∧ (declaredOf e').foreigns.lookup n = some d'

/-- Both programs have the same width. -/
lemma IsCodeFor.width_eq (h : IsCodeFor e width p) (h' : IsCodeFor e' width p') :
    p'.width = p.width := by
  obtain ⟨name, ds, hp⟩ := h.lower_eq
  obtain ⟨name', ds', hp'⟩ := h'.lower_eq
  rw [width_of_lower hp, width_of_lower hp']

/-- Tasks with the same function have declarations of the same function. -/
lemma IsCodeFor.pairs (h : IsCodeFor e width p) (h' : IsCodeFor e' width p') {t' : Task}
    (ht : t ∈ tasks e p l) (ht' : t' ∈ tasks e' p' l') (hfn : t'.fn = t.fn) :
    Pairs e e' t.scalar.decl t'.scalar.decl :=
  .inl ⟨_, h.lookup_eq ht, hfn ▸ h'.lookup_eq ht'⟩

/-- A task of which a packed version can be made. -/
def HasPacked (e : Elaborated) (p : LoweredProgram) (l : PackedLayouts) (t : Task) : Prop :=
  ∃ d g, (packEnvOf e p l).packed? t.scalar.decl = some d ∧
    packFunction (packEnvOf e p l) d t.scalar = .ok g

/-- Functions that can be packed are packed without errors. -/
lemma errors_packFunctions {env : PackEnv} : ∀ {ts : List Task} {r : PackedFunctions},
    (∀ t ∈ ts, ∃ d g, env.packed? t.scalar.decl = some d ∧ packFunction env d t.scalar = .ok g) →
    (packFunctions env ts r).errors = r.errors
  | [], _, _ => rfl
  | t :: ts, r, h => by
    obtain ⟨⟨d, g, hd, hg⟩, hts⟩ := List.forall_mem_cons.1 h
    unfold packFunctions
    rw [hd]
    dsimp only
    rw [hg]
    exact errors_packFunctions hts

/-- **What packing finds**: whether all tasks have packed versions. -/
lemma isOk_pack_iff {q : PackedProgram} (hq : (p.pack e ds).2 = .ok q) (hl : l = layoutsOf e p ds)
    (herr : l.errors = 0) : q.isOk ↔ ∀ t ∈ tasks e p l, HasPacked e p l t := by
  constructor
  · intro hok t ht
    obtain ⟨gs, -, -, -, hall⟩ := of_pack_eq_ok hq hok hl
    obtain ⟨g, -, d, hd, hg⟩ := exists_of_forall₂ hall ht
    exact ⟨d, g, hd, hg⟩
  · intro hall
    subst hl
    unfold LoweredProgram.pack at hq
    extract_lets l ts at hq
    cases hdecl : declareAll l p.width ts p.module.registry with
    | error x =>
      rw [hdecl] at hq
      cases hq
    | ok r =>
      obtain ⟨registry, decls⟩ := r
      obtain ⟨rfl, -, -⟩ := of_declareAll_eq_ok l p.width hdecl
      rw [hdecl] at hq
      simp only at hq
      split at hq
      · cases hq
      · obtain rfl := Except.ok.inj hq
        refine beq_iff_eq.2 (Nat.add_eq_zero_iff.2 ⟨herr, ?_⟩)
        exact @errors_packFunctions (packEnvOf e p l) _ _ hall

end Lane.Packing

namespace Lane.Elaborated.Reordered

open Code Lowering Packing

variable {R : List ClassRef} {e e' : Elaborated} {width : Int} {p p' : LoweredProgram}
  {ds ds' : Diagnostics} {l l' : PackedLayouts} {t t' : Task} {d d' : FuncDecl} {x : DeclLanes}

section Runs

variable (h : Reordered R e e') (hr : IsCodeFor e width p) (hr' : IsCodeFor e' width p')
include h hr hr'

/-- Both programs have the same structs. -/
lemma struct?_eq (c : ClassRef) : p'.layouts.struct? c = p.layouts.struct? c := by
  obtain ⟨ds, heq, hl⟩ := hr.layouts_eq
  obtain ⟨ds', heq', hl'⟩ := hr'.layouts_eq
  rw [heq, heq']
  exact h.agree.struct?_layoutAll hr.typed.program_wf hr'.typed.program_wf hl hl' c

/-- **The same functions are to be packed** for two orders. -/
lemma exists_task (hl' : l' = layoutsOf e' p' ds') (ht : t ∈ tasks e p l) :
    ∃ t' ∈ tasks e' p' l', t'.fn = t.fn := by
  obtain ⟨n, hn⟩ := hr.isTask ht
  have hdeclares := h.agree.declares (mem_memberFuncs.1 (List.mem_of_getElem? hn.getElem?_eq))
  have hclean : e'.isClean t.fn := by
    rw [h.isClean_eq hr.typed]
    exact hn.clean
  exact hr'.exists_task hl' hdeclares (isSimd_of_mem_tasks ht) hn.not_generated hclean

/-- A packed version that is declared is declared for two orders. -/
lemma exists_packed? (hl' : l' = layoutsOf e' p' ds') {k : Nat × Nat}
    (hd : (declaredOf e).decls.lookup k = some d) (hd' : (declaredOf e').decls.lookup k = some d')
    (hx : (packEnvOf e p l).packed? d = some x) :
    ∃ t ∈ tasks e p l, ∃ t' ∈ tasks e' p' l', t'.fn = t.fn ∧ x = t.decl l p.width ∧
      (packEnvOf e' p' l').packed? d' = some (t'.decl l' p'.width) := by
  obtain ⟨t, ht, hid, rfl⟩ := exists_of_packed? hx
  obtain ⟨n, hn⟩ := hr.isTask ht
  obtain ⟨f, m, rfl, hf, rfl⟩ := of_lookup_declaredOf hd
  rw [hn.decl_eq] at hid
  obtain rfl := identifier_injective hid
  obtain rfl := Option.some.inj (hf.symm.trans hn.getElem?_eq)
  obtain ⟨t', ht', hfn⟩ := h.exists_task hr hr' hl' ht
  have hlookup := hr'.lookup_eq ht'
  rw [hfn] at hlookup
  obtain rfl := Option.some.inj (hlookup.symm.trans hd')
  exact ⟨t, ht, t', ht', hfn, rfl, hr'.packed?_of_mem ht'⟩

/-- The lanes of parameters are the same for two orders. -/
lemma paramLane_eq (hl : l = layoutsOf e p ds) (hl' : l' = layoutsOf e' p' ds') {u : Ty}
    (hu : e.program.Valid u) : paramLane l u = paramLane l' u := by
  cases u with
  | cls q c =>
    obtain ⟨k, hk, rfl⟩ := hu
    cases hsimd : k.ref.isSimd with
    | false => simp [paramLane, hsimd]
    | true =>
      have hsome : (l.struct? k.ref).isSome := by
        rw [hl]
        exact hr.laidOutBy.struct?_isSome p.width ds hk hsimd
      have hsome' : (l'.struct? k.ref).isSome := by
        rw [hl']
        exact hr'.laidOutBy.struct?_isSome p'.width ds' (h.agree.mem_classes hk) hsimd
      simp [paramLane, hsimd, hsome, hsome']
  | scalar q k => cases q <;> rfl
  | ptr | container | error => rfl

/-- Packed declarations have the same lanes for two orders. -/
lemma decl_alike (hl : l = layoutsOf e p ds) (hl' : l' = layoutsOf e' p' ds') (ht : t ∈ tasks e p l)
    (ht' : t' ∈ tasks e' p' l') (hfn : t'.fn = t.fn) :
    (t.decl l p.width).Alike (Pairs e e') p.width p'.width (t'.decl l' p'.width) := by
  obtain ⟨n, hn⟩ := hr.isTask ht
  have hvalid := (mem_memberFuncs.1 (List.mem_of_getElem? hn.getElem?_eq)).validFunc
    hr.typed.program_wf
  have hlanes : (t.fn.sig.params ++ t.fn.sig.hiddenResults).map (fun a => paramLane l a.type) =
      (t.fn.sig.params ++ t.fn.sig.hiddenResults).map fun a => paramLane l' a.type := by
    refine List.map_congr_left fun a ha => h.paramLane_eq hr hr' hl hl' ?_
    obtain ha | ha := List.mem_append.1 ha
    · exact (hvalid.params_valid a ha).1
    · exact (hvalid.results_valid a (List.mem_filter.1 ha).1).1
  refine ⟨?_, ?_, _, _, hr.pairs hr' ht ht' hfn, rfl, rfl⟩
  · simp only [Task.decl, declLanes, hfn, hlanes]
  · simp only [Task.decl, declLanes, hfn]

/-- **What packing relies on** is alike for two orders. -/
theorem packEnvOf_alike (hl : l = layoutsOf e p ds) (hl' : l' = layoutsOf e' p' ds') :
    (packEnvOf e p l).Alike (Pairs e e') (packEnvOf e' p' l') where
  offset? := by
    subst hl hl'
    refine offset?_alike ?_
    unfold layoutsOf
    rw [hr.width_eq hr']
    exact member?_alike h.agree hr.laidOutBy hr'.laidOutBy ds ds'
  isSome_byName name := by
    subst hl hl'
    refine Bool.eq_iff_iff.2 ?_
    show ((packAll _ _ _ _).byName.lookup name).isSome ↔
      ((packAll _ _ _ _).byName.lookup name).isSome
    rw [hr.laidOutBy.isSome_byName_iff, hr'.laidOutBy.isSome_byName_iff]
    constructor
    · rintro ⟨k, hk, hname⟩
      exact ⟨k, h.agree.mem_classes hk, hname⟩
    · rintro ⟨k, hk, hname⟩
      exact ⟨k, h.symm.agree.mem_classes hk, hname⟩
  packed? {d d'} hd := by
    obtain ⟨k, hd, hd'⟩ | ⟨n, hd, hd'⟩ := hd
    · cases hx : (packEnvOf e p l).packed? d with
      | some x =>
        obtain ⟨t, ht, t', ht', hfn, rfl, hx'⟩ := h.exists_packed? hr hr' hl' hd hd' hx
        rw [hx']
        exact .some (h.decl_alike hr hr' hl hl' ht ht' hfn)
      | none =>
        cases hx' : (packEnvOf e' p' l').packed? d' with
        | none => exact .none
        | some x' =>
          obtain ⟨_, _, _, _, _, _, hsome⟩ := h.symm.exists_packed? hr' hr hl hd' hd hx'
          cases hx.symm.trans hsome
    · rw [hr.packed?_foreign hd, hr'.packed?_foreign hd']
      exact .none
  isWide_iff := by
    show 1 < p.width ↔ 1 < p'.width
    rw [hr.width_eq hr']

/-- The code of a task is alike for two orders. -/
lemma scalar_alike (ht : t ∈ tasks e p l) (ht' : t' ∈ tasks e' p' l') (hfn : t'.fn = t.fn) :
    t.scalar.Alike (Pairs e e') t'.scalar := by
  obtain ⟨n, hn⟩ := hr.isTask ht
  obtain ⟨n', hn'⟩ := hr'.isTask ht'
  obtain ⟨code, hbody, htidy⟩ := hr.exists_isTidy ht
  obtain ⟨code', hbody', htidy'⟩ := hr'.exists_isTidy ht'
  have hfunction := hn'.function_eq
  rw [hfn] at hfunction
  exact alike_of_function (h.similar hr.typed hr'.typed (h.struct?_eq hr hr') p.width p'.width _ _)
    (h.build_eq hr.typed t.fn) hn.function_eq hfunction hbody hbody' htidy htidy'

/-- A task that has a packed version has one for another order. -/
lemma hasPacked (hl : l = layoutsOf e p ds) (hl' : l' = layoutsOf e' p' ds') (ht : t ∈ tasks e p l)
    (ht' : t' ∈ tasks e' p' l') (hfn : t'.fn = t.fn) (hpacked : HasPacked e p l t) :
    HasPacked e' p' l' t' := by
  obtain ⟨d, g, hd, hg⟩ := hpacked
  have hpair := hr.pairs hr' ht ht' hfn
  have henv := h.packEnvOf_alike hr hr' hl hl'
  obtain ⟨hx, -⟩ | ⟨x, x', hx, hx', hdecl⟩ := of_rel (henv.packed? hpair)
  · cases hd.symm.trans hx
  · obtain rfl := Option.some.inj (hd.symm.trans hx)
    have hend := packFunction_alike henv hdecl (h.scalar_alike hr hr' ht ht' hfn) (hr.isTidy ht)
      (hr'.isTidy ht') (hr.ne_const ht)
    rw [hg] at hend
    cases hg' : packFunction (packEnvOf e' p' l') x' t'.scalar with
    | ok g' => exact ⟨x', g', hx', hg'⟩
    | error y =>
      rw [hg'] at hend
      cases hend

/-- All tasks have packed versions if they have for another order. -/
lemma forall_hasPacked (hl : l = layoutsOf e p ds) (hl' : l' = layoutsOf e' p' ds')
    (hall : ∀ t ∈ tasks e p l, HasPacked e p l t) :
    ∀ t' ∈ tasks e' p' l', HasPacked e' p' l' t' := by
  intro t' ht'
  obtain ⟨t, ht, hfn⟩ := h.symm.exists_task hr' hr hl ht'
  exact h.hasPacked hr hr' hl hl' ht ht' hfn.symm (hall t ht)

/-- **What packing finds** does not depend on the order of declarations. -/
theorem isOk_eq_of_pack {q q' : PackedProgram} (hq : (p.pack e ds).2 = .ok q)
    (hq' : (p'.pack e' ds').2 = .ok q') : q'.isOk = q.isOk := by
  have herr : (layoutsOf e p ds).errors = 0 :=
    errors_packAll hr.typed.program_wf hr.orderly p.layouts p.width ds
  have herr' : (layoutsOf e' p' ds').errors = 0 :=
    errors_packAll hr'.typed.program_wf hr'.orderly p'.layouts p'.width ds'
  refine Bool.eq_iff_iff.2 ?_
  rw [isOk_pack_iff hq rfl herr, isOk_pack_iff hq' rfl herr']
  exact ⟨h.symm.forall_hasPacked hr' hr rfl rfl, h.forall_hasPacked hr hr' rfl rfl⟩

end Runs

end Lane.Elaborated.Reordered

/-! ## Programs in two orders -/

namespace Lane.ProgramSyntax.Reordered

open Code Lowering Packing

/-- **The order of declarations does not matter.** Let classes have names of their own and foreign
functions have names of their own. For any two orders of them, the analysis finds the same, in some
order, and accepts both programs or none. If it accepts them, then whatever was reported before,
lowering finds a cycle among classes in both or in none, and packing refuses a function in both or
in none. With names of foreign functions that are no identifiers of member functions, both are
lowered or none, and what is lowered is packed.

**Proof sketch.** A declaration sees the names of classes and its own zone only, so that those of
one round may be made in any order (`Elaborated.ofSyntax_perm`). Then the same is known of all
classes and functions. A class has the same struct wherever it was laid out first
(`struct?_layoutEach_unique`), so that functions have the same code apart from the numbers of
declarations, and packing takes the same steps on them (`packFunction_alike`). -/
theorem found_alike {t t' : ProgramSyntax} (h : t.Reordered t') (ds : Diagnostics) :
    (∃ found found', List.Perm found found' ∧ (Elaborated.ofSyntax t ds).2 = ds.append found ∧
      (Elaborated.ofSyntax t' ds).2 = ds.append found') ∧
    (Elaborated.ofSyntax t' ds).1.isOk = (Elaborated.ofSyntax t ds).1.isOk ∧
    ((Elaborated.ofSyntax t ds).1.isOk → ∀ name width ds₁ ds₁',
      (∀ p p', ((Elaborated.ofSyntax t ds).1.lower name width ds₁).2 = .ok p →
        ((Elaborated.ofSyntax t' ds).1.lower name width ds₁').2 = .ok p' → p'.isOk = p.isOk ∧
        ∀ ds₂ ds₂' q q', (p.pack (Elaborated.ofSyntax t ds).1 ds₂).2 = .ok q →
          (p'.pack (Elaborated.ofSyntax t' ds).1 ds₂').2 = .ok q' → q'.isOk = q.isOk) ∧
      ((∀ d ∈ t.foreigns, IsPlain d.name) →
        ((∃ p, ((Elaborated.ofSyntax t ds).1.lower name width ds₁).2 = .ok p) ↔
          ∃ p', ((Elaborated.ofSyntax t' ds).1.lower name width ds₁').2 = .ok p') ∧
        (∀ p, ((Elaborated.ofSyntax t ds).1.lower name width ds₁).2 = .ok p →
          ∀ ds₂, ∃ q, (p.pack (Elaborated.ofSyntax t ds).1 ds₂).2 = .ok q) ∧
        ∀ p', ((Elaborated.ofSyntax t' ds).1.lower name width ds₁').2 = .ok p' →
          ∀ ds₂, ∃ q', (p'.pack (Elaborated.ofSyntax t' ds).1 ds₂).2 = .ok q')) := by
  obtain ⟨hre, hfound⟩ := Elaborated.ofSyntax_perm h ds ds
  refine ⟨hfound, hre.isOk_eq, fun hok name width ds₁ ds₁' => ?_⟩
  have hok' : (Elaborated.ofSyntax t' ds).1.isOk := hre.isOk_eq.trans hok
  obtain ⟨he, hnames⟩ := Elaborated.typed_of_isOk t ds hok
  obtain ⟨he', -⟩ := Elaborated.typed_of_isOk t' ds hok'
  have ho := Elaborated.orderly_of_isOk t ds hok
  have ho' := Elaborated.orderly_of_isOk t' ds hok'
  refine ⟨fun p p' hp hp' => ?_, fun hplain => ?_⟩
  · have hisOk := hre.isOk_eq_of_lower he he' hp hp'
    refine ⟨hisOk, fun ds₂ ds₂' q q' hq hq' => ?_⟩
    cases hpok : p.isOk with
    | true =>
      exact hre.isOk_eq_of_pack ⟨he, ho, hpok, name, ds₁, hp⟩
        ⟨he', ho', hisOk.trans hpok, name, ds₁', hp'⟩ hq hq'
    | false =>
      -- Nothing is to be packed if a class has no layout.
      rw [(isOk_pack_iff hq rfl (errors_packAll he.program_wf ho _ _ _)).2 fun u hu =>
          absurd (isOk_of_mem_tasks hp hu) (by simp [hpok]),
        (isOk_pack_iff hq' rfl (errors_packAll he'.program_wf ho' _ _ _)).2 fun u hu =>
          absurd (isOk_of_mem_tasks hp' hu) (by simp [hisOk, hpok])]
  · have hn : ∀ f ∈ (Elaborated.ofSyntax t ds).1.program.foreigns, IsPlain f.name := by
      intro f hf
      obtain ⟨d, hd, hname⟩ := List.mem_map.1 (hnames f hf)
      exact hname ▸ hplain d hd
    have hn' := hre.isPlain_foreign hn
    exact ⟨⟨hre.exists_lower he he' hn, hre.symm.exists_lower he' he hn'⟩,
      fun p hp => he.exists_packed hn hp, fun p' hp' => he'.exists_packed hn' hp'⟩

/-- A class that holds another one, with a `simd` function that is refused, and two foreign
functions. -/
def twoOrders : String :=
  "extern n() -> (r: int); extern m() -> (r: int);
    class V { var p: P; }
    simd class P { var a: bool; var x: int; simd writer w() { self.x = self.x + self.x; }
    simd writer b() { if self.a { self.x = 1; } } }"

/-- A class that holds another one, and two foreign functions, in two orders: a packed version is
refused in both. -/
theorem found_alike_reverse : ∃ t : ProgramSyntax,
    (ProgramSyntax.parse "" (Rune.ascii twoOrders)).2 = some t ∧
    t.classes.map ClassSyntax.name = ["V", "P"] ∧
    t.Reordered ⟨t.classes.reverse, t.foreigns.reverse⟩ ∧ ∃ e e' p p' q q',
      e = (Elaborated.ofSyntax t {}).1 ∧
      e' = (Elaborated.ofSyntax ⟨t.classes.reverse, t.foreigns.reverse⟩ {}).1 ∧
      (e.lower "" 4 {}).2 = .ok p ∧ (e'.lower "" 4 {}).2 = .ok p' ∧ p.isOk ∧ p'.isOk ∧
      (p.pack e {}).2 = .ok q ∧ (p'.pack e' {}).2 = .ok q' ∧ q.isOk = false ∧ q'.isOk = false := by
  have hrun : (ProgramSyntax.parse "" (Rune.ascii twoOrders)).2.any fun t =>
        t.classes.map ClassSyntax.name == ["V", "P"] &&
          t.foreigns.map ForeignSyntax.name == ["n", "m"] && (Elaborated.ofSyntax t {}).1.isOk &&
          ((Elaborated.ofSyntax t {}).1.lower "" 4 {}).2.toOption.any fun p => p.isOk &&
            (p.pack (Elaborated.ofSyntax t {}).1 {}).2.toOption.any fun q => !q.isOk := by
    rw [twoOrders, Rune.ascii_ofList]
    decide +kernel
  obtain ⟨t, hparse, hrun⟩ := (Option.any_eq_true ..).1 hrun
  simp only [Bool.and_eq_true, beq_iff_eq] at hrun
  obtain ⟨⟨⟨hclasses, hforeigns⟩, hok⟩, hrun⟩ := hrun
  obtain ⟨p, hp, hrun⟩ := (Option.any_eq_true ..).1 hrun
  obtain ⟨hpok, hrun⟩ := Bool.and_eq_true_iff.1 hrun
  obtain ⟨q, hq, hqok⟩ := (Option.any_eq_true ..).1 hrun
  have of_toOption : ∀ {α : Type} {x : Checked α} {a}, x.toOption = some a → x = .ok a := by
    rintro α (_ | a) b hb
    · cases hb
    · exact congrArg _ (Option.some.inj hb)
  have h : t.Reordered ⟨t.classes.reverse, t.foreigns.reverse⟩ :=
    ⟨(List.reverse_perm _).symm, (List.reverse_perm _).symm, by rw [hclasses]; decide,
      by rw [hforeigns]; decide⟩
  obtain ⟨-, -, hall⟩ := found_alike h {}
  obtain ⟨hflags, hplain⟩ := hall hok "" 4 {} {}
  obtain ⟨hlower, -, hpack⟩ := hplain fun d hd => isPlain_of_parse hparse d hd
  obtain ⟨p', hp'⟩ := hlower.1 ⟨p, of_toOption hp⟩
  obtain ⟨q', hq'⟩ := hpack p' hp' {}
  obtain ⟨hisOk, hpacked⟩ := hflags p p' (of_toOption hp) hp'
  have hqok : q.isOk = false := by simpa using hqok
  exact ⟨t, hparse, hclasses, h, _, _, p, p', q, q', rfl, rfl, of_toOption hp, hp', hpok,
    hisOk.trans hpok, of_toOption hq, hq', hqok,
    (hpacked {} {} q q' (of_toOption hq) hq').trans hqok⟩

end Lane.ProgramSyntax.Reordered
