import Lane.Proofs.Analysis.Order
import Lane.Proofs.Lowering.Containment
import Lane.Proofs.Lowering.Widths

set_option relaxedAutoImplicit false
set_option autoImplicit false

/-!
# The order of declarations and code

Classes are laid out one inside the other, so that the first class may lay out all others. Whatever
the order, a class has the same struct: its members are determined by the variables of the class and
by the structs of the classes that it holds. So programs whose declarations are written in different
orders are laid out alike, and their functions have the same code, apart from the numbers in the
identifiers of functions.

## Main results

* `Lane.Lowering.struct?_layoutEach_unique`: the struct of a class.
* `Lane.Program.Agree.struct?_layoutAll`: layouts for two orders.
* `Lane.Elaborated.Reordered.similar`: environments for two orders.
* `Lane.Elaborated.Reordered.isOk_eq_of_lower`, `Lane.Elaborated.Reordered.exists_lower`: which
  programs are lowered.
-/

namespace Lane.Code

/-- Members that are placed one after the other are determined by their names and shapes. -/
lemma Stacked.unique {ms ms' : List StructMember} {n k k' : Int64} (h : Stacked n ms k)
    (h' : Stacked n ms' k')
    (hall : List.Forall₂ (fun m m' => m.owner = m'.owner ∧ m.name = m'.name ∧ m.shape = m'.shape)
      ms ms') : ms = ms' ∧ k = k' := by
  induction hall generalizing n with
  | nil => exact ⟨rfl, h.trans h'.symm⟩
  | @cons m m' ms ms' hsame _ ih =>
    obtain ⟨howner, hname, hshape⟩ := hsame
    obtain ⟨hoff, h⟩ := h
    obtain ⟨hoff', h'⟩ := h'
    have hoffset : m.offset = m'.offset := by rw [hoff, hoff', hshape]
    obtain rfl : m = m' := by
      cases m
      cases m'
      simp_all
    obtain ⟨rfl, rfl⟩ := ih h h'
    exact ⟨rfl, rfl⟩

end Lane.Code

namespace Lane.Lowering

open Code

variable {p p' : Program} {c d : ClassRef} {k : Class} {l : Layouts} {s s' : Struct}
  {S S' : ClassRef → Option Struct}

/-! ## Structs of classes -/

/-- Structs that are no packed ones. -/
def Layouts.AreScalar (l : Layouts) : Prop :=
  ∀ c s, l.struct? c = some s → s.isPacked = false ∧ s.lanes = 0

/-- Member variables are placed in a struct of the same kind. -/
lemma isPacked_placeVars {nested : ClassRef → Layouts → Option Struct × Layouts} :
    ∀ (vs : List MemberVar) (s : Struct) (ok : Bool) (l : Layouts) {t : Struct},
      (placeVars nested vs s ok l).1 = some t → t.isPacked = s.isPacked ∧ t.lanes = s.lanes
  | [], s, ok, l, t, h => by
    simp only [placeVars] at h
    split at h
    · obtain rfl := Option.some.inj h
      exact ⟨rfl, rfl⟩
    · cases h
  | v :: vs, s, ok, l, t, h => by
    unfold placeVars at h
    split at h
    · split at h
      all_goals
        have hrest := isPacked_placeVars vs _ _ _ h
        exact hrest
    all_goals
      have hrest := isPacked_placeVars vs _ _ _ h
      exact hrest

/-- The layout of a class keeps layouts scalar. -/
lemma areScalar_layoutIn : ∀ (fuel : Nat) (building : List Class) (c : ClassRef) (l : Layouts),
    l.AreScalar → (layoutIn p fuel building c l).2.AreScalar
  | 0, _, _, _, h => h
  | fuel + 1, building, c, l, h => by
    unfold layoutIn
    split
    · exact h
    · simp only
      split
      · intro d s hs
        obtain hs | ⟨-, hs⟩ := of_struct?_record hs
        · exact (placeVars_placed (I := Layouts.AreScalar)
            (areScalar_layoutIn fuel (building ++ [p.classOf c])) (p.classOf c).vars
            (.empty (p.classOf c).name) true l h).1 d s hs
        · exact isPacked_placeVars _ _ _ _ hs
      · exact h

/-- The layouts of all classes are scalar. -/
lemma areScalar_layoutEach (p : Program) (cs : List ClassRef) (ds : Diagnostics) :
    (layoutEach p cs { diagnostics := ds }).AreScalar :=
  layoutEach_induction (fun _ _ _ => areScalar_layoutIn _ _ _ _) fun c s hs => by
    simp [Layouts.struct?, Layouts.find?] at hs

/-- The layouts of all classes fit the program. -/
lemma layoutEach_fit (hp : p.WellFormed) (cs : List ClassRef) (ds : Diagnostics) :
    (layoutEach p cs { diagnostics := ds }).Fit p :=
  layoutEach_induction (fun _ _ _ => layoutIn_fit hp _ _ _ _) fun d _ s hs => by
    simp [Layouts.struct?, Layouts.find?] at hs

/-- The structs that lay out a class are the same, if those of the classes that it holds are. -/
lemma Lays.unique (h : Lays p S instanceShape c s) (h' : Lays p S' instanceShape c s')
    (hk : p.classOf c = k) (hf : s.Fits k) (hf' : s'.Fits k) (hpacked : s.isPacked = s'.isPacked)
    (hlanes : s.lanes = s'.lanes)
    (hS : ∀ d, Nests p c d → ∀ t t', S d = some t → S' d = some t' → t = t') : s = s' := by
  subst hk
  have hlen := h.members.length_eq
  have hlen' := h'.members.length_eq
  have hall : List.Forall₂ (fun m m' : StructMember =>
      m.owner = m'.owner ∧ m.name = m'.name ∧ m.shape = m'.shape) s.members s'.members := by
    refine List.forall₂_iff_get.2 ⟨hlen.symm.trans hlen', fun i hi hi' => ?_⟩
    have hv : i < (p.classOf c).vars.length := hlen ▸ hi
    have hm := h.members.get hv hi
    have hm' := h'.members.get hv hi'
    refine ⟨(hf.places.get hv hi).owner_eq.trans (hf'.places.get hv hi').owner_eq.symm,
      hm.name_eq.trans hm'.name_eq.symm, ?_⟩
    cases ht : ((p.classOf c).vars.get ⟨i, hv⟩).type with
    | cls q d =>
      obtain ⟨t, hd, hshape⟩ := hm.nested q d ht
      obtain ⟨t', hd', hshape'⟩ := hm'.nested q d ht
      rw [hshape, hshape', hS d ⟨_, List.get_mem .., q, ht⟩ t t' hd hd']
    | scalar | ptr | container | error =>
      rw [hm.leaf (by rw [ht]; rfl), hm'.leaf (by rw [ht]; rfl)]
  obtain ⟨⟨n, hstacked, hsize⟩, halign⟩ := h.isStacked
  obtain ⟨⟨n', hstacked', hsize'⟩, halign'⟩ := h'.isStacked
  obtain ⟨hmembers, rfl⟩ := hstacked.unique hstacked' hall
  have hname : s.name = s'.name := hf.name_eq.trans hf'.name_eq.symm
  have halign : s.align = s'.align := by
    rw [halign, halign', Struct.shapes, Struct.shapes, hmembers]
  have hsize : s.size = s'.size := by rw [hsize, hsize', halign]
  cases s
  cases s'
  exact Struct.mk.injEq .. ▸ ⟨hname, hmembers, hsize, halign, hpacked, hlanes⟩

/-- **The struct of a class** is the same, in whatever order classes are laid out.

**Proof sketch.** By induction on how deep the class holds others. -/
theorem struct?_layoutEach_unique (hp : p.WellFormed) (cs cs' : List ClassRef)
    (ds ds' : Diagnostics)
    (hc : p.Valid (.cls .var c)) (hs : (layoutEach p cs { diagnostics := ds }).struct? c = some s)
    (hs' : (layoutEach p cs' { diagnostics := ds' }).struct? c = some s') : s = s' := by
  have hground := layoutEach_grounded p cs ds c s hs
  induction hground generalizing s s' with
  | intro c _ ih =>
    obtain ⟨k, hk, rfl⟩ := hc
    obtain ⟨hpacked, hlanes⟩ := areScalar_layoutEach p cs ds _ _ hs
    obtain ⟨hpacked', hlanes'⟩ := areScalar_layoutEach p cs' ds' _ _ hs'
    exact (layoutEach_lay hp cs ds k hk s hs).unique (layoutEach_lay hp cs' ds' k hk s' hs')
      (hp.classOf_eq hk) (layoutEach_fit hp cs ds k hk s hs) (layoutEach_fit hp cs' ds' k hk s' hs')
      (hpacked.trans hpacked'.symm) (hlanes.trans hlanes'.symm) fun d hd t t' ht ht' =>
        ih d hd (hd.valid hp) ht ht'

/-- Laying out a class reads only what is known about classes. -/
lemma layoutIn_eq_of_classOf (h : ∀ c, p'.classOf c = p.classOf c) :
    ∀ fuel, layoutIn p' fuel = layoutIn p fuel
  | 0 => rfl
  | fuel + 1 => by
    funext building c l
    unfold layoutIn
    rw [layoutIn_eq_of_classOf h fuel]
    simp only [h]

end Lane.Lowering

namespace Lane.Program.Agree

open Code Lowering

variable {p p' : Program} {R : List ClassRef} {c d : ClassRef} (h : p.Agree R p')
include h

/-- All layouts are those of the classes, one after the other. -/
lemma layoutAll_eq (ds : Diagnostics) :
    layoutAll p' ds = layoutEach p (p'.classes.map Class.ref) { diagnostics := ds } := by
  rw [Lowering.layoutAll_eq]
  unfold layoutEach layout
  rw [h.length_classes, layoutIn_eq_of_classOf h.classOf_eq]

/-- Classes hold each other in both programs alike. -/
lemma nests_iff : Nests p' c d ↔ Nests p c d := by
  unfold Nests
  rw [h.classOf_eq]

/-- The same classes hold each other. -/
lemma isOnCycle_iff : IsOnCycle p' c ↔ IsOnCycle p c := by
  unfold IsOnCycle
  rw [show Nests p' = Nests p from funext₂ fun _ _ => propext h.nests_iff]

/-- **Layouts for two orders**: if all classes are laid out, they have the same structs. -/
theorem struct?_layoutAll (hp : p.WellFormed) (hp' : p'.WellFormed) {ds ds' : Diagnostics}
    (hl : (layoutAll p ds).Complete p) (hl' : (layoutAll p' ds').Complete p') (c : ClassRef) :
    (layoutAll p' ds').struct? c = (layoutAll p ds).struct? c := by
  obtain ⟨k, hk, hid, -⟩ | ⟨hnone, -⟩ := p.classOf_mem_or c
  · obtain ⟨s, hs, -⟩ := hl k hk
    obtain ⟨s', hs', -⟩ := hl' k (h.mem_classes hk)
    have hsame : ∀ l : Layouts, l.struct? c = l.struct? k.ref := fun l => by
      rw [Layouts.struct?, Layouts.struct?, Layouts.find?, Layouts.find?, hid]
    rw [hsame, hsame, hs, hs']
    rw [h.layoutAll_eq] at hs'
    rw [Lowering.layoutAll_eq] at hs
    rw [struct?_layoutEach_unique hp _ _ ds ds' ⟨k, hk, rfl⟩ hs hs']
  · -- Nothing is known about a class that is not declared.
    have undeclared : ∀ {p : Program} (hp : p.WellFormed) (ds : Diagnostics),
        (∀ d ∈ p.classes, d.ref.id ≠ c.id) → (layoutAll p ds).struct? c = none := by
      intro p hp ds hnone
      cases hs : (layoutAll p ds).struct? c with
      | none => rfl
      | some s =>
        rw [Lowering.layoutAll_eq] at hs
        have hexact := layoutEach_isExact hp (fun c hc => valid_of_mem_refs hc) ds
        obtain ⟨k, hk, hid, -⟩ := hexact.declared _ (Layouts.mem_of_struct? hs)
        exact absurd hid (hnone k hk)
    rw [undeclared hp ds hnone, undeclared hp' ds' fun d hd => hnone d (h.symm.mem_classes hd)]

end Lane.Program.Agree

namespace Lane.Lowering

open Code

variable {e : Elaborated} {name : String} {width : Int} {ds : Diagnostics} {p : LoweredProgram}

/-! ## Declarations -/

/-- A declaration that is found is that of a function under its number. -/
lemma of_lookup_declaredOf {k : Nat × Nat} {d : FuncDecl}
    (h : (declaredOf e).decls.lookup k = some d) : ∃ f n, k = (f.cls.id, f.index) ∧
      (memberFuncs e)[n]? = some f ∧ d = memberDecl e f n := by
  obtain ⟨l₁, l₂, heq, -⟩ := List.lookup_eq_some_iff.1 h
  have hmem : (k, d) ∈ declsFrom e 0 (memberFuncs e) := by
    show (k, d) ∈ (declaredOf e).decls
    simp [heq]
  obtain ⟨⟨f, n⟩, hf, hkd⟩ := List.mem_map.1 hmem
  obtain ⟨rfl, rfl⟩ := Prod.mk.inj hkd
  exact ⟨f, n, rfl, List.mem_zipIdx_iff_getElem?.1 hf, rfl⟩

/-- The declaration of a foreign function is found by its name. -/
lemma lookup_foreignsOf_eq (e : Elaborated) (n : String) :
    (declaredOf e).foreigns.lookup n = (e.program.foreign? n).map foreignDecl := by
  show ((e.program.foreigns.map fun f => (f.name, foreignDecl f)).lookup n) =
    (e.program.foreigns.find? fun f => f.name == n).map foreignDecl
  induction e.program.foreigns with
  | nil => rfl
  | cons f fs ih =>
    rw [List.map_cons, List.lookup_cons, List.find?_cons, Bool.beq_comm, ih]
    split <;> simp [*]

/-- A program is lowered without errors if it is laid out. -/
lemma isOk_of_lower (hp : (e.lower name width ds).2 = .ok p) : p.isOk = isLaidOut e ds := by
  unfold Elaborated.lower at hp
  cases hlaid : isLaidOut e ds with
  | false =>
    unfold isLaidOut at hlaid
    rw [Bool.not_eq_false'] at hlaid
    simp only [hlaid, if_true] at hp
    obtain rfl := Except.ok.inj hp
    rfl
  | true =>
    unfold isLaidOut at hlaid
    rw [Bool.not_eq_true'] at hlaid
    simp only [hlaid, Bool.false_eq_true, if_false] at hp
    unfold Elaborated.lowerWith at hp
    obtain ⟨d, -, hp⟩ := of_bind_eq_ok hp
    obtain ⟨fns, -, hp⟩ := of_bind_eq_ok hp
    obtain rfl := Except.ok.inj hp
    rfl

end Lane.Lowering

namespace Lane.Elaborated.Reordered

open Code Lowering

variable {R : List ClassRef} {e e' : Elaborated} {f : MemberFunction} {ds ds' : Diagnostics}
  {l l' : Layouts} {name name' : String} {width width' : Int} {p p' : LoweredProgram}

/-! ## Code -/

/-- The same functions have the same bodies. -/
lemma body?_eq (h : Reordered R e e') (he : e.Typed) (f : MemberFunction) :
    e'.body? f = e.body? f := by
  refine find?_eq_of_perm h.bodies_perm fun a ha b hb hf hg => ?_
  simp only [Bool.and_eq_true, beq_iff_eq] at hf hg
  refine List.inj_on_of_nodup_map h.bodies_nodup ha hb ?_
  exact (he.bodies_declared a ha).eq_of_index_eq (he.bodies_declared b hb) he.program_wf
    (hf.1.trans hg.1.symm) (hf.2.trans hg.2.symm)

/-- A function is clean in both programs or in none. -/
lemma isClean_eq (h : Reordered R e e') (he : e.Typed) (f : MemberFunction) :
    e'.isClean f = e.isClean f := by
  rw [Elaborated.isClean, Elaborated.isClean, h.body?_eq he]

/-- A function is trivial in both programs or in none. -/
lemma isTrivial_eq (h : Reordered R e e') (he : e.Typed) (f : MemberFunction) :
    isTrivial e' f = isTrivial e f := by
  rw [isTrivial, isTrivial, h.body?_eq he, h.agree.classOf_eq]

/-- The code of a function is built alike. -/
lemma build_eq (h : Reordered R e e') (he : e.Typed) (f : MemberFunction) :
    build e' f = build e f := by
  rw [build, build, bodyOf, bodyOf, h.body?_eq he]

/-- The same programs are laid out. -/
lemma isLaidOut_eq (h : Reordered R e e') (he : e.Typed) (he' : e'.Typed) (ds ds' : Diagnostics) :
    isLaidOut e' ds' = isLaidOut e ds := by
  unfold isLaidOut
  refine congrArg not (Bool.eq_iff_iff.2 ?_)
  rw [any_isNone_iff he.program_wf, any_isNone_iff he'.program_wf]
  constructor
  · rintro ⟨k, hk, hcycle⟩
    exact ⟨k, h.symm.agree.mem_classes hk, h.agree.isOnCycle_iff.1 hcycle⟩
  · rintro ⟨k, hk, hcycle⟩
    exact ⟨k, h.agree.mem_classes hk, h.agree.isOnCycle_iff.2 hcycle⟩

/-- Both programs are ready, or none is. -/
lemma isReady (h : Reordered R e e') (he : e.Typed) (hready : IsReady e) : IsReady e' :=
  fun f b hf hgen hb => hready f b (h.symm.agree.declares hf) hgen (h.body?_eq he f ▸ hb)

/-- **Environments for two orders** are similar. -/
theorem similar (h : Reordered R e e') (he : e.Typed) (he' : e'.Typed)
    (hl : ∀ c, l'.struct? c = l.struct? c) (w w' : Nat) (d d' : FuncDecl) :
    (envOf e l w d).Similar (envOf e' l' w' d') where
  classOf_eq := h.agree.classOf_eq
  struct?_eq := hl
  decls k := by
    show Option.Rel _ ((declaredOf e).decls.lookup k) ((declaredOf e').decls.lookup k)
    cases hd : (declaredOf e).decls.lookup k with
    | none =>
      cases hd' : (declaredOf e').decls.lookup k with
      | none => exact .none
      | some d' =>
        obtain ⟨f, n, rfl, hf, -⟩ := of_lookup_declaredOf hd'
        obtain ⟨m, hm⟩ := lookup_declaredOf he.program_wf
          (h.symm.agree.declares (mem_memberFuncs.1 (List.mem_of_getElem? hf)))
        cases hd.symm.trans hm
    | some d =>
      obtain ⟨f, n, rfl, hf, rfl⟩ := of_lookup_declaredOf hd
      obtain ⟨m, hm⟩ := lookup_declaredOf he'.program_wf
        (h.agree.declares (mem_memberFuncs.1 (List.mem_of_getElem? hf)))
      rw [hm]
      exact .some (h.isTrivial_eq he f)
  foreigns n := by
    show Option.Rel _ ((declaredOf e).foreigns.lookup n) ((declaredOf e').foreigns.lookup n)
    rw [lookup_foreignsOf_eq, lookup_foreignsOf_eq, h.agree.foreign?_eq]
    cases e.program.foreign? n with
    | none => exact .none
    | some f => exact .some rfl

/-! ## Programs -/

/-- **What lowering finds** does not depend on the order of declarations. -/
theorem isOk_eq_of_lower (h : Reordered R e e') (he : e.Typed) (he' : e'.Typed)
    (hp : (e.lower name width ds).2 = .ok p) (hp' : (e'.lower name' width' ds').2 = .ok p') :
    p'.isOk = p.isOk := by
  rw [isOk_of_lower hp, isOk_of_lower hp', h.isLaidOut_eq he he' ds ds']

/-- Foreign functions have the same names. -/
lemma isPlain_foreign (h : Reordered R e e') (hn : ∀ f ∈ e.program.foreigns, IsPlain f.name) :
    ∀ f ∈ e'.program.foreigns, IsPlain f.name := by
  intro f hf
  have hsome : (e'.program.foreign? f.name).isSome :=
    List.find?_isSome.2 ⟨f, hf, beq_self_eq_true f.name⟩
  obtain ⟨g, hg⟩ := Option.isSome_iff_exists.1 hsome
  rw [h.agree.foreign?_eq] at hg
  have hname : g.name = f.name := beq_iff_eq.1 (List.find?_some hg :)
  exact hname ▸ hn g (List.mem_of_find?_eq_some hg)

/-- **Which programs are lowered** does not depend on the order of declarations, if no foreign
function has the name of a member function in code. -/
theorem exists_lower (h : Reordered R e e') (he : e.Typed) (he' : e'.Typed)
    (hn : ∀ f ∈ e.program.foreigns, IsPlain f.name)
    (hp : ∃ p, (e.lower name width ds).2 = .ok p) :
    ∃ p', (e'.lower name' width' ds').2 = .ok p' := by
  have hd := declare_eq he.program_wf hn
  have hd' := declare_eq he'.program_wf (h.isPlain_foreign hn)
  rw [he.exists_lower_iff hd] at hp
  rw [he'.exists_lower_iff hd', h.isLaidOut_eq he he' ds ds']
  exact fun hl => h.isReady he (hp hl)

end Lane.Elaborated.Reordered
