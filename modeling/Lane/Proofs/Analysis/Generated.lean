import Lane.Proofs.Analysis.Members
import Lane.Proofs.Typing.Select

set_option relaxedAutoImplicit false
set_option autoImplicit false

/-!
# Functions that every class has

An analysis that reports nothing leaves every class with exactly one function that copies another
instance into a new one, and exactly one that assigns it, written or added. It has exactly one
create that takes nothing, unless it has creates that were written, all of which take something. The
copies of a class that has the name of a scalar are the exception, since the scalar is what they are
given.

## Main definitions

* `Lane.Class.fitting`: the creates or assigns of a class that fit arguments.
* `Lane.Class.Equipped`: classes with the functions that every class has.

## Main results

* `Lane.Analysis.generate_from`: a class gets a function of the compiler, or has one like it.
* `Lane.Elaborated.equipped_of_isOk`: the classes of an accepted program are equipped.
-/

namespace Lane

/-! ## Functions that fit arguments -/

/-- A type is compatible with itself. -/
lemma Ty.compatible_self (t : Ty) : t.compatible t := by
  induction t with
  | ptr m t ih => exact ih
  | container m k t ih =>
    simp only [Ty.compatible, beq_self_eq_true, Bool.true_and]
    exact ih
  | scalar | cls | error => simp [Ty.compatible]

namespace Signature

variable {s t : Signature}

/-- The types of the parameters are arguments that agree. -/
lemma applicable_self (s : Signature) : s.applicable (s.params.map Param.type) := by
  simp only [applicable, List.length_map, beq_self_eq_true, Bool.true_and, List.all_eq_true]
  rintro ⟨a, u⟩ h
  rw [List.zip_map_right, List.mem_map] at h
  obtain ⟨⟨a', b⟩, hab, h⟩ := h
  obtain ⟨rfl, rfl⟩ := Prod.mk.inj h
  obtain ⟨i, hi, heq⟩ := List.getElem_of_mem hab
  rw [List.getElem_zip] at heq
  obtain ⟨rfl, rfl⟩ := Prod.mk.inj heq
  exact Ty.compatible_self _

/-- Signatures with the same types agree with the same arguments. -/
lemma applicable_of_same (h : s.same t) : s.applicable (t.params.map Param.type) := by
  simp only [same, sameTypes, Bool.and_eq_true, beq_iff_eq, List.all_eq_true] at h
  obtain ⟨⟨hlen, hall⟩, -⟩ := h
  simp only [applicable, List.length_map, Bool.and_eq_true, beq_iff_eq, List.all_eq_true]
  refine ⟨hlen.symm, ?_⟩
  rintro ⟨a, u⟩ h
  rw [List.zip_map_right, List.mem_map] at h
  obtain ⟨⟨a', b⟩, hab, h⟩ := h
  obtain ⟨rfl, rfl⟩ := Prod.mk.inj h
  have hsame := hall _ hab
  simp only [Ty.identical, Bool.and_eq_true] at hsame
  exact hsame.2

end Signature

namespace Class

variable {c : Class} {kind : FuncKind} {args : List Ty} {f g : MemberFunction}

/-- A function that cannot be declared clashes with one of the class. -/
lemma of_addFunc_eq_error (h : c.addFunc f = .error g) :
    g ∈ c.funcs ∧ g.name = f.name ∧ g.kind = f.kind ∧ g.sig.same f.sig := by
  unfold addFunc at h
  split at h
  · rename_i prev hprev
    obtain rfl := Except.error.inj h
    have hsame := List.find?_some hprev
    simp only [Bool.and_eq_true, beq_iff_eq] at hsame
    exact ⟨List.mem_of_find?_eq_some hprev, hsame.1.1, hsame.1.2, hsame.2⟩
  · cases h

/-- **The functions of a kind that fit arguments**: creates and assigns are named for their kind. -/
def fitting (c : Class) (kind : FuncKind) (args : List Ty) : List MemberFunction :=
  (c.lookup kind.name [kind]).filter fun f => f.sig.applicable args

/-- The one function that fits is selected. -/
lemma resolve_eq_ok_iff : c.resolve kind.name args [kind] = .ok f ↔ c.fitting kind args = [f] := by
  have hfit : (c.lookup kind.name [kind]).filter (fun f => f.sig.applicable args) =
      c.fitting kind args := rfl
  unfold Class.resolve Lane.resolve
  rw [hfit]
  constructor
  · intro h
    split at h
    · rename_i g hg
      rw [hg, Except.ok.inj h]
    · cases h
  · intro h
    rw [h]

/-- Functions that fit are those of the kind that take the arguments. -/
lemma mem_fitting : f ∈ c.fitting kind args ↔
    f ∈ c.lookup kind.name [kind] ∧ f.sig.applicable args := List.mem_filter

/-- The arguments of a copy, or of a create that takes nothing. -/
def givenTo (r : ClassRef) (isCopy : Bool) : List Ty := if isCopy then [.cls .cref r] else []

/-- Classes with a create that takes nothing, unless creates were written. -/
def IsCreated (c : Class) : Prop := (∃ f, f ∈ c.fitting .create (givenTo c.ref false)) ∨
  ∃ f ∈ c.lookup FuncKind.create.name [.create], f.isGenerated = false

/-- Classes with a function for another instance, unless the name of the class is that of a
scalar. -/
def IsCopied (c : Class) (kind : FuncKind) : Prop := ScalarKind.ofName? c.name = none →
  ∃ f, f ∈ c.fitting kind (givenTo c.ref true)

/-- **Supplied classes** have the functions that every class has. -/
structure Supplied (c : Class) : Prop where
  copied : ∀ kind, kind = .create ∨ kind = .assign → c.IsCopied kind
  created : c.IsCreated

/-- **Written classes**: the compiler did not add functions to the class yet. -/
def IsWritten (c : Class) : Prop := ∀ f ∈ c.funcs, f.isGenerated = false

/-- **Equipped classes**: one function copies another instance, and one assigns it. One create takes
nothing, unless there are creates that were written and none of them does. -/
structure Equipped (c : Class) : Prop where
  copies : ∀ kind, kind = .create ∨ kind = .assign → ScalarKind.ofName? c.name = none →
    ∃ f, c.fitting kind [.cls .cref c.ref] = [f]
  creates : (∃ f, c.fitting .create [] = [f]) ∨ c.fitting .create [] = [] ∧
    ∃ f ∈ c.lookup FuncKind.create.name [.create], f.isGenerated = false

/-- What fits in a class still does when the class gets more functions. -/
lemma mem_fitting_of_subset {d : Class} (h : c.funcs ⊆ d.funcs) (hf : f ∈ c.fitting kind args) :
    f ∈ d.fitting kind args := by
  obtain ⟨hf, hfits⟩ := mem_fitting.1 hf
  obtain ⟨hm, hnk⟩ := mem_lookup.1 hf
  exact mem_fitting.2 ⟨mem_lookup.2 ⟨h hm, hnk⟩, hfits⟩

/-- A class with more functions is still created. -/
lemma IsCreated.mono {d : Class} (hc : c.IsCreated) (h : c.funcs ⊆ d.funcs) : d.IsCreated :=
  hc.imp (fun ⟨f, hf⟩ => ⟨f, mem_fitting_of_subset h hf⟩) fun ⟨f, hf, hw⟩ =>
    ⟨f, mem_lookup.2 ((mem_lookup.1 hf).imp_left (h ·)), hw⟩

/-- A class with more functions is still copied. -/
lemma IsCopied.mono {d : Class} (hc : c.IsCopied kind) (hr : d.ref = c.ref)
    (h : c.funcs ⊆ d.funcs) : d.IsCopied kind := by
  intro hn
  rw [name, hr] at hn
  rw [hr]
  exact (hc hn).imp fun f hf => mem_fitting_of_subset h hf

/-- What is written adds no function of the compiler. -/
lemma written_keep : DeclarationsKeep IsWritten where
  of_members h := by simp [IsWritten, Class.funcs, h]
  addVar hc _ _ h := by
    obtain ⟨-, -, rfl⟩ := of_addVar_eq_ok h
    rwa [IsWritten, funcs_append_var]
  addFunc hc hf _ _ h := by
    obtain ⟨rfl, rfl⟩ := of_addFunc_eq_ok h
    intro x hx
    rw [funcs_append_func, List.mem_append, List.mem_singleton] at hx
    obtain hx | rfl := hx
    · exact hc x hx
    · exact hf

/-! ### One function at most -/

section Unique

variable {p : Program} {r : ClassRef}

/-- Two functions that take the same copy, or nothing, have the same types. -/
lemma same_of_applicable {isCopy : Bool} (hk : kind = .create ∨ kind = .assign)
    (hf : p.ValidFunc f) (hg : p.ValidFunc g) (hfk : f.kind = kind) (hgk : g.kind = kind)
    (hfa : f.sig.applicable (givenTo r isCopy)) (hga : g.sig.applicable (givenTo r isCopy)) :
    f.sig.same g.sig := by
  -- What takes a class is of that class, since no type of a valid function is an error.
  have isClass : ∀ {a : Param}, p.Valid a.type → a.type.compatible (.cls .cref r) →
      ∃ m c, a.type = .cls m c ∧ c.id = r.id := by
    intro a hv hcompat
    cases h : a.type with
    | cls m c => exact ⟨m, c, rfl, by simpa [h, Ty.compatible] using hcompat⟩
    | error => exact absurd (h ▸ hv.isError_eq_false) (by simp [Ty.isError])
    | scalar | ptr | container => simp [h, Ty.compatible] at hcompat
  have hresults : f.sig.results = [] ∧ g.sig.results = [] :=
    ⟨hf.results_nil (hfk ▸ hk), hg.results_nil (hgk ▸ hk)⟩
  simp only [Signature.same, hresults, Bool.and_eq_true]
  refine ⟨?_, rfl⟩
  cases isCopy with
  | false =>
    simp only [Signature.applicable, givenTo, Bool.false_eq_true, if_false, List.length_nil,
      Bool.and_eq_true, beq_iff_eq, eq_comm (a := 0), List.length_eq_zero_iff] at hfa hga
    rw [hfa.1, hga.1]
    rfl
  | true =>
    have one : ∀ {x : MemberFunction}, p.ValidFunc x → x.sig.applicable (givenTo r true) →
        ∃ a m c, x.sig.params = [a] ∧ a.type = .cls m c ∧ c.id = r.id := by
      intro x hx ha
      simp only [Signature.applicable, givenTo, if_true, List.length_singleton, Bool.and_eq_true,
        beq_iff_eq, eq_comm (a := 1), List.length_eq_one_iff] at ha
      obtain ⟨⟨a, hps⟩, hall⟩ := ha
      have hcompat : a.type.compatible (.cls .cref r) := by simpa [hps] using hall
      obtain ⟨m, c, hc⟩ := isClass (hx.params_valid a (by simp [hps])).1 hcompat
      exact ⟨a, m, c, hps, hc⟩
    obtain ⟨a, m, c, hps, ht, hid⟩ := one hf hfa
    obtain ⟨b, n, d, hqs, hu, hid'⟩ := one hg hga
    simp [hps, hqs, Signature.sameTypes, Ty.identical, ht, hu, Ty.isError, Ty.compatible, hid, hid']

/-- **Functions that fit clash**: there is one at most. -/
lemma exists_fitting_eq (hc : p.ValidClass c) (ho : c.Orderly) (isCopy : Bool)
    (hk : kind = .create ∨ kind = .assign) (h : f ∈ c.fitting kind (givenTo r isCopy)) :
    c.fitting kind (givenTo r isCopy) = [f] := by
  have hapart : (c.fitting kind (givenTo r isCopy)).Pairwise fun f g => ¬f.Clashes g :=
    (ho.funcs_apart.filter _).filter _
  have hclash : ∀ x ∈ c.fitting kind (givenTo r isCopy),
      ∀ y ∈ c.fitting kind (givenTo r isCopy), x.Clashes y := by
    intro x hx y hy
    obtain ⟨hx, hxa⟩ := mem_fitting.1 hx
    obtain ⟨hy, hya⟩ := mem_fitting.1 hy
    obtain ⟨hxm, hxn, hxk⟩ := mem_lookup.1 hx
    obtain ⟨hym, hyn, hyk⟩ := mem_lookup.1 hy
    have hxk : x.kind = kind := by simpa using hxk
    have hyk : y.kind = kind := by simpa using hyk
    exact ⟨hxn.trans hyn.symm, hxk.trans hyk.symm, same_of_applicable hk (hc.funcs_own x hxm).2
      (hc.funcs_own y hym).2 hxk hyk hxa hya⟩
  match hl : c.fitting kind (givenTo r isCopy) with
  | [] => simp [hl] at h
  | [x] =>
    have hf : f ∈ [x] := hl ▸ h
    rw [List.mem_singleton.1 hf]
  | x :: y :: l =>
    rw [hl] at hapart hclash
    exact absurd (hclash x (by simp) y (by simp)) ((List.pairwise_cons.1 hapart).1 y (by simp))

/-- A class whose functions do not clash is equipped if it is supplied. -/
lemma Supplied.equipped (h : c.Supplied) (hc : p.ValidClass c) (ho : c.Orderly) : c.Equipped where
  copies kind hk hn :=
    (h.copied kind hk hn).imp fun f hf => exists_fitting_eq hc ho true hk hf
  creates := by
    have one : ∀ f ∈ c.fitting .create [], c.fitting .create [] = [f] := fun f hf =>
      exists_fitting_eq (r := c.ref) hc ho false (.inl rfl) hf
    cases hl : c.fitting .create [] with
    | nil =>
      refine .inr ⟨rfl, h.created.resolve_left fun ⟨f, hf⟩ => ?_⟩
      rw [show givenTo c.ref false = [] from rfl, hl] at hf
      cases hf
    | cons f l => exact .inl ⟨f, hl ▸ one f (hl ▸ List.mem_cons_self)⟩

end Unique

end Class

namespace Analysis

variable {N : List String} {R : List ClassRef} {F : List MemberFunction} {c : Context} {H : Prop}
  {r : ClassRef} {K G : Class → Prop}

/-! ## What is added to a class -/

/-- All classes but one. -/
def AllBut (r : ClassRef) (K : Class → Prop) (p : Program) : Prop := p.All fun k => k.ref ≠ r → K k

/-- The other class is the one that its name in types finds. -/
lemma AllBut.all {p : Program} (h : AllBut r K p) (hp : p.WellFormed) (hr : K (p.classOf r)) :
    p.All K := by
  intro k hk
  by_cases he : k.ref = r
  · exact hp.classOf_eq hk ▸ he ▸ hr
  · exact h k hk he

/-- What is added takes another instance, unless the class has the name of a scalar, or nothing. -/
lemma generatedSignature_givenTo (hr : r ∈ R) (pos : Position) (isCopy : Bool)
    (hc : H → c.Forms N R F) :
    From c H (signature (if isCopy then [⟨pos, "other", .cref, .name pos r.name⟩] else []) [])
      fun q _ => (isCopy → ScalarKind.ofName? r.name = none) →
        q.2.params.map Param.type = Class.givenTo r isCopy := by
  cases isCopy with
  | false => exact From.pure fun _ _ => rfl
  | true =>
    refine (generatedSignature_from hr pos true hc).weaken id fun q d _ h hn => ?_
    obtain ⟨-, -, -, -, hcopy, -⟩ := h
    obtain ⟨a, hq, ⟨-, ht⟩ | ⟨k, hk, -⟩⟩ := hcopy rfl
    · simp [hq, ht, Class.givenTo]
    · cases (hn rfl).symm.trans hk

/-- **A function of the compiler** is added to a class, or the class has one that takes the same.
The other classes stay as they are. -/
lemma generate_from (hr : r ∈ R) (pos : Position) (kind : FuncKind)
    (hk : kind = .create ∨ kind = .assign) (isCopy : Bool)
    (hc : H → c.Forms N R F ∧ AllBut r K c.program)
    (hG : H → ∀ k : Class, k.ref = r → (c.program.classOf r).funcs ⊆ k.funcs →
      ((isCopy → ScalarKind.ofName? r.name = none) →
        ∃ f, f ∈ k.fitting kind (Class.givenTo r isCopy)) → G k) :
    From c H (generate r pos kind isCopy) fun _ d =>
      d.Forms N R F ∧ AllBut r K d.program ∧ G (d.program.classOf r) := by
  have clean := (generate_clean hr pos kind hk isCopy).from fun h : H => (hc h).1
  suffices equips : From c H (generate r pos kind isCopy) fun _ d =>
      AllBut r K d.program ∧ G (d.program.classOf r) from clean.and equips
  refine From.bind firstLocal_from fun selfId c1 => ?_
  have forms : H ∧ selfId = 0 ∧ c1 = { c with nextLocal := 1 } →
      c1.Forms N R F := by
    rintro ⟨h, -, rfl⟩
    exact (hc h).1.renumber _
  refine From.bind ((generatedSignature_from hr pos isCopy forms).and
    (generatedSignature_givenTo hr pos isCopy forms)) fun (scope, sig) c2 => ?_
  refine From.keeps_bind Keeps.get fun e => ?_
  split
  · -- The function is new to the class.
    rename_i d f hadd
    refine From.modify (fun _ => rfl) fun h => ?_
    obtain ⟨⟨⟨hH, rfl, rfl⟩, ⟨k, -, -, -, -, rfl⟩, hargs⟩, rfl⟩ := h
    obtain ⟨hforms, hothers⟩ := hc hH
    obtain ⟨hmem, href⟩ := hforms.classOf_mem hr
    obtain ⟨hf, hd⟩ := Class.of_addFunc_eq_ok hadd
    have hdref : d.ref = r := by rw [hd]; exact href
    have hclass : (c.program.update d).classOf r = d :=
      Program.classOf_update ⟨_, hmem, congrArg ClassRef.id href⟩ (congrArg ClassRef.id hdref)
    refine ⟨hothers.update fun hne => absurd hdref hne, ?_⟩
    show G ((c.program.update d).classOf r)
    rw [hclass]
    refine hG hH d hdref (by rw [hd, Class.funcs_append_func]; exact List.subset_append_left _ _)
      fun hn => ⟨f, Class.mem_fitting.2 ⟨Class.mem_lookup.2 ⟨?_, ?_, ?_⟩, ?_⟩⟩
    · rw [hd, Class.funcs_append_func]
      exact List.mem_append_right _ (List.mem_singleton_self _)
    · rw [hf]
    · rw [hf]
      simp
    · rw [← hargs hn, hf]
      exact Signature.applicable_self sig
  · -- The class has a function of the same signature, which takes what the new one would take.
    rename_i prev hprev
    refine From.pure fun h => ?_
    obtain ⟨⟨⟨hH, rfl, rfl⟩, ⟨k, -, -, -, -, rfl⟩, hargs⟩, rfl⟩ := h
    obtain ⟨hforms, hothers⟩ := hc hH
    obtain ⟨hmem, hname, hkind, hsame⟩ := Class.of_addFunc_eq_error hprev
    refine ⟨hothers, hG hH _ (hforms.classOf_mem hr).2 (List.Subset.refl _) fun hn => ⟨prev, ?_⟩⟩
    refine Class.mem_fitting.2 ⟨Class.mem_lookup.2 ⟨hmem, hname, ?_⟩, ?_⟩
    · simp [hkind]
    · rw [← hargs hn]
      exact Signature.applicable_of_same hsame

/-- The copies of a class are added to its creates. -/
lemma generateCopies_from (hr : r ∈ R) (pos : Position)
    (hc : H → c.Forms N R F ∧ AllBut r K c.program ∧ (c.program.classOf r).IsCreated)
    (hK : H → ∀ k : Class, k.ref = r → k.Supplied → K k) :
    From c H (do
      generate r pos .create true
      generate r pos .assign true) fun _ d => d.Forms N R F ∧ d.program.All K := by
  refine From.bind (generate_from (G := fun k => k.IsCreated ∧ k.IsCopied .create) hr pos .create
    (.inl rfl) true (fun h => ⟨(hc h).1, (hc h).2.1⟩) fun h k hk hsub hfits => ?_) fun _ c1 => ?_
  · exact ⟨(hc h).2.2.mono hsub, fun hn => by rw [hk]; exact hfits fun _ => by rwa [← hk]⟩
  refine (generate_from (G := K) hr pos .assign (.inr rfl) true (fun h => ⟨h.2.1, h.2.2.1⟩)
    fun h k hk hsub hfits => ?_).weaken id fun _ d _ h => ⟨h.1, h.2.1.all h.1.program_wf h.2.2⟩
  obtain ⟨hH, hforms, -, hcreated, hcopied⟩ := h
  have hcopied : k.IsCopied .create :=
    hcopied.mono (hk.trans (hforms.classOf_mem hr).2.symm) hsub
  refine hK hH k hk ⟨fun kind hkind => ?_, hcreated.mono hsub⟩
  obtain rfl | rfl := hkind
  · exact hcopied
  · exact fun hn => by rw [hk]; exact hfits fun _ => by rwa [← hk]

/-- Classes to which functions are still to be added are as they were written, and the other ones
are supplied. -/
def Underway (todo : List ClassRef) (k : Class) : Prop :=
  if k.ref ∈ todo then k.IsWritten else k.Supplied

/-- **The functions of the compiler** supply a class that is as it was written. -/
lemma declareGenerated_from (hr : r ∈ R) (pos : Position) {todo : List ClassRef}
    (hn : H → r ∉ todo) (hc : H → c.Forms N R F ∧ c.program.All (Underway (r :: todo))) :
    From c H (declareGenerated r pos) fun _ d =>
      d.Forms N R F ∧ d.program.All (Underway todo) := by
  refine From.keeps_bind Keeps.get fun d => ?_
  have start : H ∧ d = c → d = c ∧ c.Forms N R F ∧ AllBut r (Underway todo) c.program ∧
      (c.program.classOf r).IsWritten := by
    rintro ⟨hH, rfl⟩
    obtain ⟨hforms, hall⟩ := hc hH
    obtain ⟨hmem, href⟩ := hforms.classOf_mem hr
    refine ⟨rfl, hforms, fun k hk hne => ?_, ?_⟩
    · simpa [Underway, hne] using hall k hk
    · simpa [Underway, href] using hall _ hmem
  have done : H → ∀ k : Class, k.ref = r → k.Supplied → Underway todo k := by
    rintro hH k rfl hk
    rwa [Underway, if_neg (hn hH)]
  split
  · refine From.bind (generate_from (G := Class.IsCreated) hr pos .create (.inl rfl) false
      (fun h => ⟨(start h).2.1, (start h).2.2.1⟩) fun h k hk hsub hfits => ?_) fun _ c1 =>
        generateCopies_from hr pos And.right fun h => done h.1.1
    exact .inl (hfits nofun)
  · rename_i hcreates
    refine generateCopies_from hr pos (fun h => ?_) fun h => done h.1
    obtain ⟨rfl, hforms, hothers, hwritten⟩ := start h
    refine ⟨hforms, hothers, .inr ?_⟩
    obtain ⟨f, hf⟩ := List.exists_mem_of_ne_nil _ (by simpa using hcreates)
    exact ⟨f, hf, hwritten f (Class.mem_lookup.1 hf).1⟩

/-- All classes get their generated functions, each class its own. -/
lemma declareAllGenerated_from : ∀ (cs : List (ClassRef × ClassSyntax)) {c : Context} {H : Prop},
    (∀ x ∈ cs, x.1 ∈ R) → (H → (cs.map Prod.fst).Nodup) →
    (H → c.Forms N R F ∧ c.program.All (Underway (cs.map Prod.fst))) →
    From c H (cs.forM fun (r, k) => declareGenerated r k.pos) fun _ d =>
      d.program.All Class.Supplied
  | [], c, H, _, _, hc => From.pure fun h => (hc h).2
  | (r, k) :: cs, c, H, hR, hn, hc => by
    refine From.bind (declareGenerated_from (hR _ List.mem_cons_self) k.pos
      (fun h => (List.nodup_cons.1 (hn h)).1) hc) fun _ d => ?_
    exact declareAllGenerated_from cs (fun x hx => hR x (List.mem_cons_of_mem _ hx))
      (fun h => (List.nodup_cons.1 (hn h.1)).2) And.right

/-! ## Programs -/

/-- All classes are supplied in the end. -/
lemma declarations_supplied (tree : ProgramSyntax) (ds : Diagnostics) :
    From { diagnostics := ds } True (declarations tree) fun _ d =>
      d.program.All Class.Supplied := by
  rw [declarations_eq]
  refine From.bind (writtenDeclarations_all Class.written_keep tree ds) fun (cs, qs) c => ?_
  refine From.bind (declareAllGenerated_from cs (fun x hx => List.mem_map_of_mem hx)
    (fun h => ?_) fun h => ⟨h.2.1, fun k hk => ?_⟩) fun _ d => From.pure And.right
  · have hids := h.2.1.program_wf.ids_nodup
    rw [← h.2.1.refs_eq]
    exact .of_map ClassRef.id (by rwa [List.map_map])
  · have href : k.ref ∈ cs.map Prod.fst := h.2.1.refs_eq ▸ List.mem_map_of_mem hk
    rw [Underway, if_pos href]
    exact h.2.2 k hk

end Analysis

/-- **The classes of accepted programs are equipped.** -/
theorem Elaborated.equipped_of_isOk (tree : ProgramSyntax) (ds : Diagnostics)
    (h : (Elaborated.ofSyntax tree ds).1.isOk) :
    (Elaborated.ofSyntax tree ds).1.program.All Class.Equipped := by
  have hsupplied := (Analysis.program_all tree ds (Analysis.declarations_supplied tree ds) _
    (fun _ => ⟨rfl, trivial⟩) (beq_iff_eq.1 h)).2
  intro c hc
  have hvalid := (Elaborated.typed_of_isOk tree ds h).1.program_wf.classes_valid c hc
  exact (hsupplied c hc).equipped hvalid (Elaborated.orderly_of_isOk tree ds h c hc)

end Lane
