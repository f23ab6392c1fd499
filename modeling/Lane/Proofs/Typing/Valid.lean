import Lane.Typing.Resolve
import Mathlib.Data.List.Forall2
import Mathlib.Data.List.Nodup

set_option relaxedAutoImplicit false
set_option autoImplicit false

/-!
# Valid types and well-formed programs

A type is valid in a program if nothing in it failed to be analysed and every class that it names is
declared. A program is well formed if its classes own their members, all types in it are valid, and
the shapes that the declarations promise hold: constructors give no results, foreign functions take
and give atomic values, and the numbers of a function's locals are all different.

## Main definitions

* `Lane.Program.Valid`: types of a program.
* `Lane.Program.Declares`: the member functions of a program.
* `Lane.Program.ValidFunc`, `Lane.Program.WellFormed`: well-formed functions and programs.

## Main results

* `Lane.Program.Valid.isAtomic_eq`: valid types that agree are atomic together.
* `Lane.Program.WellFormed.classOf_eq`: a declared class is the one that its name in types finds.
* `Lane.Program.Declares.eq_of_index_eq`: class and place tell the functions of a program apart.
-/

namespace Lane

/-! ## Types -/

namespace Ty

variable {t u : Ty} {m : Modifier}

/-- A modifier does not make a type atomic. -/
@[simp] lemma isAtomic_withModifier : (t.withModifier m).isAtomic = t.isAtomic := by
  cases t <;> rfl

/-- A modifier does not make a type an error. -/
@[simp] lemma isError_withModifier : (t.withModifier m).isError = t.isError := by
  cases t <;> rfl

/-- A modifier does not make a type a container. -/
@[simp] lemma isContainer_withModifier : (t.withModifier m).isContainer = t.isContainer := by
  cases t <;> rfl

/-- The modifier that was set. -/
@[simp] lemma modifier_withModifier : (t.withModifier m).modifier = m := by
  cases t <;> rfl

/-- Types that agree are atomic together, unless one of them failed to be analysed. -/
lemma isAtomic_eq_of_compatible (h : t.compatible u) (ht : t.isError = false)
    (hu : u.isError = false) : t.isAtomic = u.isAtomic := by
  cases t <;> cases u <;> simp_all [compatible, isError, isAtomic]

end Ty

/-- The numbers of the locals of a function before its body: the instance, the parameters and the
results. -/
def MemberFunction.localIds (f : MemberFunction) : List Nat :=
  f.selfId :: (f.sig.params ++ f.sig.results).map Param.localId

namespace Program

/-- **Valid types**: every class that the type names is declared, and no part of it failed to be
analysed. -/
def Valid (p : Program) : Ty → Prop
  | .scalar _ _ => True
  | .cls _ c => ∃ d ∈ p.classes, d.ref = c
  | .ptr _ t => p.Valid t
  | .container _ _ t => p.Valid t
  | .error _ => False

/-- **Declared functions**: the member functions of the classes of a program. -/
def Declares (p : Program) (f : MemberFunction) : Prop := ∃ c ∈ p.classes, f ∈ c.funcs

section Valid

variable {p q : Program} {t : Ty} {m : Modifier}

/-- A modifier does not make a type valid. -/
@[simp] lemma valid_withModifier : p.Valid (t.withModifier m) ↔ p.Valid t := by
  cases t <;> rfl

/-- A valid type is not the error type. -/
lemma Valid.isError_eq_false (h : p.Valid t) : t.isError = false := by
  cases t <;> simp_all [Valid, Ty.isError]

/-- A valid type that names no container and no class is atomic. -/
lemma Valid.isAtomic_of (h : p.Valid t) (hcon : ∀ m k u, t = .container m k u → False)
    (hcls : ∀ m c, t = .cls m c → False) : t.isAtomic := by
  cases t with
  | scalar | ptr => rfl
  | cls => exact (hcls _ _ rfl).elim
  | container => exact (hcon _ _ _ rfl).elim
  | error => exact False.elim h

/-- The error type is the one thing that agreement hides: valid types that agree are of one form. -/
lemma Valid.isAtomic_eq {u : Ty} (ht : p.Valid t) (hu : p.Valid u) (h : t.compatible u) :
    t.isAtomic = u.isAtomic :=
  Ty.isAtomic_eq_of_compatible h ht.isError_eq_false hu.isError_eq_false

end Valid

/-! ## Programs -/

/-- A well-formed member function: its types are valid, parameters and results say which they are,
its locals have different numbers, and a function that constructs or assigns gives no results. What
the compiler added constructs or assigns, and takes the other instance if it copies one: by the
class, unless the name of the class stands for a scalar. -/
structure ValidFunc (p : Program) (f : MemberFunction) : Prop where
  params_valid : ∀ a ∈ f.sig.params, p.Valid a.type ∧ a.isOut = false
  results_valid : ∀ a ∈ f.sig.results,
    p.Valid a.type ∧ a.isOut = true ∧ a.type.modifier = .var
  locals_nodup : f.localIds.Nodup
  results_nil : f.kind = .create ∨ f.kind = .assign → f.sig.results = []
  generated_kind : f.isGenerated → f.kind = .create ∨ f.kind = .assign
  copy_param : f.isGenerated → f.isCopy → ∃ a, f.sig.params = [a] ∧
    (ScalarKind.ofName? f.cls.name = none ∧ a.type = .cls .cref f.cls ∨
      ∃ k, ScalarKind.ofName? f.cls.name = some k ∧ a.type = .scalar .const k)

/-- A well-formed foreign function: it takes and gives atomic values that may be written. -/
structure ValidForeign (p : Program) (f : Foreign) : Prop where
  params_valid : ∀ a ∈ f.sig.params,
    p.Valid a.type ∧ a.type.isAtomic ∧ a.type.modifier = .var
  results_valid : ∀ a ∈ f.sig.results,
    p.Valid a.type ∧ a.type.isAtomic ∧ a.type.modifier = .var

/-- A well-formed class: it owns its members, and its functions are numbered by their places. -/
structure ValidClass (p : Program) (c : Class) : Prop where
  vars_own : ∀ v ∈ c.vars, v.cls = c.ref ∧ p.Valid v.type
  var_names : (c.vars.map MemberVar.name).Nodup
  funcs_own : ∀ f ∈ c.funcs, f.cls = c.ref ∧ p.ValidFunc f
  func_index : ∀ (i : Nat) (f : MemberFunction), c.funcs[i]? = some f → f.index = i

/-- **Well-formed programs**. -/
structure WellFormed (p : Program) : Prop where
  ids_nodup : (p.classes.map fun c => c.ref.id).Nodup
  names_nodup : (p.classes.map Class.name).Nodup
  classes_valid : ∀ c ∈ p.classes, p.ValidClass c
  foreign_names : (p.foreigns.map Foreign.name).Nodup
  foreigns_valid : ∀ f ∈ p.foreigns, p.ValidForeign f

/-- **Numbered programs**: classes have numbers of their own, and every function knows its class and
its place in it. -/
structure Numbered (p : Program) : Prop where
  ids_nodup : (p.classes.map fun c => c.ref.id).Nodup
  funcs_at : ∀ k ∈ p.classes, ∀ (i : Nat) (f : MemberFunction), k.funcs[i]? = some f →
    f.cls = k.ref ∧ f.index = i

/-- In a well-formed program members are numbered in order. -/
lemma WellFormed.numbered {p : Program} (hp : p.WellFormed) : p.Numbered where
  ids_nodup := hp.ids_nodup
  funcs_at k hk i f hf :=
    ⟨((hp.classes_valid k hk).funcs_own f (List.mem_of_getElem? hf)).1,
      (hp.classes_valid k hk).func_index i f hf⟩

section Lookup

variable {p : Program} {c : ClassRef} {f : MemberFunction} {v : MemberVar} {d : Class} {n : String}

/-- The class that a type names is among the classes, or no class has its number and it has no
members. -/
lemma classOf_mem_or (p : Program) (c : ClassRef) :
    (∃ d ∈ p.classes, d.ref.id = c.id ∧ p.classOf c = d) ∨
      (∀ d ∈ p.classes, d.ref.id ≠ c.id) ∧ (p.classOf c).members = [] := by
  unfold classOf
  cases h : p.classes.find? fun d => d.ref.id == c.id with
  | none => exact .inr ⟨by simpa using h, rfl⟩
  | some d => exact .inl ⟨d, List.mem_of_find?_eq_some h, by simpa using List.find?_some h, rfl⟩

/-- The functions of the class that a type names are declared. -/
lemma declares_of_mem_classOf (h : f ∈ (p.classOf c).funcs) : p.Declares f := by
  obtain ⟨d, hd, -, he⟩ | ⟨-, hn⟩ := p.classOf_mem_or c
  · exact ⟨d, hd, he ▸ h⟩
  · simp [Class.funcs, hn] at h

/-- A class that is found by its name is among the classes. -/
lemma mem_of_class?_eq_some (h : p.class? n = some d) : d ∈ p.classes :=
  List.mem_of_find?_eq_some h

/-- A declared class is found by its number. -/
lemma Numbered.classOf_eq_of_id (hp : p.Numbered) (hd : d ∈ p.classes)
    (h : c.id = d.ref.id) : p.classOf c = d := by
  obtain ⟨e, he, hid, hc⟩ | ⟨hn, -⟩ := p.classOf_mem_or c
  · exact hc.trans (List.inj_on_of_nodup_map hp.ids_nodup he hd (hid.trans h))
  · exact absurd h.symm (hn d hd)

/-- The class of a name in types is among the classes. -/
lemma Numbered.classOf_mem (hp : p.Numbered) (hc : c ∈ p.classes.map Class.ref) :
    p.classOf c ∈ p.classes ∧ (p.classOf c).ref = c := by
  obtain ⟨d, hd, rfl⟩ := List.mem_map.1 hc
  rw [hp.classOf_eq_of_id hd rfl]
  exact ⟨hd, rfl⟩

/-- A class is found by its number. -/
lemma WellFormed.classOf_eq_of_id (hp : p.WellFormed) (hd : d ∈ p.classes)
    (h : c.id = d.ref.id) : p.classOf c = d :=
  hp.numbered.classOf_eq_of_id hd h

/-- A declared class is the one that its own name in types finds. -/
lemma WellFormed.classOf_eq (hp : p.WellFormed) (hd : d ∈ p.classes) : p.classOf d.ref = d :=
  hp.classOf_eq_of_id hd rfl

/-- The functions of a well-formed program are well formed. -/
lemma Declares.validFunc (hf : p.Declares f) (hp : p.WellFormed) : p.ValidFunc f := by
  obtain ⟨d, hd, hm⟩ := hf
  exact ((hp.classes_valid d hd).funcs_own f hm).2

/-- The class and the place in it tell the functions of a program apart. -/
lemma Numbered.eq_of_index_eq {g : MemberFunction} (hp : p.Numbered) (hf : p.Declares f)
    (hg : p.Declares g) (hc : f.cls.id = g.cls.id) (hi : f.index = g.index) : f = g := by
  obtain ⟨c, hc', hfm⟩ := hf
  obtain ⟨d, hd, hgm⟩ := hg
  obtain ⟨i, hi'⟩ := List.mem_iff_getElem?.1 hfm
  obtain ⟨j, hj⟩ := List.mem_iff_getElem?.1 hgm
  obtain ⟨hfc, hfi⟩ := hp.funcs_at c hc' i f hi'
  obtain ⟨hgc, hgi⟩ := hp.funcs_at d hd j g hj
  rw [hfc, hgc] at hc
  obtain rfl := List.inj_on_of_nodup_map hp.ids_nodup hc' hd hc
  obtain rfl : i = j := hfi.symm.trans (hi.trans hgi)
  exact Option.some.inj (hi'.symm.trans hj)

/-- Functions of one class with the same number are the same. -/
lemma Declares.eq_of_index_eq {g : MemberFunction} (hf : p.Declares f) (hg : p.Declares g)
    (hp : p.WellFormed) (hc : f.cls.id = g.cls.id) (hi : f.index = g.index) : f = g :=
  hp.numbered.eq_of_index_eq hf hg hc hi

/-- A member variable of the class that a type names belongs to a declared class. -/
lemma WellFormed.var_of_mem_classOf (hp : p.WellFormed) (h : v ∈ (p.classOf c).vars) :
    (∃ d ∈ p.classes, d.ref = v.cls ∧ v ∈ d.vars) ∧ p.Valid v.type := by
  obtain ⟨d, hd, -, he⟩ | ⟨-, hn⟩ := p.classOf_mem_or c
  · obtain ⟨hv, ht⟩ := (hp.classes_valid d hd).vars_own v (he ▸ h)
    exact ⟨⟨d, hd, hv.symm, he ▸ h⟩, ht⟩
  · simp [Class.vars, hn] at h

end Lookup

end Program

end Lane
