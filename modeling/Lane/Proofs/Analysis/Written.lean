import Lane.Analysis.Expr
import Lane.Proofs.Typing.Compatible
import Lane.Proofs.Typing.Valid

set_option relaxedAutoImplicit false
set_option autoImplicit false

/-!
# Written types

A written type stands for at most one type of a program, in which nothing failed to be analysed. If
it stands for none, that is reported once, and the error type is given instead; so the error type is
never found inside another type, and agreement of types is equality up to modifiers.

## Main definitions

* `Lane.Ty.IsSimdElement`, `Lane.Ty.HasSimdElements`: what `simd` containers hold.
* `Lane.TypeExpr.StandsFor`: the type that a written type stands for.
* `Lane.Ty.erased`: a type whose modifiers are all those of variables.

## Main results

* `Lane.Analysis.resolveType_spec`: written types are analysed as the relation says.
* `Lane.Program.bare_eq_iff`: types of a program are told apart by their classes.
* `Lane.agreement_is_structural`: types agree exactly if they are equal up to modifiers.
-/

namespace Lane

/-! ## Elements of containers -/

namespace Ty

/-- **Elements of `simd` containers**: scalars, and instances of `simd` classes. -/
def IsSimdElement : Ty → Prop
  | .scalar _ _ => True
  | .cls _ c => c.isSimd
  | .ptr _ _ | .container _ _ _ | .error _ => False

/-- **Fitting elements**: at every depth of the type, `simd` containers hold what they may. -/
def HasSimdElements : Ty → Prop
  | .scalar _ _ | .cls _ _ | .error _ => True
  | .ptr _ t => t.HasSimdElements
  | .container _ k t => (k = .simd → t.IsSimdElement) ∧ t.HasSimdElements

end Ty

/-- Types of a program are free of errors. -/
lemma Program.Valid.isErrorFree {p : Program} {t : Ty} (h : p.Valid t) : t.IsErrorFree := by
  induction t with
  | scalar | cls => trivial
  | error => exact h
  | ptr _ _ ih | container _ _ _ ih => exact ih h

/-! ## The type that a written type stands for -/

/-- **What written types stand for**: the name of a scalar for the scalar, and any other name for
the class with that name; a container for the container of what its element stands for, which has to
fit into it. -/
inductive TypeExpr.StandsFor (p : Program) : TypeExpr → Ty → Prop
  | scalar {pos : Position} {n : String} {k : ScalarKind} (hk : ScalarKind.ofName? n = some k) :
    StandsFor p (.name pos n) (.ofScalar k)
  | cls {pos : Position} {n : String} {c : Class} (hn : ScalarKind.ofName? n = none)
    (hc : p.class? n = some c) : StandsFor p (.name pos n) (.ofClass c.ref)
  | ptr {pos : Position} {e : TypeExpr} {t : Ty} (h : StandsFor p e t) :
    StandsFor p (.container pos .ptr e) (.ptr .var t)
  | array {pos : Position} {e : TypeExpr} {t : Ty} (h : StandsFor p e t) :
    StandsFor p (.container pos .array e) (.container .var .array t)
  | simd {pos : Position} {e : TypeExpr} {t : Ty} (h : StandsFor p e t) (ht : t.IsSimdElement) :
    StandsFor p (.container pos .simd e) (.container .var .simd t)

namespace TypeExpr.StandsFor

variable {p : Program} {e : TypeExpr} {t : Ty}

/-- Every class that a written type names is declared. -/
lemma valid (h : e.StandsFor p t) : p.Valid t := by
  induction h with
  | scalar => trivial
  | cls _ hc => exact ⟨_, Program.mem_of_class?_eq_some hc, rfl⟩
  | ptr _ ih | array _ ih | simd _ _ ih => exact ih

/-- A written type stands for one type at most. -/
lemma unique {u : Ty} (ht : e.StandsFor p t) (hu : e.StandsFor p u) : t = u := by
  induction ht generalizing u with
  | scalar hk => cases hu <;> simp_all
  | cls hn hc => cases hu <;> simp_all
  | ptr _ ih | array _ ih | simd _ _ ih =>
    cases hu
    rw [ih ‹_›]

/-- What stands for a type has `simd` elements where it needs them. -/
lemma hasSimdElements (h : e.StandsFor p t) : t.HasSimdElements := by
  induction h with
  | scalar | cls => trivial
  | ptr _ ih => exact ih
  | array _ ih => exact ⟨nofun, ih⟩
  | simd _ ht ih => exact ⟨fun _ => ht, ih⟩

end TypeExpr.StandsFor

namespace Analysis

section ResolveType

variable {e : TypeExpr} {t : Ty} {c d : Context}

/-- What failed inside a container is not reported again. -/
lemma resolveType_container_failed (h : (resolveType e).run c = (.failed, d)) (pos : Position)
    (kind : ContainerKind) : (resolveType (.container pos kind e)).run c = (.failed, d) := by
  unfold resolveType
  rw [StateT.run_bind, h]
  rfl

variable (h : (resolveType e).run c = (t, c)) (pos : Position)
include h

/-- A written pointer is resolved by what it points to. -/
lemma resolveType_ptr (ht : t.isError = false) :
    (resolveType (.container pos .ptr e)).run c = (.ptr .var t, c) := by
  unfold resolveType
  rw [StateT.run_bind, h]
  change StateT.run (if t.isError then _ else _) c = _
  rw [ht]
  rfl

/-- A written array is resolved by its elements. -/
lemma resolveType_array (ht : t.isError = false) :
    (resolveType (.container pos .array e)).run c = (.container .var .array t, c) := by
  unfold resolveType
  rw [StateT.run_bind, h]
  change StateT.run (if t.isError then _ else _) c = _
  rw [ht]
  rfl

/-- A written `simd` container is resolved by its elements. -/
lemma resolveType_simd (ht : t.IsSimdElement) :
    (resolveType (.container pos .simd e)).run c = (.container .var .simd t, c) := by
  unfold resolveType
  rw [StateT.run_bind, h]
  cases t with
  | scalar => rfl
  | error | ptr | container => exact ht.elim
  | cls m k =>
    change StateT.run (if k.isSimd then _ else _) c = _
    rw [show k.isSimd = true from ht]
    rfl

/-- What a `simd` container may not hold is reported. -/
lemma resolveType_simd_failed (herr : t.isError = false) (ht : ¬t.IsSimdElement) :
    ∃ message, (resolveType (.container pos .simd e)).run c =
      (.failed, c.report .containerUse pos message) := by
  unfold resolveType
  rw [StateT.run_bind, h]
  cases t with
  | scalar => exact absurd trivial ht
  | error => cases herr
  | ptr | container => exact ⟨_, rfl⟩
  | cls m k =>
    change ∃ message, StateT.run (if k.isSimd then _ else _) c = _
    rw [Bool.eq_false_iff.2 ht]
    exact ⟨_, rfl⟩

end ResolveType

/-- **Analysed types**: the type that the written type stands for, in the context as it was; or else
the error type, and one report more. -/
theorem resolveType_spec (e : TypeExpr) (c : Context) :
    (∃ t, e.StandsFor c.program t ∧ (resolveType e).run c = (t, c)) ∨
      (∀ t, ¬e.StandsFor c.program t) ∧ ∃ kind pos message,
        (resolveType e).run c = (.failed, c.report kind pos message) := by
  induction e with
  | name pos n =>
    cases hk : ScalarKind.ofName? n with
    | some k =>
      refine .inl ⟨.ofScalar k, .scalar hk, ?_⟩
      simp only [resolveType, hk]
      rfl
    | none =>
      cases hc : c.program.class? n with
      | some k =>
        refine .inl ⟨.ofClass k.ref, .cls hk hc, ?_⟩
        simp [resolveType, hk, hc]
        rfl
      | none =>
        refine .inr ⟨fun t ht => ?_, .undeclared, pos, "undeclared type '" ++ n ++ "'", ?_⟩
        · cases ht <;> simp_all
        · simp [resolveType, hk, hc, report]
          rfl
  | container pos kind e ih =>
    obtain ⟨t, ht, hrun⟩ | ⟨hnone, kind', pos', message, hrun⟩ := ih
    · have herr := ht.valid.isErrorFree.isError
      cases kind with
      | ptr => exact .inl ⟨_, .ptr ht, resolveType_ptr hrun pos herr⟩
      | array => exact .inl ⟨_, .array ht, resolveType_array hrun pos herr⟩
      | simd =>
        by_cases hel : t.IsSimdElement
        · exact .inl ⟨_, .simd ht hel, resolveType_simd hrun pos hel⟩
        · obtain ⟨message, hfail⟩ := resolveType_simd_failed hrun pos herr hel
          refine .inr ⟨fun u hu => ?_, _, _, message, hfail⟩
          cases hu with
          | simd hu hel' => exact hel (ht.unique hu ▸ hel')
    · refine .inr ⟨fun t ht => ?_, kind', pos', message, ?_⟩
      · cases ht <;> exact hnone _ ‹_›
      · exact resolveType_container_failed hrun pos kind

end Analysis

/-! ## Agreement -/

/-- **Erased types**: every modifier is that of variables, at every depth. -/
def Ty.erased : Ty → Ty
  | .scalar _ k => .scalar .var k
  | .cls _ c => .cls .var c
  | .ptr _ t => .ptr .var t.erased
  | .container _ k t => .container .var k t.erased
  | .error _ => .error .var

namespace Program

variable {p : Program} {t u : Ty}

/-- In a program the numbers of the classes tell them apart, so nothing is lost with their names. -/
theorem bare_eq_iff (hp : (p.classes.map fun c => c.ref.id).Nodup) (ht : p.Valid t)
    (hu : p.Valid u) : t.bare = u.bare ↔ t.erased = u.erased := by
  induction t generalizing u with
  | scalar | error => cases u <;> simp [Ty.bare, Ty.erased]
  | cls m c =>
    cases u with
    | cls m' d =>
      obtain ⟨k, hk, rfl⟩ := ht
      obtain ⟨l, hl, rfl⟩ := hu
      have hkl : k.ref.id = l.ref.id → k = l := List.inj_on_of_nodup_map hp hk hl
      simp only [Ty.bare, Ty.erased, Ty.cls.injEq, true_and, ClassRef.mk.injEq, and_true]
      exact ⟨fun h => congrArg Class.ref (hkl h), congrArg ClassRef.id⟩
    | scalar | ptr | container | error => simp [Ty.bare, Ty.erased]
  | ptr m t ih =>
    cases u with
    | ptr m' u =>
      have h := ih (u := u) ht hu
      simpa [Ty.bare, Ty.erased] using h
    | scalar | cls | container | error => simp [Ty.bare, Ty.erased]
  | container m k t ih =>
    cases u with
    | container m' l u =>
      have h := ih (u := u) ht hu
      simp [Ty.bare, Ty.erased, h]
    | scalar | cls | ptr | error => simp [Ty.bare, Ty.erased]

end Program

/-- **Agreement is structural.** It is reflexive and symmetric, and types without errors agree, and
are identical, exactly if they are equal once all modifiers are erased; so it is transitive for
them. Another modifier changes nothing but the modifier at the top. A written type stands for an
error-free type of the program that holds only fitting elements in `simd` containers, or is reported
and gives the error type itself, which is never found inside another one. -/
theorem agreement_is_structural :
    (∀ t : Ty, t.compatible t) ∧
    (∀ t u : Ty, t.compatible u = u.compatible t) ∧
    (∀ t u : Ty, t.IsErrorFree → u.IsErrorFree →
      (t.compatible u ↔ t.bare = u.bare) ∧ (t.identical u ↔ t.bare = u.bare)) ∧
    (∀ (p : Program) (t u : Ty), (p.classes.map fun c => c.ref.id).Nodup → p.Valid t →
      p.Valid u → (t.bare = u.bare ↔ t.erased = u.erased)) ∧
    (∀ t u v : Ty, t.IsErrorFree → u.IsErrorFree → v.IsErrorFree →
      (t.compatible u → u.compatible v → t.compatible v) ∧
      (t.identical u → u.identical v → t.identical v)) ∧
    (∀ (t : Ty) (m : Modifier), (t.withModifier m).compatible t ∧
      (t.withModifier m).bare = t.bare ∧ (t.withModifier m).modifier = m ∧
      (t.withModifier m).modifiers = m :: t.modifiers.tail) ∧
    ∀ (e : TypeExpr) (c : Context),
      (∃ t, e.StandsFor c.program t ∧ c.program.Valid t ∧ t.IsErrorFree ∧ t.HasSimdElements ∧
        (Analysis.resolveType e).run c = (t, c)) ∨
      (∀ t, ¬e.StandsFor c.program t) ∧ ∃ kind pos message,
        (Analysis.resolveType e).run c = (.failed, c.report kind pos message) := by
  refine ⟨Ty.compatible_refl, Ty.compatible_comm,
    fun _ _ ht hu => ⟨Ty.compatible_iff ht hu, Ty.identical_iff ht hu⟩,
    fun _ _ _ => Program.bare_eq_iff,
    fun _ _ _ ht hu hv => ⟨Ty.compatible_trans ht hu hv, Ty.identical_trans ht hu hv⟩,
    fun t m => ⟨Ty.compatible_withModifier t m, Ty.bare_withModifier t m,
      Ty.modifier_withModifier, Ty.modifiers_withModifier t m⟩, fun e c => ?_⟩
  obtain ⟨t, ht, hrun⟩ | hfail := Analysis.resolveType_spec e c
  · exact .inl ⟨t, ht, ht.valid, ht.valid.isErrorFree, ht.hasSimdElements, hrun⟩
  · exact .inr hfail

end Lane
