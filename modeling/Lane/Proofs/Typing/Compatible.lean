import Lane.Typing.Class
import Mathlib.Data.List.Forall2
import Mathlib.Data.List.Zip
import Mathlib.Tactic.Lemma

set_option relaxedAutoImplicit false
set_option autoImplicit false

/-!
# Agreement of types

The error type goes with every type, so agreement is not transitive. Among the types without a part
that failed to be analysed it is: there, types agree if and only if they are equal once modifiers
are forgotten at every depth.

## Main definitions

* `Lane.Ty.IsErrorFree`: types without a part that failed to be analysed.
* `Lane.Ty.bare`: a type without its modifiers.
* `Lane.Ty.modifiers`: the modifiers of a type from the outside in.

## Main results

* `Lane.Ty.compatible_refl`, `Lane.Ty.compatible_comm`: agreement is reflexive and symmetric.
* `Lane.Ty.compatible_iff`, `Lane.Ty.identical_iff`: agreement is equality of bare types.
* `Lane.Ty.compatible_trans`: error-free types agree transitively.
* `Lane.Ty.compatible_withModifier`: a type agrees with itself under another modifier.
* `Lane.Signature.applicable_iff`, `Lane.Signature.sameTypes_iff`: the same for arguments and for
  the types of signatures.
-/

namespace Lane

namespace Ty

/-- **Error-free types**: no part of the type failed to be analysed. -/
def IsErrorFree : Ty → Prop
  | .scalar _ _ | .cls _ _ => True
  | .ptr _ t | .container _ _ t => t.IsErrorFree
  | .error _ => False

/-- Whether a type is free of errors is computed. -/
instance decidableIsErrorFree : DecidablePred IsErrorFree
  | .scalar _ _ | .cls _ _ => isTrue trivial
  | .ptr _ t => decidableIsErrorFree t
  | .container _ _ t => decidableIsErrorFree t
  | .error _ => isFalse id

/-- **Bare types**: every modifier is that of variables, and of a class only the number is kept,
which tells it from the others. -/
def bare : Ty → Ty
  | .scalar _ k => .scalar .var k
  | .cls _ c => .cls .var ⟨c.id, "", false⟩
  | .ptr _ t => .ptr .var t.bare
  | .container _ k t => .container .var k t.bare
  | .error _ => .error .var

variable {t u v : Ty}

/-- **Modifiers** from the outside in: that of the type, then those of the types inside it. -/
def modifiers : Ty → List Modifier
  | .scalar m _ | .cls m _ | .error m => [m]
  | .ptr m t | .container m _ t => m :: t.modifiers

/-- Types without errors are no error. -/
lemma IsErrorFree.isError (h : t.IsErrorFree) : t.isError = false := by
  cases t with
  | error => exact h.elim
  | scalar | cls | ptr | container => rfl

/-! ### Agreement of all types -/

/-- A type is compatible with itself. -/
theorem compatible_refl (t : Ty) : t.compatible t := by
  induction t with
  | scalar | cls | error => simp [compatible]
  | ptr _ _ ih => simpa [compatible] using ih
  | container _ _ _ ih => simpa [compatible] using ih

/-- The error type agrees with every type on either side. -/
theorem compatible_comm (t u : Ty) : t.compatible u = u.compatible t := by
  induction t generalizing u with
  | scalar | cls => cases u <;> simp [compatible, Bool.beq_comm]
  | error => cases u <;> simp [compatible]
  | ptr _ _ ih => cases u <;> simp [compatible, ih]
  | container _ _ _ ih => cases u <;> simp [compatible, ih, Bool.beq_comm]

/-- Types are identical in either order. -/
theorem identical_comm (t u : Ty) : t.identical u = u.identical t := by
  unfold identical
  rw [compatible_comm t u, Bool.and_comm (!t.isError)]

/-! ### Other modifiers -/

/-- Another modifier at the top leaves those inside as they are. -/
theorem modifiers_withModifier (t : Ty) (m : Modifier) :
    (t.withModifier m).modifiers = m :: t.modifiers.tail := by
  cases t <;> rfl

/-- A modifier does not change the bare type. -/
lemma bare_withModifier (t : Ty) (m : Modifier) : (t.withModifier m).bare = t.bare := by
  cases t <;> rfl

/-- A type is compatible with itself under any modifier. -/
theorem compatible_withModifier (t : Ty) (m : Modifier) : (t.withModifier m).compatible t := by
  have h : (t.withModifier m).compatible t = t.compatible t := by cases t <;> rfl
  rw [h]
  exact compatible_refl t

/-! ### Agreement of error-free types -/

/-- **Error-free types agree if and only if they are equal up to modifiers.** -/
theorem compatible_iff (ht : t.IsErrorFree) (hu : u.IsErrorFree) :
    t.compatible u ↔ t.bare = u.bare := by
  induction t generalizing u with
  | error => exact ht.elim
  | scalar m k =>
    cases u with
    | error => exact hu.elim
    | scalar | cls | ptr | container => simp [compatible, bare]
  | cls m c =>
    cases u with
    | error => exact hu.elim
    | scalar | cls | ptr | container => simp [compatible, bare]
  | ptr m t ih =>
    cases u with
    | error => exact hu.elim
    | ptr _ u =>
      have := ih (u := u) ht hu
      simpa [compatible, bare] using this
    | scalar | cls | container => simp [compatible, bare]
  | container m k t ih =>
    cases u with
    | error => exact hu.elim
    | container _ l u =>
      have := ih (u := u) ht hu
      simp [compatible, bare, this]
    | scalar | cls | ptr => simp [compatible, bare]

/-- Types are identical if they are the same but for modifiers. -/
theorem identical_iff (ht : t.IsErrorFree) (hu : u.IsErrorFree) :
    t.identical u ↔ t.bare = u.bare := by
  simp [identical, ht.isError, hu.isError, compatible_iff ht hu]

/-- Compatible types are compatible in sequence. -/
theorem compatible_trans (ht : t.IsErrorFree) (hu : u.IsErrorFree) (hv : v.IsErrorFree)
    (h : t.compatible u) (k : u.compatible v) : t.compatible v := by
  rw [compatible_iff ht hu] at h
  rw [compatible_iff hu hv] at k
  exact (compatible_iff ht hv).2 (h.trans k)

/-- Through the error type all types would agree. -/
example : (ofScalar .bool).compatible failed ∧ failed.compatible (ofScalar .index) ∧
    (ofScalar .bool).compatible (ofScalar .index) = false := by decide

/-- Identical types are identical in sequence. -/
theorem identical_trans (ht : t.IsErrorFree) (hu : u.IsErrorFree) (hv : v.IsErrorFree)
    (h : t.identical u) (k : u.identical v) : t.identical v := by
  rw [identical_iff ht hu] at h
  rw [identical_iff hu hv] at k
  exact (identical_iff ht hv).2 (h.trans k)

end Ty

namespace Signature

/-- **Error-free signatures**: so are the types of the parameters and results. -/
def IsErrorFree (s : Signature) : Prop := ∀ p ∈ s.params ++ s.results, p.type.IsErrorFree

variable {s : Signature}

/-- **Bare types of parameters.** -/
def bareTypes (ps : List Param) : List Ty := ps.map fun p => p.type.bare

/-- **Error-free arguments agree with error-free parameters if and only if their bare types are
equal.** -/
theorem applicable_iff {args : List Ty} (hs : s.IsErrorFree) (ha : ∀ t ∈ args, t.IsErrorFree) :
    s.applicable args ↔ bareTypes s.params = args.map Ty.bare := by
  have hp : ∀ p ∈ s.params, p.type.IsErrorFree := fun p hp => hs p (List.mem_append_left _ hp)
  unfold applicable
  generalize s.params = ps at hp
  induction ps generalizing args with
  | nil => cases args <;> simp [bareTypes]
  | cons p ps ih =>
    cases args with
    | nil => simp [bareTypes]
    | cons t args =>
      rw [List.forall_mem_cons] at hp ha
      have := ih ha.2 hp.2
      simp only [Bool.and_eq_true, beq_iff_eq, bareTypes] at this
      simp [bareTypes, Ty.compatible_iff hp.1 ha.1, ← this, and_left_comm]

/-- Parameters have the same types in either order. -/
lemma sameTypes_comm (ps qs : List Param) : sameTypes ps qs = sameTypes qs ps := by
  unfold sameTypes
  rw [← List.zip_swap qs ps, List.all_map, Bool.beq_comm]
  simp only [Function.comp_def, Prod.fst_swap, Prod.snd_swap, Ty.identical_comm]

/-- Signatures are the same in either order. -/
theorem same_comm (s t : Signature) : s.same t = t.same s := by
  unfold same
  rw [sameTypes_comm s.params, sameTypes_comm s.results]

/-- **Error-free parameters have identical types if and only if their bare types are equal.** -/
theorem sameTypes_iff {ps qs : List Param} (hp : ∀ p ∈ ps, p.type.IsErrorFree)
    (hq : ∀ q ∈ qs, q.type.IsErrorFree) : sameTypes ps qs ↔ bareTypes ps = bareTypes qs := by
  induction ps generalizing qs with
  | nil => cases qs <;> simp [sameTypes, bareTypes]
  | cons p ps ih =>
    cases qs with
    | nil => simp [sameTypes, bareTypes]
    | cons q qs =>
      rw [List.forall_mem_cons] at hp hq
      have := ih hp.2 hq.2
      simp only [sameTypes, Bool.and_eq_true, beq_iff_eq, bareTypes] at this
      simp [sameTypes, bareTypes, Ty.identical_iff hp.1 hq.1, ← this, and_left_comm]

end Signature

end Lane
