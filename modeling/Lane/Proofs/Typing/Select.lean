import Lane.Typing.Resolve
import Mathlib.Data.List.Forall2
import Mathlib.Tactic.Lemma

set_option relaxedAutoImplicit false
set_option autoImplicit false

/-!
# Selected functions

A function that is selected for a call is one of the candidates, and agrees with the arguments.

## Main results

* `Lane.Class.of_resolve_eq_ok`, `Lane.Class.of_resolveOperator_eq_ok`: selected functions belong to
  the class, and agree with the arguments.
* `Lane.Signature.forall₂_of_applicable`: agreement in number is agreement one by one.
-/

namespace Lane

/-- A selected function is a candidate that agrees with the arguments. -/
lemma of_resolve_eq_ok {receiver name : String} {candidates : List MemberFunction}
    {args : List Ty} {f : MemberFunction} (h : resolve receiver name candidates args = .ok f) :
    f ∈ candidates ∧ f.sig.applicable args := by
  unfold resolve at h
  split at h
  · rename_i g hg
    obtain rfl := Except.ok.inj h
    have : g ∈ candidates.filter fun f => f.sig.applicable args := by simp [hg]
    simpa using this
  · cases h

namespace Class

variable {c : Class} {name : String} {kinds : List FuncKind} {args : List Ty} {f : MemberFunction}

/-- What is found are functions of the name and of one of the kinds. -/
lemma mem_lookup : f ∈ c.lookup name kinds ↔
    f ∈ c.funcs ∧ f.name = name ∧ (kinds = [] ∨ f.kind ∈ kinds) := by
  simp [lookup]

/-- A selected function is one of the class, is of the given kinds and agrees with the arguments. -/
lemma of_resolve_eq_ok (h : c.resolve name args kinds = .ok f) (hk : kinds ≠ []) :
    f ∈ c.funcs ∧ f.kind ∈ kinds ∧ f.sig.applicable args := by
  obtain ⟨hm, ha⟩ := Lane.of_resolve_eq_ok h
  obtain ⟨hf, -, hk'⟩ := mem_lookup.1 hm
  exact ⟨hf, hk'.resolve_left hk, ha⟩

/-- A selected operator is one of the class and agrees with the operands. -/
lemma of_resolveOperator_eq_ok {op : String} (h : c.resolveOperator op args = .ok f) :
    f ∈ c.funcs ∧ f.kind = .operator ∧ f.sig.applicable args := by
  have found : ∀ fs : List MemberFunction, fs ⊆ c.lookup op [.operator] → f ∈ fs →
      f ∈ c.funcs ∧ f.kind = .operator := by
    intro fs hfs hf
    obtain ⟨hm, -, hk⟩ := mem_lookup.1 (hfs hf)
    exact ⟨hm, by simpa using hk⟩
  unfold resolveOperator at h
  cases ho : op == "-" with
  | false =>
    simp only [ho] at h
    obtain ⟨hm, ha⟩ := Lane.of_resolve_eq_ok h
    exact (found _ (List.Subset.refl _) hm).imp_right fun hk => ⟨hk, ha⟩
  | true =>
    cases args with
    | nil =>
      simp only [ho] at h
      obtain ⟨hm, ha⟩ := Lane.of_resolve_eq_ok h
      exact (found _ (List.Subset.refl _) hm).imp_right fun hk => ⟨hk, ha⟩
    | cons left more =>
      simp only [ho] at h
      split at h
      · cases h
      · obtain ⟨hm, ha⟩ := Lane.of_resolve_eq_ok h
        have hs := found _ (by split <;> exact List.filter_subset_self _) hm
        exact hs.imp_right fun hk => ⟨hk, ha⟩

end Class

/-- Agreement of types with parameters, one by one. -/
lemma Signature.forall₂_of_applicable {s : Signature} {ts : List Ty} (h : s.applicable ts) :
    List.Forall₂ (fun (a : Param) (t : Ty) => a.type.compatible t) s.params ts := by
  simp only [applicable, Bool.and_eq_true, beq_iff_eq] at h
  rw [List.forall₂_iff_zip]
  refine ⟨h.1.symm, fun {a t} hat => ?_⟩
  exact List.all_eq_true.1 h.2 (a, t) hat

end Lane
