import Lane.Proofs.Analysis.Protected
import Lane.Proofs.Lowering.Program

set_option relaxedAutoImplicit false
set_option autoImplicit false

/-!
# Write protection

Code writes to the targets of assignments, to what is bound to `ref` parameters, and to the instance
of a writer. In an accepted program all of these may be written, with one exception: the arguments
of a create or assign that is selected for a pair of an assignment are not checked.

## Main definitions

* `Lane.Pair.guards`: whether the arguments that a pair binds to `ref` parameters may be written.
* `Lane.TStmt.ProtectedAll`: statements that write only what may be written.

## Main results

* `Lane.Accepted.protectedAll_iff`: which bodies of accepted programs are protected.
-/

namespace Lane

/-- Whether the values that a pair binds to `ref` parameters of its create or assign come from
expressions that may be written. -/
def Pair.guards (values : List TExpr) (q : Pair) : Bool :=
  match q.kind with
  | .user f => (f.sig.params.zip q.values).all fun (a, v) =>
      a.type.modifier != .ref || values[v.source]?.any TExpr.isWritable
  | _ => true

/-- **Protected assignments**: all calls are guarded, all targets that are no declarations may be
written if there are values to assign, and so may the arguments of `ref` parameters of pairs. -/
structure AssignProtected (gs : List TTarget) (vs : List TExpr) (ps : List Pair)
    (_discarded : List TExpr) : Prop where
  targets_protected : ∀ x ∈ gs.filterMap TTarget.expr?, x.Protected
  values_protected : ∀ x ∈ vs, x.Protected
  targets_writable : vs ≠ [] → ∀ x ∈ gs.filterMap TTarget.expr?, x.isWritable
  pairs_guarded : ∀ q ∈ ps, q.guards vs

namespace TStmt

/-- **Protected statements** write only what may be written. -/
abbrev ProtectedAll : List TStmt → Prop := EachAll AssignProtected TExpr.Protected

/-- Statements in which the pairs of all assignments are guarded. -/
abbrev PairsGuardedAll : List TStmt → Prop :=
  EachAll (fun _ vs ps _ => ∀ q ∈ ps, q.guards vs) fun _ => True

end TStmt

/-- The targets of a typed assignment may be written, because none has the error type. -/
lemma AssignChecked.targets_writable_of_typed {p : Program} {Γ : List Local} {gs : List TTarget}
    {vs : List TExpr} {ps : List Pair} {ds : List TExpr} (h : AssignChecked gs vs ps ds)
    (hp : p.WellFormed) (hΓ : ∀ l ∈ Γ, p.Valid l.type) (ht : AssignTyped p Γ vs ps ds)
    (hvs : vs ≠ []) : ∀ x ∈ gs.filterMap TTarget.expr?, x.isWritable := by
  intro x hx
  obtain ⟨t, htypes, hwritable⟩ := h.targets_writable hvs x hx
  have htargets : ps.map Pair.target = gs := by
    rw [h.targets_eq, if_neg (by simpa using hvs)]
  have hplace : x ∈ ps.filterMap Pair.place? := by
    rw [← htargets, List.filterMap_map] at hx
    exact hx
  have hx : x.Typed p Γ :=
    TStmt.typed_of_assign ht (List.mem_append_left _ (List.mem_append_right _ hplace))
  exact hwritable (hx.valid hp hΓ t (by simp [htypes])).isError_eq_false

namespace Accepted

open Lowering

variable {file : String} {text : List Rune} {e : Elaborated}

/-- The bodies of an accepted program are typed, and checked. -/
lemma checkedAll (h : Accepted file text e) {b : FuncBody} (hb : b ∈ e.bodies) :
    TStmt.CheckedAll b.body := by
  obtain ⟨tree, ds, -, rfl, hok⟩ := h
  exact Elaborated.checked_of_isOk tree ds hok b hb

/-- **Which bodies of accepted programs are protected**: those in which the arguments that pairs
bind to `ref` parameters may be written.

**Proof sketch.** The analysis checks all other arguments and all targets; a target that fails the
check only because of its type would have the error type, and that no typed expression has. -/
theorem protectedAll_iff (h : Accepted file text e) {b : FuncBody} (hb : b ∈ e.bodies) :
    TStmt.ProtectedAll b.body ↔ TStmt.PairsGuardedAll b.body := by
  constructor
  · exact fun hall => hall.combine (fun ha _ => ha.pairs_guarded) (fun _ _ => trivial) hall
  · intro hguarded
    have hp := h.typed.program_wf
    have hdecl := h.typed.bodies_declared b hb
    have hwritable : TStmt.EachAll (fun gs vs ps ds => AssignChecked gs vs ps ds ∧
        (vs ≠ [] → ∀ x ∈ gs.filterMap TTarget.expr?, x.isWritable)) TExpr.Protected b.body :=
      TStmt.EachAll.of_typed (fun hΓ ht ha => ⟨ha, ha.targets_writable_of_typed hp hΓ ht⟩)
        (hdecl.rootLocals_valid hp) (h.typed.bodies_typed b hb).typed (h.checkedAll hb)
    refine hwritable.combine (fun ha hq => ?_) (fun hx _ => hx) hguarded
    exact ⟨ha.1.targets_protected, ha.1.values_protected, ha.2, hq⟩

/-- A variable that a create takes by `ref`. -/
def createsByRef : String :=
  "class V { create(o: ref int) { o = 5; } routine f() { var c: int; var v: V = c; } }"

/-- A body that is protected if its pairs are guarded: a create takes a variable by `ref`. -/
theorem protectedAll_iff_create : ∃ e,
    accept? "" (Rune.ascii createsByRef) = some e ∧
    ∃ b ∈ e.bodies, (TStmt.ProtectedAll b.body ↔ TStmt.PairsGuardedAll b.body) := by
  have hrun : (accept? "" (Rune.ascii createsByRef)).any fun e => !e.bodies.isEmpty := by
    rw [createsByRef, Rune.ascii_ofList]
    decide +kernel
  obtain ⟨e, he, hne⟩ := (Option.any_eq_true ..).1 hrun
  obtain ⟨b, hb⟩ := List.exists_mem_of_ne_nil e.bodies (by simpa using hne)
  exact ⟨e, he, b, hb, (of_accept? he).protectedAll_iff hb⟩

/-- A constant that a create takes by `ref`. -/
def writesConst : String :=
  "class V { create(o: ref int) { o = 5; } routine f() { const c: int = 1; var v: V = c; } }"

/-- Whether a statement is an assignment with a pair that is not guarded. -/
def hasOpenPair : TStmt → Bool
  | .assign _ _ vs ps _ => ps.any fun q => !q.guards vs
  | _ => false

/-- A program that writes to a constant: a create takes it by `ref`. -/
theorem not_protectedAll_const : ∃ e, Accepted "" (Rune.ascii writesConst) e ∧
    ∃ b ∈ e.bodies, ¬TStmt.ProtectedAll b.body := by
  have hrun : (accept? "" (Rune.ascii writesConst)).any fun e =>
      e.bodies.any fun b => b.body.any hasOpenPair := by
    rw [writesConst, Rune.ascii_ofList]
    decide +kernel
  obtain ⟨e, he, hrun⟩ := (Option.any_eq_true ..).1 hrun
  obtain ⟨b, hb, hrun⟩ := List.any_eq_true.1 hrun
  obtain ⟨s, hs, hopen⟩ := List.any_eq_true.1 hrun
  refine ⟨e, of_accept? he, b, hb, fun hall => ?_⟩
  cases s with
  | assign =>
    obtain ⟨q, hq, hnot⟩ := List.any_eq_true.1 hopen
    have hguards := (hall.of_mem hs).pairs_guarded q hq
    simp [hguards] at hnot
  | _ => cases hopen

end Accepted

end Lane
