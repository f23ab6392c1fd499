import Lane.Proofs.Analysis.Members
import Lane.Proofs.Typing.Compatible
import Lane.Proofs.Typing.Select

set_option relaxedAutoImplicit false
set_option autoImplicit false

/-!
# Overloads

What a call selects depends on which candidates agree with the arguments, and not on their order: a
function is selected if it is the only one, and the call is ambiguous if there are several. In a
class whose types are free of errors, functions of one name and kind that agree with the same
arguments have different results, so calls to functions without results are never ambiguous.

## Main definitions

* `Lane.verdict`: what a call selects, or whether it is ambiguous.
* `Lane.Class.Overlap`: a unary and a binary minus that both take an operand.
* `Lane.Declaration`, `Lane.Class.populate`: a class after declarations, rejected ones included.

## Main results

* `Lane.resolve_eq_ok_iff`, `Lane.isAmbiguous_of_resolve`: what decides a call.
* `Lane.verdict_resolve_perm`, `Lane.Class.verdict_resolveOperator_perm`: the order of candidates is
  irrelevant.
* `Lane.Class.populate_bareTypes_ne`: overloads that agree with the same arguments differ in their
  results.
* `Lane.resolution_is_declarative`: the three together.
-/

namespace Lane

/-! ## The order of candidates -/

section Resolve

variable {receiver receiver' name name' : String} {cs ds : List MemberFunction} {args : List Ty}
  {f : MemberFunction}

/-- **The verdict of a selection**: the function, or whether the call is ambiguous. -/
def verdict (r : Except ResolveError MemberFunction) : Except Bool MemberFunction :=
  r.mapError ResolveError.isAmbiguous

/-- **Selection is uniqueness**: a function is selected if and only if it stands at the one place of
the list where a candidate agrees with the arguments. -/
theorem resolve_eq_ok_iff : resolve receiver name cs args = .ok f ↔
    ∃ before after, cs = before ++ f :: after ∧ f.sig.applicable args ∧
      ∀ g ∈ before ++ after, ¬g.sig.applicable args := by
  have hone : resolve receiver name cs args = .ok f ↔
      cs.filter (fun g => g.sig.applicable args) = [f] := by
    unfold resolve
    split
    · rename_i g hg
      simp [hg]
    · rename_i hne
      simp only [reduceCtorEq, false_iff]
      exact hne f
  rw [hone, List.filter_eq_cons_iff]
  constructor
  · rintro ⟨before, after, rfl, hb, hf, ha⟩
    refine ⟨before, after, rfl, hf, fun g hg => ?_⟩
    obtain hg | hg := List.mem_append.1 hg
    · exact hb g hg
    · exact List.filter_eq_nil_iff.1 ha g hg
  · rintro ⟨before, after, rfl, hf, hall⟩
    exact ⟨before, after, rfl, fun g hg => hall g (List.mem_append_left _ hg), hf,
      List.filter_eq_nil_iff.2 fun g hg => hall g (List.mem_append_right _ hg)⟩

/-- An ambiguous call has candidates at two places that agree with the arguments. -/
lemma isAmbiguous_of_resolve {e : ResolveError} (h : resolve receiver name cs args = .error e)
    (he : e.isAmbiguous) : ∃ f g, [f, g].Sublist cs ∧ f.sig.applicable args ∧
      g.sig.applicable args := by
  unfold resolve at h
  split at h
  · cases h
  · rename_i hne
    obtain rfl := Except.error.inj h
    have hsub : (cs.filter fun f => f.sig.applicable args).Sublist cs := List.filter_sublist
    have hall : ∀ f ∈ cs.filter fun f => f.sig.applicable args, f.sig.applicable args :=
      fun f hf => (List.mem_filter.1 hf).2
    generalize cs.filter (fun f => f.sig.applicable args) = found at hne he hsub hall
    match found with
    | [] => simp at he
    | [f] => exact (hne f rfl).elim
    | f :: g :: rest =>
      refine ⟨f, g, ?_, hall f (by simp), hall g (by simp)⟩
      exact (((List.nil_sublist rest).cons_cons g).cons_cons f).trans hsub

/-- **The order of candidates is irrelevant** to the verdict. -/
theorem verdict_resolve_perm (h : cs.Perm ds) :
    verdict (resolve receiver name cs args) = verdict (resolve receiver' name' ds args) := by
  have hf : (cs.filter fun f => f.sig.applicable args).Perm
      (ds.filter fun f => f.sig.applicable args) := h.filter _
  unfold resolve
  generalize cs.filter (fun f => f.sig.applicable args) = found at hf
  generalize ds.filter (fun f => f.sig.applicable args) = found' at hf
  match found with
  | [] =>
    obtain rfl := hf.nil_eq
    rfl
  | [f] =>
    obtain rfl := List.singleton_perm.1 hf
    rfl
  | f :: g :: rest =>
    match found', hf.length_eq with
    | f' :: g' :: rest', _ => rfl

end Resolve

namespace Class

variable {c d : Class} {name op : String} {kind : FuncKind} {args : List Ty}
  {f g u b : MemberFunction} {left : Ty}

/-- **Overlapping minuses**: the left operands of a unary and a binary minus agree, and that of the
unary one agrees with the operand. -/
def Overlap (left : Ty) (u b : MemberFunction) : Prop :=
  ∃ p ∈ u.sig.params.head?, ∃ q ∈ b.sig.params.head?, p.type.compatible q.type ∧
    p.type.compatible left

/-- There is an overlap if two functions overlap. -/
lemma isSome_minusOverlap? {unary binary : List MemberFunction} :
    (minusOverlap? unary binary left).isSome ↔ ∃ u ∈ unary, ∃ b ∈ binary, Overlap left u b := by
  unfold minusOverlap? Overlap
  simp only [List.findSome?_isSome_iff]
  refine exists_congr fun u => and_congr_right fun _ => exists_congr fun b =>
    and_congr_right fun _ => ?_
  cases u.sig.params <;> cases b.sig.params <;> simp

/-- The order of functions does not matter to overlaps. -/
lemma isSome_minusOverlap?_perm (left : Ty) {unary unary' binary binary' : List MemberFunction}
    (hu : unary.Perm unary') (hb : binary.Perm binary') :
    (minusOverlap? unary binary left).isSome = (minusOverlap? unary' binary' left).isSome := by
  rw [Bool.eq_iff_iff, isSome_minusOverlap?, isSome_minusOverlap?]
  simp only [hu.mem_iff, hb.mem_iff]

/-- The order of functions does not matter to what is found. -/
lemma lookup_perm (h : c.funcs.Perm d.funcs) (kinds : List FuncKind) :
    (c.lookup name kinds).Perm (d.lookup name kinds) := h.filter _

/-- **The order of operators is irrelevant** to the verdict, the rule about minuses included. -/
theorem verdict_resolveOperator_perm (h : c.funcs.Perm d.funcs) :
    verdict (c.resolveOperator op args) = verdict (d.resolveOperator op args) := by
  have hl : (c.lookup op [.operator]).Perm (d.lookup op [.operator]) := lookup_perm h _
  unfold resolveOperator
  cases op == "-" with
  | false => exact verdict_resolve_perm hl
  | true =>
    cases args with
    | nil => exact verdict_resolve_perm hl
    | cons left more =>
      have hu := hl.filter fun f => f.sig.params.length == 1
      have hb := hl.filter fun f => f.sig.params.length == 2
      have hsome := isSome_minusOverlap?_perm left hu hb
      simp only
      cases hc : minusOverlap? _ _ left <;> cases hd : minusOverlap? _ _ left
      case none.none =>
        cases more with
        | nil => exact verdict_resolve_perm hu
        | cons right more => exact verdict_resolve_perm hb
      case none.some | some.none =>
        rw [hc, hd] at hsome
        cases hsome
      case some.some => rfl

end Class

/-! ## Classes filled by declarations -/

/-- **A declaration**: of a variable or of a function. -/
inductive Declaration where
  | var (name : String) (pos : Position) (type : Ty)
  | func (f : MemberFunction)
  deriving DecidableEq, Repr, Inhabited

/-- **Error-free declarations**: of a variable or a function whose types are. -/
def Declaration.IsErrorFree : Declaration → Prop
  | .var _ _ t => t.IsErrorFree
  | .func f => f.sig.IsErrorFree

/-- Whether a declaration is free of errors is computed. -/
instance : DecidablePred Declaration.IsErrorFree
  | .var _ _ t => Ty.decidableIsErrorFree t
  | .func f => inferInstanceAs (Decidable (∀ p ∈ f.sig.params ++ f.sig.results, p.type.IsErrorFree))

namespace Class

/-- **The class after a declaration**: the class itself if the declaration is rejected. -/
def declare (c : Class) : Declaration → Class
  | .var name pos t =>
    match c.addVar name pos t with
    | .ok (d, _) => d
    | .error _ => c
  | .func f =>
    match c.addFunc f with
    | .ok (d, _) => d
    | .error _ => c

/-- **The class after declarations**, one after the other. -/
def populate (c : Class) (ds : List Declaration) : Class := ds.foldl declare c

variable {c : Class} {ds : List Declaration} {d : Declaration} {name : String} {kind : FuncKind}
  {args : List Ty}

/-- **Sound overloads**: the functions are free of errors, and no two of them clash. -/
structure HasSoundOverloads (c : Class) : Prop where
  isErrorFree : ∀ f ∈ c.funcs, f.sig.IsErrorFree
  apart : c.funcs.Pairwise fun f g => ¬f.Clashes g

/-- A declaration keeps the overloads sound, since a function that clashes is rejected. -/
lemma HasSoundOverloads.declare (hc : c.HasSoundOverloads) (hd : d.IsErrorFree) :
    (c.declare d).HasSoundOverloads := by
  cases d with
  | var name pos t =>
    simp only [Class.declare]
    split
    · rename_i h
      obtain ⟨-, -, rfl⟩ := of_addVar_eq_ok h
      exact ⟨by simpa using hc.isErrorFree, by simpa using hc.apart⟩
    · exact hc
  | func f =>
    have hd : f.sig.IsErrorFree := hd
    simp only [Class.declare]
    split
    · rename_i h
      have hnew := not_clashes_of_addFunc h
      obtain ⟨rfl, rfl⟩ := of_addFunc_eq_ok h
      constructor
      · rw [funcs_append_func]
        exact List.forall_mem_append.2 ⟨hc.isErrorFree, by simpa using hd⟩
      · rw [funcs_append_func, List.pairwise_append]
        exact ⟨hc.apart, List.pairwise_singleton _ _,
          fun x hx y hy => List.mem_singleton.1 hy ▸ hnew x hx⟩
    · exact hc

/-- A class has sound overloads whatever is declared in it. -/
lemma hasSoundOverloads_populate (hc : c.members = []) (hd : ∀ d ∈ ds, d.IsErrorFree) :
    (c.populate ds).HasSoundOverloads := by
  have step : ∀ c : Class, c.HasSoundOverloads → (c.populate ds).HasSoundOverloads := by
    induction ds with
    | nil => exact fun c hc => hc
    | cons d ds ih =>
      rw [List.forall_mem_cons] at hd
      exact fun c hc => ih hd.2 _ (hc.declare hd.1)
  exact step c ⟨by simp [funcs, hc], by simp [funcs, hc]⟩

/-- **Overloads that agree with the same arguments differ in their results.** Both have the bare
types of the arguments as their parameters, so they would clash otherwise. -/
theorem HasSoundOverloads.bareTypes_ne (hc : c.HasSoundOverloads)
    (ha : ∀ t ∈ args, t.IsErrorFree) :
    c.funcs.Pairwise fun f g => f.name = g.name → f.kind = g.kind → f.sig.applicable args →
      g.sig.applicable args →
        Signature.bareTypes f.sig.results ≠ Signature.bareTypes g.sig.results := by
  refine hc.apart.imp_of_mem fun {f g} hf hg hclash hn hk hfa hga hr => hclash ⟨hn, hk, ?_⟩
  have hfe := hc.isErrorFree f hf
  have hge := hc.isErrorFree g hg
  have hp : Signature.bareTypes f.sig.params = Signature.bareTypes g.sig.params :=
    ((Signature.applicable_iff hfe ha).1 hfa).trans ((Signature.applicable_iff hge ha).1 hga).symm
  rw [Signature.same, Bool.and_eq_true,
    Signature.sameTypes_iff (fun p h => hfe p (List.mem_append_left _ h))
      fun p h => hge p (List.mem_append_left _ h),
    Signature.sameTypes_iff (fun p h => hfe p (List.mem_append_right _ h))
      fun p h => hge p (List.mem_append_right _ h)]
  exact ⟨hp, hr⟩

/-- **Calls to functions without results are never ambiguous.** -/
theorem HasSoundOverloads.not_isAmbiguous (hc : c.HasSoundOverloads)
    (ha : ∀ t ∈ args, t.IsErrorFree) (hr : ∀ f ∈ c.lookup name [kind], f.sig.results = [])
    {e : ResolveError} (h : c.resolve name args [kind] = .error e) : e.isAmbiguous = false := by
  rw [Bool.eq_false_iff]
  intro he
  obtain ⟨f, g, hsub, hfa, hga⟩ := isAmbiguous_of_resolve h he
  have hf : f ∈ c.lookup name [kind] := hsub.subset (by simp)
  have hg : g ∈ c.lookup name [kind] := hsub.subset (by simp)
  have hne := (hc.bareTypes_ne ha).sublist (hsub.trans List.filter_sublist)
  obtain ⟨-, hfn, hfk⟩ := mem_lookup.1 hf
  obtain ⟨-, hgn, hgk⟩ := mem_lookup.1 hg
  simp only [List.pairwise_cons, List.mem_singleton, forall_eq] at hne
  refine hne.1 (hfn.trans hgn.symm) ?_ hfa hga (by rw [hr f hf, hr g hg])
  simp_all

end Class

/-- **Resolution is declarative.** A function is selected exactly if it is the only candidate that
agrees with the arguments, the order of the candidates does not change the verdict, and in a class
filled by error-free declarations the overloads that agree with error-free arguments differ in their
results, so that calls to functions without results are never ambiguous. -/
theorem resolution_is_declarative :
    (∀ (receiver name : String) (cs : List MemberFunction) (args : List Ty) (f : MemberFunction),
      resolve receiver name cs args = .ok f ↔
        ∃ before after, cs = before ++ f :: after ∧ f.sig.applicable args ∧
          ∀ g ∈ before ++ after, ¬g.sig.applicable args) ∧
    (∀ (receiver receiver' name name' : String) (cs ds : List MemberFunction) (args : List Ty),
      cs.Perm ds →
        verdict (resolve receiver name cs args) = verdict (resolve receiver' name' ds args)) ∧
    (∀ (c d : Class) (op : String) (args : List Ty), c.funcs.Perm d.funcs →
      verdict (c.resolveOperator op args) = verdict (d.resolveOperator op args)) ∧
    ∀ (c : Class) (ds : List Declaration) (args : List Ty), c.members = [] →
      (∀ d ∈ ds, d.IsErrorFree) → (∀ t ∈ args, t.IsErrorFree) →
      ((c.populate ds).funcs.Pairwise fun f g => f.name = g.name → f.kind = g.kind →
        f.sig.applicable args → g.sig.applicable args →
          Signature.bareTypes f.sig.results ≠ Signature.bareTypes g.sig.results) ∧
      ∀ (name : String) (kind : FuncKind),
        (∀ f ∈ (c.populate ds).lookup name [kind], f.sig.results = []) →
        ∀ e, (c.populate ds).resolve name args [kind] = .error e → e.isAmbiguous = false := by
  refine ⟨fun _ _ _ _ _ => resolve_eq_ok_iff, fun _ _ _ _ _ _ _ => verdict_resolve_perm,
    fun _ _ _ _ => Class.verdict_resolveOperator_perm, fun c ds args hc hd ha => ?_⟩
  have h := Class.hasSoundOverloads_populate hc hd
  exact ⟨h.bareTypes_ne ha, fun _ _ hr _ => h.not_isAmbiguous ha hr⟩

/-- A class without members. -/
def emptyClass : Class := ⟨⟨0, "V", false⟩, {}, []⟩

/-- A function of a class without results, with one parameter of each of the types. -/
def overloadOf (kind : FuncKind) (name : String) (ts : List Ty) : MemberFunction :=
  ⟨emptyClass.ref, 0, kind, name, {}, false, ⟨ts.map fun t => ⟨"x", {}, t, false, 0⟩, []⟩, 0, false,
    false⟩

/-- Three creates, of which the last is rejected, and two minuses: one create takes a number, in
whatever order they stand. -/
theorem resolution_among_creates_and_minuses :
    let number : Ty := .scalar .const .int32
    let creates := [overloadOf .create "create" [.scalar .var .bool],
      overloadOf .create "create" [.scalar .var .int32]]
    let minuses := [overloadOf .operator "-" [.ofClass emptyClass.ref],
      overloadOf .operator "-" [.ofClass emptyClass.ref, number]]
    let declarations := (creates ++ [overloadOf .create "create" [number]] ++ minuses).map .func
    resolve "V" "create" creates [number] =
      .ok (overloadOf .create "create" [.scalar .var .int32]) ∧
    verdict (resolve "V" "create" creates [number]) =
      verdict (resolve "V" "create" creates.reverse [number]) ∧
    let c := emptyClass.populate declarations
    c.funcs.length = 4 ∧
    verdict (c.resolveOperator "-" [.ofClass c.ref]) =
      verdict (Class.resolveOperator { c with members := c.members.reverse } "-" [.ofClass c.ref]) ∧
    ∀ e, c.resolve "create" [number] [.create] = .error e → e.isAmbiguous = false := by
  intro number creates minuses declarations
  obtain ⟨hone, hperm, hop, hclass⟩ := resolution_is_declarative
  refine ⟨(hone ..).2 ⟨creates.take 1, [], rfl, by decide, by decide⟩,
    hperm _ _ _ _ _ _ _ (by decide), by decide, hop _ _ _ _ (by decide), ?_⟩
  exact (hclass emptyClass declarations [number] rfl (by decide) (by decide)).2 "create" .create
    (by decide)

end Lane
