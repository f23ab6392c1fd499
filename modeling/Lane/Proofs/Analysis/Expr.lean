import Lane.Proofs.Analysis.Clean
import Lane.Proofs.Analysis.Typed
import Lane.Proofs.Typing.Select

set_option relaxedAutoImplicit false
set_option autoImplicit false

/-!
# Elaborated expressions are typed

An expression whose analysis reports nothing is typed among the locals that are visible where it
stands, and its analysis changes nothing.

## Main definitions

* `Lane.Context.visible`: the locals that are visible.
* `Lane.Context.Sound`: the program so far is well formed, and all visible locals have valid types.

## Main results

* `Lane.Analysis.expr_keeps`: expressions are typed.
-/

namespace Lane

/-! ## Visible locals -/

namespace Context

/-- The locals that are visible: those of the open scopes, and the instance. -/
def visible (c : Context) : List Local :=
  c.scopes.flatMap Scope.locals ++ (c.function.bind Frame.self).toList

/-- The program so far is well formed, and all visible locals have valid types. -/
structure Sound (c : Context) : Prop where
  program_wf : c.program.WellFormed
  visible_valid : ∀ l ∈ c.visible, c.program.Valid l.type

/-- A name that is bound is bound to a local of one of the scopes. -/
lemma mem_of_lookup?_eq_some {name : String} {l : Local} {ss : List Scope}
    (h : Scope.lookup? name ss = some l) : l ∈ ss.flatMap Scope.locals := by
  induction ss with
  | nil => cases h
  | cons s below ih =>
    unfold Scope.lookup? at h
    rw [List.flatMap_cons, List.mem_append]
    cases hs : s.find? name with
    | some l' =>
      rw [hs] at h
      obtain rfl := Option.some.inj h
      exact .inl (List.mem_of_find?_eq_some hs)
    | none =>
      simp only [hs] at h
      split at h
      · cases h
      · exact .inr (ih h)

end Context

namespace Analysis

open TExpr (Typed)

/-! ## Checks -/

section Checks

variable {c : Context} {H : Prop}

/-- A single value has one type. -/
lemma single_keeps (e : TExpr) : Keeps c H (single e) fun t => e.types = [t] := by
  unfold single
  split
  · exact Keeps.pure fun _ => ‹_›
  · exact Keeps.report_bind _ _ _ (Keeps.pure False.elim)

/-- A function that takes the types of some arguments takes the arguments, if those of `ref`
parameters stand for places. -/
lemma takes_of_applicable {s : Signature} {args : List TExpr} {ts : List Ty}
    (hts : List.Forall₂ (fun (e : TExpr) t => e.types = [t]) args ts) (ha : s.applicable ts)
    (hr : ∀ q ∈ s.params.zip args, q.1.type.modifier = .ref → q.2.isAddressable) :
    s.Takes args := by
  have h := Signature.forall₂_of_applicable ha
  rw [List.forall₂_iff_get] at h hts
  refine List.forall₂_iff_get.2 ⟨h.1.trans hts.1.symm, fun i h1 h2 => ?_⟩
  refine ⟨ts.get ⟨i, hts.1 ▸ h2⟩, hts.2 i h2 _, h.2 i h1 _, hr (_, _) ?_⟩
  have hz : i < (s.params.zip args).length := by
    rw [List.length_zip]
    exact Nat.lt_min.2 ⟨h1, h2⟩
  have : (s.params.zip args).get ⟨i, hz⟩ = (s.params.get ⟨i, h1⟩, args.get ⟨i, h2⟩) := by simp
  exact this ▸ List.get_mem _ _

/-- The check of `ref` arguments. -/
lemma checkRefArgs_keeps (f : MemberFunction) (args : List TExpr) :
    Keeps c H (checkRefArgs f args) fun _ =>
      ∀ q ∈ f.sig.params.zip args, q.1.type.modifier = .ref → q.2.isAddressable := by
  refine (Keeps.forM (R := fun q => q.1.1.type.modifier = .ref → q.1.2.isAddressable)
    fun q _ H => ?_).weaken id fun _ h q hq => ?_
  · obtain ⟨⟨a, e⟩, i⟩ := q
    have check : ∀ (isConst : Bool) (message : String),
        Keeps c H (if !e.isAddressable || isConst then report .mismatch e.pos message else pure ())
          fun _ => a.type.modifier = .ref → e.isAddressable := by
      intro isConst message
      split
      · exact Keeps.report _ _ _
      · exact Keeps.pure fun _ _ => by simp_all
    simp only
    split
    · exact check _ _
    · exact Keeps.pure fun _ h => absurd h ‹_›
  · obtain ⟨i, hi, rfl⟩ := List.mem_iff_getElem.1 hq
    exact h ((f.sig.params.zip args)[i], i)
      (List.mem_zipIdx_iff_getElem?.2 (List.getElem?_eq_getElem hi))

end Checks

/-! ## The forms of expressions -/

section Forms

variable {c : Context} {H : Prop}

/-- A name is typed by what it is bound to. -/
lemma ident_keeps (pos : Position) (name : String) :
    Keeps c H (ident pos name) (Typed c.program c.visible) := by
  refine Keeps.bind Keeps.get fun d => ?_
  split
  · rename_i l hl
    refine Keeps.pure fun h => ?_
    obtain rfl : d = c := h.2
    exact .ident (List.mem_append_left _ (Context.mem_of_lookup?_eq_some hl))
  · exact Keeps.report_bind _ _ _ (Keeps.pure False.elim)

/-- The instance is typed by its class. -/
lemma selfExpr_keeps (pos : Position) :
    Keeps c H (selfExpr pos) (Typed c.program c.visible) := by
  refine Keeps.bind Keeps.get fun d => ?_
  split
  · rename_i l hl
    refine Keeps.pure fun h => ?_
    obtain rfl : d = c := h.2
    exact .self (List.mem_append_right _ (by simp [hl]))
  · exact Keeps.report_bind _ _ _ (Keeps.pure False.elim)

/-- A literal is typed. -/
lemma literal_keeps (pos : Position) (l : Literal) :
    Keeps c H (literal pos l) (Typed c.program c.visible) := by
  obtain ⟨k, hk⟩ := l.exists_ofName?
  have leaf : ∀ H, Keeps c H (pure (.literal pos [.scalar .const k] l))
      (Typed c.program c.visible) :=
    fun H => Keeps.pure fun _ => .literal hk
  simp only [literal, hk]
  split
  · split
    · exact Keeps.report_bind _ _ _ (leaf False)
    · exact leaf H
  · exact leaf H

/-- The function that an operator selects. -/
lemma operator_keeps (pos : Position) (r : ClassRef) (op : String) (operands : List TExpr)
    (ts : List Ty) (hts : H → List.Forall₂ (fun (e : TExpr) t => e.types = [t]) operands ts) :
    Keeps c H (operator pos r op operands ts) fun q =>
      ∃ f, q = (f.sig.resultTypes, some f) ∧ c.program.Declares f ∧ f.kind = .operator ∧
        f.sig.Takes operands := by
  refine Keeps.bind Keeps.get fun d => ?_
  split
  · exact Keeps.report_bind _ _ _ (Keeps.pure False.elim)
  · rename_i f hf
    refine Keeps.bind (checkRefArgs_keeps f operands) fun _ => Keeps.pure fun h => ?_
    obtain ⟨⟨hH, rfl⟩, hr⟩ := h
    obtain ⟨hm, hk, ha⟩ := Class.of_resolveOperator_eq_ok hf
    exact ⟨f, rfl, Program.declares_of_mem_classOf hm, hk, takes_of_applicable (hts hH) ha hr⟩

/-- A value of a typed expression does not have the error type. -/
lemma isError_eq_false (hc : c.Sound) {x : TExpr} {t : Ty} (hx : x.Typed c.program c.visible)
    (ht : x.types = [t]) : t.isError = false :=
  (hx.valid hc.program_wf hc.visible_valid t (by simp [ht])).isError_eq_false

/-- What is known about analysed arguments: they are typed and have the given types. -/
def ArgsTyped (c : Context) (args : List TExpr) (ts : List Ty) : Prop :=
  (∀ a ∈ args, a.Typed c.program c.visible) ∧
    List.Forall₂ (fun (e : TExpr) t => e.types = [t]) args ts

/-- The types of typed arguments are valid. -/
lemma any_isError_eq_false (hc : c.Sound) {args : List TExpr} {ts : List Ty}
    (h : ArgsTyped c args ts) : ts.any Ty.isError = false := by
  obtain ⟨hargs, hts⟩ := h
  induction hts with
  | nil => rfl
  | cons h _ ih =>
    rw [List.any_cons, ih fun a ha => hargs a (List.mem_cons_of_mem _ ha),
      isError_eq_false hc (hargs _ List.mem_cons_self) h, Bool.or_false]

variable (hc : H → c.Sound)
include hc

/-- A unary operator is typed if its operand is. -/
lemma unary_keeps (pos : Position) (op : UnaryOp) (x : TExpr)
    (hx : H → x.Typed c.program c.visible) :
    Keeps c H (unary pos op x) (Typed c.program c.visible) := by
  refine Keeps.bind (single_keeps x) fun t => ?_
  split
  · refine Keeps.pure fun h => ?_
    have := isError_eq_false (hc h.1) (hx h.1) h.2
    simp_all
  split
  · rename_i r _
    refine Keeps.bind (operator_keeps pos r op.symbol [x] _ fun h => .cons h.2 .nil) fun q => ?_
    refine Keeps.pure fun h => ?_
    obtain ⟨⟨hH, -⟩, f, rfl, hf, hk, ha⟩ := h
    exact .unaryCall (hx hH) hf hk ha
  · split
    · exact Keeps.pure fun h => .unary (hx h.1) h.2 ‹_›
    · exact Keeps.report_bind _ _ _ (Keeps.pure False.elim)

/-- A binary operator is typed if its operands are. -/
lemma binary_keeps (pos : Position) (op : BinaryOp) (x y : TExpr) (t u : Ty)
    (hx : H → x.Typed c.program c.visible ∧ x.types = [t])
    (hy : H → y.Typed c.program c.visible ∧ y.types = [u]) :
    Keeps c H (binary pos op x y t u) (Typed c.program c.visible) := by
  unfold binary
  split
  · refine Keeps.pure fun h => ?_
    have ht := isError_eq_false (hc h) (hx h).1 (hx h).2
    have hu := isError_eq_false (hc h) (hy h).1 (hy h).2
    simp_all
  split
  · rename_i r _
    refine Keeps.bind (operator_keeps pos r op.symbol [x, y] _
      fun h => .cons (hx h).2 (.cons (hy h).2 .nil)) fun q => ?_
    refine Keeps.pure fun h => ?_
    obtain ⟨hH, f, rfl, hf, hk, ha⟩ := h
    exact .binaryCall (hx hH).1 (hy hH).1 hf hk ha
  · split
    · exact Keeps.pure fun h => .binary (hx h).1 (hy h).1 (hx h).2 (hy h).2 ‹_›
    · exact Keeps.report_bind _ _ _ (Keeps.pure False.elim)

/-- A member is typed if what it is a member of is. -/
lemma member_keeps (pos : Position) (x : TExpr) (name : String)
    (hx : H → x.Typed c.program c.visible) :
    Keeps c H (member pos x name) (Typed c.program c.visible) := by
  refine Keeps.bind (single_keeps x) fun t => ?_
  split
  · refine Keeps.pure fun h => ?_
    have := isError_eq_false (hc h.1) (hx h.1) h.2
    simp_all
  split
  · split
    · exact Keeps.pure fun h => .size (hx h.1) h.2
    · exact Keeps.report_bind _ _ _ (Keeps.pure False.elim)
  · refine Keeps.bind Keeps.get fun d => ?_
    split
    · exact Keeps.report_bind _ _ _ (Keeps.pure False.elim)
    · rename_i v hv
      refine Keeps.pure fun h => ?_
      obtain ⟨⟨hH, ht⟩, rfl⟩ := h
      exact .member (hx hH) ht ‹_› (List.mem_of_find?_eq_some hv)
  · exact Keeps.report_bind _ _ _ (Keeps.pure False.elim)

/-- An element is typed if the container and the index are. -/
lemma index_keeps (pos : Position) (x i : TExpr) (t u : Ty)
    (hx : H → x.Typed c.program c.visible ∧ x.types = [t])
    (hi : H → i.Typed c.program c.visible ∧ i.types = [u]) :
    Keeps c H (index pos x i t u) (Typed c.program c.visible) := by
  simp only [index]
  refine Keeps.report_if fun H' hH => ?_
  split
  · refine Keeps.pure fun h => ?_
    have := isError_eq_false (hc (hH h).1) (hx (hH h).1).1 (hx (hH h).1).2
    simp [Ty.isError] at this
  · refine Keeps.pure fun h => ?_
    obtain ⟨h, hu⟩ := hH h
    have herr := isError_eq_false (hc h) (hi h).1 (hi h).2
    obtain ⟨m', rfl⟩ : ∃ m', u = .scalar m' .index := by
      unfold Ty.isIndex at hu
      split at hu
      · exact ⟨_, rfl⟩
      · simp [herr] at hu
    exact .index (hx h).1 (hi h).1 (hx h).2 (hi h).2
  · exact Keeps.report_bind _ _ _ (Keeps.pure False.elim)

/-- What is behind a pointer is typed if the pointer is. -/
lemma deref_keeps (pos : Position) (x : TExpr) (hx : H → x.Typed c.program c.visible) :
    Keeps c H (deref pos x) (Typed c.program c.visible) := by
  refine Keeps.bind (single_keeps x) fun t => ?_
  split
  · refine Keeps.pure fun h => ?_
    have := isError_eq_false (hc h.1) (hx h.1) h.2
    simp [Ty.isError] at this
  · exact Keeps.pure fun h => .deref (hx h.1) h.2
  · exact Keeps.report_bind _ _ _ (Keeps.pure False.elim)

/-- A method call is typed if its instance and arguments are. -/
lemma method_keeps (pos : Position) (x : TExpr) (name : String) (args : List TExpr) (t : Ty)
    (ts : List Ty) (hx : H → x.Typed c.program c.visible ∧ x.types = [t])
    (hargs : H → ArgsTyped c args ts) :
    Keeps c H (method pos x name args t ts) (Typed c.program c.visible) := by
  unfold method
  split
  · refine Keeps.pure fun h => ?_
    have := isError_eq_false (hc h) (hx h).1 (hx h).2
    have := any_isError_eq_false (hc h) (hargs h)
    simp_all
  split
  · exact Keeps.report_bind _ _ _ (Keeps.pure False.elim)
  rename_i r hr
  refine Keeps.bind Keeps.get fun d => ?_
  split
  · exact Keeps.report_bind _ _ _ (Keeps.pure False.elim)
  rename_i f hf
  refine Keeps.report_if fun H' hH => ?_
  refine Keeps.bind (checkRefArgs_keeps f args) fun _ => Keeps.pure fun h => ?_
  obtain ⟨hH', hrefs⟩ := h
  obtain ⟨⟨h, rfl⟩, -⟩ := hH hH'
  obtain ⟨hm, hk, ha⟩ := Class.of_resolve_eq_ok hf (by simp)
  exact .method (hx h).1 (hargs h).1 (hx h).2 hr (Program.declares_of_mem_classOf hm)
    (by simpa using hk) (takes_of_applicable (hargs h).2 ha hrefs)

/-- A call of a routine of a class is typed if its arguments are. -/
lemma routineOf_keeps (pos : Position) (owner : Option String) (name : String)
    (args : List TExpr) (k : Class) (ts : List Ty) (hargs : H → ArgsTyped c args ts)
    (hk : H → ∀ f ∈ k.funcs, c.program.Declares f) :
    Keeps c H (routineOf pos owner name args k ts) (Typed c.program c.visible) := by
  unfold routineOf
  split
  · refine Keeps.pure fun h => ?_
    have := any_isError_eq_false (hc h) (hargs h)
    simp_all
  split
  · exact Keeps.report_bind _ _ _ (Keeps.pure False.elim)
  · rename_i f hf
    refine Keeps.bind (checkRefArgs_keeps f args) fun _ => Keeps.pure fun h => ?_
    obtain ⟨hm, hkind, ha⟩ := Class.of_resolve_eq_ok hf (by simp)
    exact .routine (hargs h.1).1 (hk h.1 f hm) (by simpa using hkind)
      (takes_of_applicable (hargs h.1).2 ha h.2)

/-- A conversion is typed if its argument is. -/
lemma conversion_keeps (pos : Position) (name : String) (args : List TExpr) (k : ScalarKind)
    (ts : List Ty) (hargs : H → ArgsTyped c args ts) :
    Keeps c H (conversion pos name args k ts) (Typed c.program c.visible) := by
  unfold conversion
  split
  · refine Keeps.pure fun h => ?_
    have := any_isError_eq_false (hc h) (hargs h)
    simp_all
  split
  · have hk : (k != .bool) = true := ‹_›
    split
    · rename_i hn
      refine Keeps.pure fun h => ?_
      obtain ⟨hargs, hts⟩ := hargs h
      cases hts with
      | cons hx htail =>
        cases htail
        exact .convert (hargs _ List.mem_cons_self) hx hn (by simpa using hk)
    · exact Keeps.report_bind _ _ _ (Keeps.pure False.elim)
  · exact Keeps.report_bind _ _ _ (Keeps.pure False.elim)

/-- The construction of an instance is typed if its arguments are. -/
lemma construction_keeps (pos : Position) (name : String) (args : List TExpr) (k : Class)
    (ts : List Ty) (hargs : H → ArgsTyped c args ts) (hk : H → k ∈ c.program.classes) :
    Keeps c H (construction pos name args k ts) (Typed c.program c.visible) := by
  unfold construction
  split
  · refine Keeps.pure fun h => ?_
    have := any_isError_eq_false (hc h) (hargs h)
    simp_all
  split
  · exact Keeps.report_bind _ _ _ (Keeps.pure False.elim)
  · rename_i f hf
    refine Keeps.bind (checkRefArgs_keeps f args) fun _ => Keeps.pure fun h => ?_
    obtain ⟨hm, hkind, ha⟩ := Class.of_resolve_eq_ok hf (by simp)
    rw [← (((hc h.1).program_wf.classes_valid k (hk h.1)).funcs_own f hm).1]
    exact .construct (hargs h.1).1 ⟨k, hk h.1, hm⟩ (by simpa using hkind)
      (takes_of_applicable (hargs h.1).2 ha h.2)

/-- Whatever a name with arguments stands for is typed. -/
lemma routine_keeps (pos : Position) (owner : Option String) (name : String)
    (args : List TExpr) (ts : List Ty) (hargs : H → ArgsTyped c args ts) :
    Keeps c H (routine pos owner name args ts) (Typed c.program c.visible) := by
  refine Keeps.bind Keeps.get fun d => ?_
  have classes : ∀ {n : String} {k : Class}, d.program.class? n = some k →
      (H ∧ d = c) → k ∈ c.program.classes :=
    fun hk h => h.2 ▸ Program.mem_of_class?_eq_some hk
  split
  · split
    · rename_i k hk
      exact routineOf_keeps (fun h => hc h.1) _ _ _ _ _ _ (fun h => hargs h.1)
        fun h f hf => ⟨k, classes hk h, hf⟩
    · exact Keeps.report_bind _ _ _ (Keeps.pure False.elim)
  · split
    · exact conversion_keeps (fun h => hc h.1) _ _ _ _ _ fun h => hargs h.1
    · exact construction_keeps (fun h => hc h.1) _ _ _ _ _ (fun h => hargs h.1) (classes ‹_›)
    · split
      · rename_i k hk
        refine routineOf_keeps (fun h => hc h.1) _ _ _ _ _ _ (fun h => hargs h.1) fun h f hf => ?_
        obtain ⟨hk', -⟩ := Option.filter_eq_some_iff.1 hk
        obtain ⟨r, -, rfl⟩ := Option.map_eq_some_iff.1 hk'
        exact h.2 ▸ Program.declares_of_mem_classOf hf
      · exact Keeps.report_bind _ _ _ (Keeps.pure False.elim)

/-- A call of a foreign function is typed if its arguments are. -/
lemma ccall_keeps (pos : Position) (name : String) (args : List TExpr) (ts : List Ty)
    (hargs : H → ArgsTyped c args ts) :
    Keeps c H (ccall pos name args ts) (Typed c.program c.visible) := by
  refine Keeps.bind Keeps.get fun d => ?_
  split
  · exact Keeps.report_bind _ _ _ (Keeps.pure False.elim)
  · rename_i f hf
    have hmem : (H ∧ d = c) → f ∈ c.program.foreigns :=
      fun h => h.2 ▸ List.mem_of_find?_eq_some hf
    split
    · refine Keeps.pure fun h => ?_
      have := any_isError_eq_false (hc h.1) (hargs h.1)
      simp_all
    split
    · rename_i ha
      refine Keeps.pure fun h => .ccall (hargs h.1).1 (hmem h) ?_
      -- foreign functions have no `ref` parameters
      refine takes_of_applicable (hargs h.1).2 ha fun q hq hr => ?_
      have hv := ((hc h.1).program_wf.foreigns_valid f (hmem h)).params_valid q.1
        (List.of_mem_zip hq).1
      simp [hv.2.2] at hr
    · exact Keeps.report_bind _ _ _ (Keeps.pure False.elim)

end Forms

/-! ## Expressions -/

mutual

/-- **Elaborated expressions are typed**: an analysis that reports nothing changes nothing.

**Proof sketch.** By recursion on the expression. The facts about its parts are carried to the form
of the expression, where they exclude the error type. -/
theorem expr_keeps {c : Context} : ∀ (e : Expr) {H : Prop}, (H → c.Sound) →
    Keeps c H (expr e) (Typed c.program c.visible)
  | .ident pos n, _, _ => ident_keeps pos n
  | .self pos, _, _ => selfExpr_keeps pos
  | .literal pos l, _, _ => literal_keeps pos l
  | .unary pos op x, _, hc =>
    Keeps.bind (expr_keeps x hc) fun x' => unary_keeps (fun h => hc h.1) pos op x' And.right
  | .binary pos op x y, _, hc =>
    Keeps.bind (expr_keeps x hc) fun x' =>
    Keeps.bind (single_keeps x') fun t =>
    Keeps.bind (expr_keeps y fun h => hc h.1.1) fun y' =>
    Keeps.bind (single_keeps y') fun u =>
      binary_keeps (fun h => hc h.1.1.1.1) pos op x' y' t u
        (fun h => ⟨h.1.1.1.2, h.1.1.2⟩) fun h => ⟨h.1.2, h.2⟩
  | .member pos x n, _, hc =>
    Keeps.bind (expr_keeps x hc) fun x' => member_keeps (fun h => hc h.1) pos x' n And.right
  | .index pos x i, _, hc =>
    Keeps.bind (expr_keeps x hc) fun x' =>
    Keeps.bind (single_keeps x') fun t =>
    Keeps.bind (expr_keeps i fun h => hc h.1.1) fun i' =>
    Keeps.bind (single_keeps i') fun u =>
      index_keeps (fun h => hc h.1.1.1.1) pos x' i' t u
        (fun h => ⟨h.1.1.1.2, h.1.1.2⟩) fun h => ⟨h.1.2, h.2⟩
  | .deref pos x, _, hc =>
    Keeps.bind (expr_keeps x hc) fun x' => deref_keeps (fun h => hc h.1) pos x' And.right
  | .method pos x n args, _, hc =>
    Keeps.bind (expr_keeps x hc) fun x' =>
    Keeps.bind (single_keeps x') fun t =>
    Keeps.bind (arguments_keeps args fun h => hc h.1.1) fun (args', ts) =>
      method_keeps (fun h => hc h.1.1.1) pos x' n args' t ts
        (fun h => ⟨h.1.1.2, h.1.2⟩) And.right
  | .routine pos owner n args, _, hc =>
    Keeps.bind (arguments_keeps args hc) fun (args', ts) =>
      routine_keeps (fun h => hc h.1) pos owner n args' ts And.right
  | .ccall pos n args, _, hc =>
    Keeps.bind (arguments_keeps args hc) fun (args', ts) =>
      ccall_keeps (fun h => hc h.1) pos n args' ts And.right

/-- Elaborated arguments are typed and yield one value each. -/
theorem arguments_keeps {c : Context} : ∀ (es : List Expr) {H : Prop}, (H → c.Sound) →
    Keeps c H (arguments es) fun q => ArgsTyped c q.1 q.2
  | [], _, _ => Keeps.pure fun _ => ⟨by simp, .nil⟩
  | e :: es, _, hc =>
    Keeps.bind (expr_keeps e hc) fun e' =>
    Keeps.bind (single_keeps e') fun t =>
    Keeps.bind (arguments_keeps es fun h => hc h.1.1) fun (es', ts) => Keeps.pure fun h =>
      ⟨List.forall_mem_cons.2 ⟨h.1.1.2, h.2.1⟩, .cons h.1.2 h.2.2⟩

end

end Analysis

end Lane
