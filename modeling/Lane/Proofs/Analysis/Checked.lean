import Lane.Analysis.Expr
import Lane.Proofs.Analysis.Clean
import Lane.Proofs.Analysis.Parts

set_option relaxedAutoImplicit false
set_option autoImplicit false

/-!
# Checks of expressions

What the analysis checks wherever it reports nothing, apart from types: the arguments that a call
may write are variables that may be written. Such a fact is one about the result alone, whatever the
context of the analysis was.

## Main definitions

* `Lane.Analysis.Checks`: what holds of the result of an analysis that reported nothing.
* `Lane.TExpr.isWritable`: expressions that stand for a place which may be written.
* `Lane.TExpr.Protected`: expressions whose calls write only what may be written.

## Main results

* `Lane.Analysis.Checks.bind`: analyses one after the other.
* `Lane.Analysis.expr_checks`: the calls in an elaborated expression are checked.
-/

namespace Lane

/-! ## Writable places -/

/-- Whether an expression stands for a place, and the place is not read-only. -/
def TExpr.isWritable (x : TExpr) : Bool :=
  x.isAddressable && x.type?.any fun t => !t.modifier.isConst

/-- Whether an expression yields a class value that may only be read. -/
def TExpr.isReadOnlyInstance (x : TExpr) : Bool :=
  x.type?.any fun t => t.isClass && t.modifier.isConst

/-- The arguments of `ref` parameters may be written. -/
def Signature.Guards (s : Signature) (args : List TExpr) : Prop :=
  ∀ q ∈ s.params.zip args, q.1.type.modifier = .ref → q.2.isWritable

/-- **Guarded calls**: the arguments of `ref` parameters of the function that an expression calls
may be written, and so may the instance of a writer. Foreign functions have no `ref` parameters. -/
def TExpr.Guards : TExpr → Prop
  | .unary _ _ _ (some f) x => f.sig.Guards [x]
  | .binary _ _ _ (some f) x y => f.sig.Guards [x, y]
  | .method _ _ x _ args (some f) =>
    f.sig.Guards args ∧ (f.kind = .writer → x.isReadOnlyInstance = false)
  | .routine _ _ _ _ args (some (.routine f)) | .routine _ _ _ _ args (some (.construct f)) =>
    f.sig.Guards args
  | _ => True

/-- **Protected expressions**: all calls inside the expression are guarded. -/
def TExpr.Protected (x : TExpr) : Prop := ∀ y, x.Has y → y.Guards

/-- An expression is protected if its parts are, and its own call is guarded. -/
lemma TExpr.Protected.intro {x : TExpr} (hx : x.Guards) (hparts : ∀ y ∈ x.parts, y.Protected) :
    x.Protected := by
  intro z hz
  obtain rfl | ⟨y, hy, hz⟩ := TExpr.has_iff.1 hz
  · exact hx
  · exact hparts y hy z hz

namespace Analysis

/-! ## Results of analyses -/

/-- **Checked results**: if there is no error after the analysis, there was none before it, and the
result satisfies `R` where `H` holds. -/
def Checks {α : Type} (H : Prop) (m : Analysis α) (R : α → Prop) : Prop :=
  Clean (fun _ => H) m fun a _ => R a

section Checks

variable {α β : Type} {H H' : Prop} {R R' : α → Prop} {S : β → Prop} {m : Analysis α}
  {f : α → Analysis β}

/-- A result that is known. -/
lemma Checks.pure {a : α} (h : H → R a) : Checks H (pure a) R := Clean.pure fun _ => h

/-- Analyses one after the other. -/
lemma Checks.bind (hm : Checks H m R) (hf : ∀ a, Checks (H ∧ R a) (f a) S) :
    Checks H (m >>= f) S := by
  intro c hH hc
  have hc' : ((f (m.run c).1).run (m.run c).2).2.errors = 0 := hc
  obtain ⟨h1, h2⟩ := hf _ (m.run c).2
    (fun h => ⟨hH (hm c hH h).1, (hm c hH h).2⟩) hc'
  exact ⟨(hm c hH h1).1, h2⟩

/-- More may be asked for before, and less said afterwards. -/
lemma Checks.weaken (hm : Checks H' m R') (hH : H → H') (h : ∀ a, R' a → R a) : Checks H m R :=
  Clean.weaken hm (fun _ => hH) fun a _ => h a

/-- Whatever is wanted after an error holds. -/
lemma Checks.report {R : Unit → Prop} (kind : DiagnosticKind) (pos : Position)
    (message : String) : Checks H (report kind pos message) R :=
  Clean.report kind pos message

/-- Nothing has to be shown about what follows an error. -/
lemma Checks.report_bind {f : Unit → Analysis β} (kind : DiagnosticKind) (pos : Position)
    (message : String) (hf : Checks False (f ()) S) :
    Checks H (Analysis.report kind pos message >>= f) S :=
  Checks.bind (R := fun _ => False) (Checks.report kind pos message) fun _ =>
    hf.weaken And.right fun _ h => h

/-- A check that reports an error, and then goes on as if there was none. -/
lemma Checks.report_if {f : Unit → Analysis β} {b : Bool} {kind : DiagnosticKind}
    {pos : Position} {message : String} (hf : ∀ H' : Prop, (H' → H ∧ b = false) →
      Checks H' (f ()) S) :
    Checks H (if b then Analysis.report kind pos message >>= f else f ()) S := by
  cases b with
  | true => exact Checks.report_bind kind pos message (hf False False.elim)
  | false => exact hf H fun h => ⟨h, rfl⟩

/-- A change of the context that leaves the number of errors alone. -/
lemma Checks.modify {g : Context → Context} (hg : ∀ c, (g c).errors = c.errors) :
    Checks H (modify g : Analysis Unit) fun _ => True :=
  Clean.modify hg fun _ _ => trivial

/-- A promise is found broken. -/
lemma Checks.bug_bind {f : Unit → Analysis β} (what : String) (hf : Checks H (f ()) S) :
    Checks H (bug what >>= f) S :=
  Checks.bind (Checks.modify fun _ => rfl) fun _ => hf.weaken And.left fun _ h => h

/-- Something is entered. -/
lemma Checks.enter {g : Context → Context × Leave} (hg : ∀ c, (g c).1.errors = c.errors) :
    Checks H (enter g) fun _ => True :=
  Clean.modifyGet hg fun _ _ => trivial

/-- The context is looked at. -/
lemma Checks.get_bind {f : Context → Analysis β} (hf : ∀ c, Checks H (f c) S) :
    Checks H (get >>= f) S :=
  Checks.bind (R := fun _ => True) (fun _ _ hc => ⟨hc, trivial⟩) fun c =>
    (hf c).weaken And.left fun _ h => h

/-- An analysis for every entry of a list. -/
lemma Checks.forM {f : α → Analysis Unit} {l : List α}
    (hf : ∀ a ∈ l, ∀ H, Checks H (f a) fun _ => R a) :
    Checks H (l.forM f) fun _ => ∀ a ∈ l, R a := by
  induction l generalizing H with
  | nil => exact Checks.pure fun _ _ ha => nomatch ha
  | cons a l ih =>
    refine Checks.bind (hf a List.mem_cons_self H) fun _ => ?_
    -- What is known about the head is carried along as part of the condition.
    intro c hH hc
    obtain ⟨h0, hl⟩ := ih (fun b hb => hf b (List.mem_cons_of_mem a hb)) c hH hc
    exact ⟨h0, List.forall_mem_cons.2 ⟨(hH h0).2, hl⟩⟩

end Checks

/-! ## Checks of calls -/

section Forms

variable {H : Prop}

/-- A single value has one type. -/
lemma single_checks (e : TExpr) : Checks H (single e) fun t => e.types = [t] := by
  unfold single
  split
  · exact Checks.pure fun _ => ‹_›
  · exact Checks.report_bind _ _ _ (Checks.pure False.elim)

/-- The type of an expression with one type. -/
lemma type?_of_types {e : TExpr} {t : Ty} (h : e.types = [t]) : e.type? = some t := by
  simp [TExpr.type?, h]

/-- The check of one `ref` argument, which may be known to be read-only. -/
lemma refArg_checks (e : TExpr) (isConst : Bool) (message : String)
    (hconst : ∀ t, e.types = [t] → isConst = t.modifier.isConst) :
    Checks H (if !e.isAddressable || isConst then report .mismatch e.pos message else pure ())
      fun _ => (∃ t, e.types = [t]) → e.isWritable := by
  split
  · exact Checks.report _ _ _
  · rename_i hok
    refine Checks.pure fun _ h => ?_
    obtain ⟨t, ht⟩ := h
    rw [hconst t ht] at hok
    simpa [TExpr.isWritable, type?_of_types ht] using hok

/-- The check of `ref` arguments. -/
lemma checkRefArgs_checks (f : MemberFunction) (args : List TExpr)
    (hargs : H → ∀ a ∈ args, ∃ t, a.types = [t]) :
    Checks H (checkRefArgs f args) fun _ => f.sig.Guards args := by
  intro c hH hc
  obtain ⟨h0, hall⟩ := Checks.forM (R := fun q : (Param × TExpr) × Nat =>
    q.1.1.type.modifier = .ref → (∃ t, q.1.2.types = [t]) → q.1.2.isWritable)
    (fun q _ H' => by
      obtain ⟨⟨a, e⟩, i⟩ := q
      simp only
      split
      · exact (refArg_checks e _ _ fun t ht => by rw [type?_of_types ht]).weaken id
          fun _ h _ => h
      · exact Checks.pure fun _ h => absurd h ‹_›) c hH hc
  refine ⟨h0, fun q hq hr => ?_⟩
  obtain ⟨i, hi, rfl⟩ := List.mem_iff_getElem.1 hq
  exact hall ((f.sig.params.zip args)[i], i)
    (List.mem_zipIdx_iff_getElem?.2 (List.getElem?_eq_getElem hi)) hr
    (hargs (hH h0) _ (List.of_mem_zip (List.getElem_mem hi)).2)

/-- What is known about analysed arguments: they are protected and yield one value each. -/
def ArgsChecked (args : List TExpr) : Prop :=
  ∀ a ∈ args, a.Protected ∧ ∃ t, a.types = [t]

/-- A single argument was checked. -/
lemma ArgsChecked.single {x : TExpr} {t : Ty} (hx : x.Protected) (ht : x.types = [t]) :
    ArgsChecked [x] := by
  simpa [ArgsChecked] using ⟨hx, t, ht⟩

/-- The function that an operator selects. -/
lemma operator_checks (pos : Position) (r : ClassRef) (op : String) (operands : List TExpr)
    (ts : List Ty) (hargs : H → ArgsChecked operands) :
    Checks H (operator pos r op operands ts) fun q => ∀ f, q.2 = some f →
    f.sig.Guards operands := by
  refine Checks.get_bind fun c => ?_
  split
  · exact Checks.report_bind _ _ _ (Checks.pure False.elim)
  · rename_i f _
    refine Checks.bind (checkRefArgs_checks f operands fun h a ha => (hargs h a ha).2) fun _ => ?_
    exact Checks.pure fun h g hg => Option.some.inj hg ▸ h.2

/-- The operand of an operator is protected, and so is the result. -/
lemma unary_checks (pos : Position) (op : UnaryOp) (x : TExpr) (hx : H → x.Protected) :
    Checks H (unary pos op x) TExpr.Protected := by
  have builtin : ∀ {ts : List Ty}, x.Protected → (TExpr.unary pos ts op none x).Protected :=
    fun hx => .intro trivial (by simpa [TExpr.parts] using hx)
  refine Checks.bind (single_checks x) fun t => ?_
  split
  · exact Checks.pure fun h => builtin (hx h.1)
  split
  · refine Checks.bind (operator_checks _ _ _ [x] _ fun h => .single (hx h.1) h.2)
      fun (ts, call) => Checks.pure fun h => .intro ?_ (by simpa [TExpr.parts] using hx h.1.1)
    cases call with
    | none => trivial
    | some f => exact h.2 f rfl
  · split
    · exact Checks.pure fun h => builtin (hx h.1)
    · exact Checks.report_bind _ _ _ (Checks.pure False.elim)

/-- An operator with two operands is protected, as its arguments were checked. -/
lemma binary_checks (pos : Position) (op : BinaryOp) (x y : TExpr) (t u : Ty)
    (hargs : H → ArgsChecked [x, y]) : Checks H (binary pos op x y t u) TExpr.Protected := by
  have parts : ∀ {ts : List Ty} {call : Option MemberFunction}, H →
      ∀ z ∈ (TExpr.binary pos ts op call x y).parts, z.Protected :=
    fun h z hz => (hargs h z hz).1
  unfold binary
  split
  · exact Checks.pure fun h => .intro trivial (parts h)
  split
  · refine Checks.bind (operator_checks _ _ _ [x, y] _ hargs) fun (ts, call) =>
      Checks.pure fun h => .intro ?_ (parts h.1)
    cases call with
    | none => trivial
    | some f => exact h.2 f rfl
  · split
    · exact Checks.pure fun h => .intro trivial (parts h)
    · exact Checks.report_bind _ _ _ (Checks.pure False.elim)

/-- A member is protected if what it is a member of is. -/
lemma member_checks (pos : Position) (x : TExpr) (name : String) (hx : H → x.Protected) :
    Checks H (member pos x name) TExpr.Protected := by
  have access : ∀ {ts : List Ty} {v : Option MemberVar} {b : Bool}, x.Protected →
      (TExpr.member pos ts x name v b).Protected :=
    fun hx => .intro trivial (by simpa [TExpr.parts] using hx)
  refine Checks.bind (single_checks x) fun t => ?_
  split
  · exact Checks.pure fun h => access (hx h.1)
  split
  · split
    · exact Checks.pure fun h => access (hx h.1)
    · exact Checks.report_bind _ _ _ (Checks.pure False.elim)
  · refine Checks.get_bind fun c => ?_
    split
    · exact Checks.report_bind _ _ _ (Checks.pure False.elim)
    · exact Checks.pure fun h => access (hx h.1)
  · exact Checks.report_bind _ _ _ (Checks.pure False.elim)

/-- An element is protected if the container and the index are. -/
lemma index_checks (pos : Position) (x i : TExpr) (t u : Ty) (hx : H → x.Protected)
    (hi : H → i.Protected) : Checks H (index pos x i t u) TExpr.Protected := by
  have element : ∀ {ts : List Ty}, x.Protected → i.Protected →
      (TExpr.index pos ts x i).Protected :=
    fun hx hi => .intro trivial (by simpa [TExpr.parts] using ⟨hx, hi⟩)
  simp only [index]
  refine Checks.report_if fun H' hH => ?_
  split
  · exact Checks.pure fun h => element (hx (hH h).1) (hi (hH h).1)
  · exact Checks.pure fun h => element (hx (hH h).1) (hi (hH h).1)
  · exact Checks.report_bind _ _ _ (Checks.pure False.elim)

/-- What is behind a pointer is protected if the pointer is. -/
lemma deref_checks (pos : Position) (x : TExpr) (hx : H → x.Protected) :
    Checks H (deref pos x) TExpr.Protected := by
  have pointee : ∀ {ts : List Ty}, x.Protected → (TExpr.deref pos ts x).Protected :=
    fun hx => .intro trivial (by simpa [TExpr.parts] using hx)
  refine Checks.bind (single_checks x) fun t => ?_
  split
  · exact Checks.pure fun h => pointee (hx h.1)
  · exact Checks.pure fun h => pointee (hx h.1)
  · exact Checks.report_bind _ _ _ (Checks.pure False.elim)

/-- A method call is protected, as its arguments were checked. -/
lemma method_checks (pos : Position) (x : TExpr) (name : String) (args : List TExpr) (t : Ty)
    (ts : List Ty) (hx : H → x.Protected ∧ x.types = [t]) (hargs : H → ArgsChecked args) :
    Checks H (method pos x name args t ts) TExpr.Protected := by
  have parts : ∀ {us : List Ty} {call : Option MemberFunction}, H →
      ∀ z ∈ (TExpr.method pos us x name args call).parts, z.Protected :=
    fun h => List.forall_mem_cons.2 ⟨(hx h).1, fun a ha => (hargs h a ha).1⟩
  unfold method
  split
  · exact Checks.pure fun h => .intro trivial (parts h)
  split
  · exact Checks.report_bind _ _ _ (Checks.pure False.elim)
  refine Checks.get_bind fun c => ?_
  split
  · exact Checks.report_bind _ _ _ (Checks.pure False.elim)
  rename_i f _
  refine Checks.report_if fun H' hH => ?_
  refine Checks.bind (checkRefArgs_checks f args fun h a ha => (hargs (hH h).1 a ha).2) fun _ => ?_
  refine Checks.pure fun h => .intro ⟨h.2, fun hw => ?_⟩ (parts (hH h.1).1)
  simpa [TExpr.isReadOnlyInstance, type?_of_types (hx (hH h.1).1).2, hw] using (hH h.1).2

/-- A call of a routine of a class is protected, as its arguments were checked. -/
lemma routineOf_checks (pos : Position) (owner : Option String) (name : String)
    (args : List TExpr) (k : Class) (ts : List Ty) (hargs : H → ArgsChecked args) :
    Checks H (routineOf pos owner name args k ts) TExpr.Protected := by
  have parts : ∀ {us : List Ty} {call : Option CallTarget}, H →
      ∀ z ∈ (TExpr.routine pos us owner name args call).parts, z.Protected :=
    fun h z hz => (hargs h z hz).1
  unfold routineOf
  split
  · exact Checks.pure fun h => .intro trivial (parts h)
  split
  · exact Checks.report_bind _ _ _ (Checks.pure False.elim)
  · rename_i f _
    refine Checks.bind (checkRefArgs_checks f args fun h a ha => (hargs h a ha).2) fun _ => ?_
    exact Checks.pure fun h => .intro h.2 (parts h.1)

/-- A conversion is protected, as its argument was checked. -/
lemma conversion_checks (pos : Position) (name : String) (args : List TExpr) (k : ScalarKind)
    (ts : List Ty) (hargs : H → ArgsChecked args) :
    Checks H (conversion pos name args k ts) TExpr.Protected := by
  have parts : ∀ {us : List Ty} {call : Option CallTarget}, H →
      ∀ z ∈ (TExpr.routine pos us none name args call).parts, z.Protected :=
    fun h z hz => (hargs h z hz).1
  unfold conversion
  split
  · exact Checks.pure fun h => .intro trivial (parts h)
  split
  · split
    · exact Checks.pure fun h => .intro trivial (parts h)
    · exact Checks.report_bind _ _ _ (Checks.pure False.elim)
  · exact Checks.report_bind _ _ _ (Checks.pure False.elim)

/-- The construction of an instance is protected, as its arguments were checked. -/
lemma construction_checks (pos : Position) (name : String) (args : List TExpr) (k : Class)
    (ts : List Ty) (hargs : H → ArgsChecked args) :
    Checks H (construction pos name args k ts) TExpr.Protected := by
  have parts : ∀ {us : List Ty} {call : Option CallTarget}, H →
      ∀ z ∈ (TExpr.routine pos us none name args call).parts, z.Protected :=
    fun h z hz => (hargs h z hz).1
  unfold construction
  split
  · exact Checks.pure fun h => .intro trivial (parts h)
  split
  · exact Checks.report_bind _ _ _ (Checks.pure False.elim)
  · rename_i f _
    refine Checks.bind (checkRefArgs_checks f args fun h a ha => (hargs h a ha).2) fun _ => ?_
    exact Checks.pure fun h => .intro h.2 (parts h.1)

/-- Whatever a name with arguments stands for is protected. -/
lemma routine_checks (pos : Position) (owner : Option String) (name : String)
    (args : List TExpr) (ts : List Ty) (hargs : H → ArgsChecked args) :
    Checks H (routine pos owner name args ts) TExpr.Protected := by
  refine Checks.get_bind fun c => ?_
  split
  · split
    · exact routineOf_checks _ _ _ _ _ _ hargs
    · exact Checks.report_bind _ _ _ (Checks.pure False.elim)
  · split
    · exact conversion_checks _ _ _ _ _ hargs
    · exact construction_checks _ _ _ _ _ hargs
    · split
      · exact routineOf_checks _ _ _ _ _ _ hargs
      · exact Checks.report_bind _ _ _ (Checks.pure False.elim)

/-- A call of a foreign function is protected, as its arguments were checked. -/
lemma ccall_checks (pos : Position) (name : String) (args : List TExpr) (ts : List Ty)
    (hargs : H → ArgsChecked args) : Checks H (ccall pos name args ts) TExpr.Protected := by
  have call : ∀ {us : List Ty} {f : Option Foreign}, H →
      (TExpr.ccall pos us name args f).Protected :=
    fun h => .intro (by cases ‹Option Foreign› <;> trivial) fun z hz => (hargs h z hz).1
  refine Checks.get_bind fun c => ?_
  split
  · exact Checks.report_bind _ _ _ (Checks.pure False.elim)
  · split
    · exact Checks.pure call
    split
    · exact Checks.pure call
    · exact Checks.report_bind _ _ _ (Checks.pure False.elim)

/-- What has no parts calls nothing. -/
lemma protected_of_parts_nil {x : TExpr} (hg : x.Guards) (hx : x.parts = []) : x.Protected :=
  .intro hg (by simp [hx])

end Forms

/-! ## Expressions -/

mutual

/-- **Calls in expressions are checked.**

**Proof sketch.** By recursion on the expression: whatever becomes of an expression, its parts are
kept, and a function is entered as called only after its arguments were checked. -/
theorem expr_checks : ∀ (e : Expr) {H : Prop}, Checks H (expr e) TExpr.Protected
  | .ident pos n, _ => by
    refine Checks.get_bind fun c => ?_
    split
    · exact Checks.pure fun _ => protected_of_parts_nil trivial rfl
    · exact Checks.report_bind _ _ _ (Checks.pure False.elim)
  | .self pos, _ => by
    refine Checks.get_bind fun c => ?_
    split
    · exact Checks.pure fun _ => protected_of_parts_nil trivial rfl
    · exact Checks.report_bind _ _ _ (Checks.pure False.elim)
  | .literal pos l, H => by
    obtain ⟨k, hk⟩ := l.exists_ofName?
    have leaf : ∀ H, Checks H (pure (.literal pos [.scalar .const k] l)) TExpr.Protected :=
      fun H => Checks.pure fun _ => protected_of_parts_nil trivial rfl
    simp only [expr, literal, hk]
    split
    · split
      · exact Checks.report_bind _ _ _ (leaf False)
      · exact leaf H
    · exact leaf H
  | .unary pos op x, _ => Checks.bind (expr_checks x) fun x' => unary_checks pos op x' And.right
  | .binary pos op x y, _ =>
    Checks.bind (expr_checks x) fun x' =>
    Checks.bind (single_checks x') fun t =>
    Checks.bind (expr_checks y) fun y' =>
    Checks.bind (single_checks y') fun u =>
      binary_checks pos op x' y' t u fun h => List.forall_mem_cons.2
        ⟨⟨h.1.1.1.2, t, h.1.1.2⟩, ArgsChecked.single h.1.2 h.2⟩
  | .member pos x n, _ => Checks.bind (expr_checks x) fun x' => member_checks pos x' n And.right
  | .index pos x i, _ =>
    Checks.bind (expr_checks x) fun x' =>
    Checks.bind (single_checks x') fun t =>
    Checks.bind (expr_checks i) fun i' =>
    Checks.bind (single_checks i') fun u =>
      index_checks pos x' i' t u (fun h => h.1.1.1.2) fun h => h.1.2
  | .deref pos x, _ => Checks.bind (expr_checks x) fun x' => deref_checks pos x' And.right
  | .method pos x n args, _ =>
    Checks.bind (expr_checks x) fun x' =>
    Checks.bind (single_checks x') fun t =>
    Checks.bind (arguments_checks args) fun (args', ts) =>
      method_checks pos x' n args' t ts (fun h => ⟨h.1.1.2, h.1.2⟩) And.right
  | .routine pos owner n args, _ =>
    Checks.bind (arguments_checks args) fun (args', ts) =>
      routine_checks pos owner n args' ts And.right
  | .ccall pos n args, _ =>
    Checks.bind (arguments_checks args) fun (args', ts) => ccall_checks pos n args' ts And.right

/-- Calls in arguments are checked, each of which yields one value. -/
theorem arguments_checks : ∀ (es : List Expr) {H : Prop},
    Checks H (arguments es) fun q => ArgsChecked q.1
  | [], _ => Checks.pure fun _ _ ha => nomatch ha
  | e :: es, _ =>
    Checks.bind (expr_checks e) fun e' =>
    Checks.bind (single_checks e') fun t =>
    Checks.bind (arguments_checks es) fun _ => Checks.pure fun h =>
      List.forall_mem_cons.2 ⟨⟨h.1.1.2, t, h.1.2⟩, h.2⟩

end

end Analysis

end Lane
