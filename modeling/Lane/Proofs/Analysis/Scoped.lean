import Lane.Proofs.Analysis.Protected
import Lane.Proofs.Analysis.Steps

set_option relaxedAutoImplicit false
set_option autoImplicit false

/-!
# Names in elaborated bodies

Which scopes an expression sees is a matter of where it stands: a block opens a scope, a declaration
adds to the current scope what is seen after it, and the condition of a `repeat` still sees the
scope of its body. In the bodies of an accepted program every name is bound to the innermost binding
in the scopes that it sees.

## Main definitions

* `Lane.TExpr.BoundIn`: names that are bound to what they stand for on a stack of scopes.
* `Lane.TStmt.SeesAll`, `Lane.TStmt.BindsAll`: the expressions and the declared locals in
  statements, with the scopes around them.
* `Lane.FuncBody.Scoped`: bodies in which all names are bound.

## Main results

* `Lane.Analysis.expr_bound`: names in expressions.
* `Lane.Analysis.statement_scoped`: names in statements.
* `Lane.Elaborated.scoped_of_isOk`: names in accepted programs.
-/

namespace Lane

open Analysis (selfLocal)

/-! ## Stacks of scopes -/

namespace Scope

/-- A stack of scopes, with more locals in the innermost one. -/
def extend (D : List Local) : List Scope → List Scope
  | [] => []
  | s :: below => { s with locals := s.locals ++ D } :: below

/-- No locals are added. -/
@[simp] lemma extend_nil (S : List Scope) : extend [] S = S := by
  cases S <;> simp [extend]

/-- What a name is bound to in the innermost scope does not change when locals are added. -/
lemma lookup?_extend {s : Scope} {name : String} {l : Local} (h : s.find? name = some l)
    (below : List Scope) (D : List Local) :
    lookup? name (extend D (s :: below)) = some l := by
  have hfind : { s with locals := s.locals ++ D }.find? name = some l := by
    rw [find?, List.find?_append]
    exact Option.or_eq_some_iff.2 (.inl h)
  simp only [extend, lookup?, hfind]

/-- The locals on a stack are those of before, and what was added. -/
lemma mem_extend {D : List Local} {S : List Scope} {l : Local}
    (h : l ∈ (extend D S).flatMap locals) : l ∈ S.flatMap locals ∨ l ∈ D := by
  cases S with
  | nil => exact .inl h
  | cons s below =>
    simp only [extend, List.flatMap_cons, List.mem_append] at h ⊢
    tauto

end Scope

/-! ## Names -/

namespace TExpr

/-- **Bound names**: an identifier is bound to the innermost binding of its name, and `self` to the
instance. -/
def BoundIn (S : List Scope) (self : Option Local) : TExpr → Prop
  | .ident _ _ n l => l.isSome ∧ Scope.lookup? n S = l
  | .self _ _ l => l.isSome ∧ self = l
  | _ => True

/-- Expressions in which all names are bound. -/
def Follows (S : List Scope) (self : Option Local) (x : TExpr) : Prop :=
  ∀ y, x.Has y → y.BoundIn S self

variable {S : List Scope} {self : Option Local} {x : TExpr}

/-- An expression follows the scopes if it is bound in them and its parts follow them. -/
lemma Follows.intro (hx : x.BoundIn S self) (hparts : ∀ y ∈ x.parts, y.Follows S self) :
    x.Follows S self := by
  intro z hz
  obtain rfl | ⟨y, hy, hz⟩ := has_iff.1 hz
  · exact hx
  · exact hparts y hy z hz

/-- What a name is bound to is a local of one of the scopes, or the instance. -/
lemma BoundIn.mem_of_binding? {l : Local} (hx : x.BoundIn S self) (hl : x.binding? = some l) :
    l ∈ S.flatMap Scope.locals ∨ self = some l := by
  cases x with
  | ident =>
    obtain rfl : _ = some l := hl
    exact .inl (Context.mem_of_lookup?_eq_some hx.2)
  | self =>
    obtain rfl : _ = some l := hl
    exact .inr hx.2
  | _ => cases hl

end TExpr

/-! ## Statements -/

namespace TStmt

/-- The expressions of an assignment. -/
def operands (gs : List TTarget) (vs : List TExpr) (ps : List Pair) (ds : List TExpr) :
    List TExpr :=
  gs.filterMap TTarget.expr? ++ vs ++ ps.filterMap Pair.place? ++ ds

mutual

/-- **The expressions in a statement** that stands in the scopes `S`, with the scopes `D` that each
of them sees. An assignment does not see what it declares. -/
def Sees (S : List Scope) : TStmt → List Scope → TExpr → Prop
  | .assign _ gs vs ps ds, D, x => D = S ∧ ∃ y ∈ operands gs vs ps ds, y.Has x
  | .ifThen _ c _ b, D, x | .whileLoop _ c _ b, D, x => D = S ∧ c.Has x ∨ SeesAll ({} :: S) b D x
  | .ifElse _ c _ b _ o, D, x =>
    D = S ∧ c.Has x ∨ SeesAll ({} :: S) b D x ∨ SeesAll ({} :: S) o D x
  | .repeatUntil _ _ b c, D, x =>
    SeesAll ({} :: S) b D x ∨ D = Scope.extend (declaresAll b) ({} :: S) ∧ c.Has x
  | .block _ _ b, D, x => SeesAll ({} :: S) b D x
  | .ret _, _, _ | .brk _, _, _ | .cont _, _, _ => False

/-- The expressions in statements, each of which sees what those before it declare. -/
def SeesAll (S : List Scope) : List TStmt → List Scope → TExpr → Prop
  | [], _, _ => False
  | s :: ss, D, x => Sees S s D x ∨ SeesAll (Scope.extend s.declares S) ss D x

end

mutual

/-- The locals that are declared in a statement, with the scopes once they are declared. -/
def Binds (S : List Scope) : TStmt → List Scope → Local → Prop
  | .assign _ _ _ ps _, D, l => D = Scope.extend (declaredBy ps) S ∧ l ∈ declaredBy ps
  | .ifThen _ _ _ b, D, l | .whileLoop _ _ _ b, D, l | .repeatUntil _ _ b _, D, l
  | .block _ _ b, D, l => BindsAll ({} :: S) b D l
  | .ifElse _ _ _ b _ o, D, l => BindsAll ({} :: S) b D l ∨ BindsAll ({} :: S) o D l
  | .ret _, _, _ | .brk _, _, _ | .cont _, _, _ => False

/-- The locals that are declared in statements, with the scopes around them. -/
def BindsAll (S : List Scope) : List TStmt → List Scope → Local → Prop
  | [], _, _ => False
  | s :: ss, D, l => Binds S s D l ∨ BindsAll (Scope.extend s.declares S) ss D l

end

mutual

/-- The locals that are declared anywhere in a statement. -/
def locals : TStmt → List Local
  | .assign _ _ _ ps _ => declaredBy ps
  | .ifThen _ _ _ b | .whileLoop _ _ _ b | .repeatUntil _ _ b _ | .block _ _ b => localsAll b
  | .ifElse _ _ _ b _ o => localsAll b ++ localsAll o
  | .ret _ | .brk _ | .cont _ => []

/-- The locals that are declared anywhere in statements. -/
def localsAll : List TStmt → List Local
  | [] => []
  | s :: ss => locals s ++ localsAll ss

end

/-- What a statement makes visible is among what is declared in it. -/
lemma declares_sublist (s : TStmt) : s.declares.Sublist s.locals := by
  cases s with
  | assign => exact .refl _
  | _ => exact List.nil_sublist _

/-- Statements declare some of their locals in the scope around them. -/
lemma declaresAll_sublist : ∀ ss : List TStmt, (declaresAll ss).Sublist (localsAll ss)
  | [] => .refl _
  | s :: ss => (declares_sublist s).append (declaresAll_sublist ss)

end TStmt

/-- A part of a function with the instance `own` and the parameters `as` has expressions and
declares locals, both with the scopes around them. **All is bound** if every name is bound, and
every declared local is what its name stands for and is not called like a parameter. -/
structure AllBound (own : Option Local) (as : List Local) (sees : List Scope → TExpr → Prop)
    (binds : List Scope → Local → Prop) : Prop where
  bound : ∀ D x, sees D x → x.BoundIn D own
  named : ∀ D l, binds D l → Scope.lookup? l.name D = some l ∧ ∀ a ∈ as, a.name ≠ l.name

/-- The parameters and results of a function. -/
def MemberFunction.paramLocals (f : MemberFunction) : List Local :=
  (f.sig.params ++ f.sig.results).map Param.toLocal

/-- **Scoped bodies**: in the scope of parameters and results, every name is bound to the innermost
binding; and no two locals of the function have the same number. -/
structure FuncBody.Scoped (b : FuncBody) : Prop where
  all_bound : AllBound (selfLocal b.fn) b.fn.paramLocals
    (TStmt.SeesAll [⟨b.fn.paramLocals, true⟩] b.body)
    (TStmt.BindsAll [⟨b.fn.paramLocals, true⟩] b.body)
  ids_nodup : ((b.fn.rootLocals ++ TStmt.localsAll b.body).map Local.id).Nodup

namespace AllBound

variable {own : Option Local} {as : List Local} {sees sees' : List Scope → TExpr → Prop}
  {binds binds' : List Scope → Local → Prop}

/-- Nothing is seen and nothing bound. -/
lemma empty : AllBound own as (fun _ _ => False) fun _ _ => False := ⟨nofun, nofun⟩

/-- What is seen or bound in one of two ways. -/
lemma or (h : AllBound own as sees binds) (h' : AllBound own as sees' binds') :
    AllBound own as (fun D x => sees D x ∨ sees' D x) fun D l => binds D l ∨ binds' D l where
  bound D x := Or.rec (h.bound D x) (h'.bound D x)
  named D l := Or.rec (h.named D l) (h'.named D l)

/-- An expression declares nothing. -/
lemma cons {S : List Scope} {x : TExpr} (hx : x.Follows S own) (h : AllBound own as sees binds) :
    AllBound own as (fun D y => D = S ∧ x.Has y ∨ sees D y) binds where
  bound := by
    rintro D y (⟨rfl, hy⟩ | hy)
    · exact hx y hy
    · exact h.bound D y hy
  named := h.named

/-- One more expression is seen. -/
lemma concat {S : List Scope} {x : TExpr} (h : AllBound own as sees binds) (hx : x.Follows S own) :
    AllBound own as (fun D y => sees D y ∨ D = S ∧ x.Has y) binds where
  bound D y hy := (h.cons hx).bound D y hy.symm
  named := h.named

end AllBound

/-! ## Contexts -/

namespace Context

variable {c d : Context} {S : List Scope} {own : Option Local} {as D : List Local}

/-- The open scopes are `S`, and the instance is `own`. -/
structure Shows (S : List Scope) (own : Option Local) (c : Context) : Prop where
  scopes_eq : c.scopes = S
  self_eq : c.function.bind Frame.self = own

/-- Reports leave the scopes as they are. -/
lemma Shows.reports (hc : c.Shows S own) (h : c.Reports d) : d.Shows S own := by
  obtain ⟨found, rfl⟩ := h
  exact ⟨hc.scopes_eq, hc.self_eq⟩

/-- A step adds the locals that it declares to the scopes. -/
lemma Step.scopes_extend (h : c.Step d D) : d.scopes = Scope.extend D c.scopes := by
  obtain ⟨s, below, hc, hd⟩ := h.scopes_eq
  rw [hc, hd]
  rfl

/-- **Contexts within a function** with the parameters `as`, which are the first locals of its root
scope, the outermost one. -/
structure Within (own : Option Local) (as : List Local) (c : Context) : Prop where
  function : ∃ f, c.function = some f ∧ f.self = own ∧ f.depth = 1
  root : ∃ above root, c.scopes = above ++ [root] ∧ as <+: root.locals

/-- Inside of a body, the current scopes are shown. -/
lemma Within.shows (hc : c.Within own as) : c.Shows c.scopes own := by
  obtain ⟨f, hf, hself, -⟩ := hc.function
  exact ⟨rfl, by simp [hf, hself]⟩

/-- Inside of a body there is a scope. -/
lemma Within.scopes_ne (hc : c.Within own as) : c.scopes ≠ [] := by
  obtain ⟨above, root, hroot, -⟩ := hc.root
  simp [hroot]

/-- A step stays inside of the body. -/
lemma Within.of_step (hc : c.Within own as) (h : c.Step d D) : d.Within own as := by
  refine ⟨h.function_eq ▸ hc.function, ?_⟩
  obtain ⟨above, root, hroot, has⟩ := hc.root
  rw [h.scopes_extend, hroot]
  cases above with
  | nil => exact ⟨[], _, rfl, has.trans (List.prefix_append _ _)⟩
  | cons s above => exact ⟨_ :: above, root, rfl, has⟩

/-- A scope is entered inside of the body. -/
lemma Within.enterScope (hc : c.Within own as) : c.enterScope.1.Within own as := by
  obtain ⟨above, root, hroot, has⟩ := hc.root
  exact ⟨hc.function, _ :: above, root, congrArg (List.cons _) hroot, has⟩

/-- A scope that is opened is empty, and does not hide what is around it. -/
lemma scopes_enterScope (h : c.scopes ≠ []) : c.enterScope.1.scopes = {} :: c.scopes := by
  have : c.scopes.isEmpty = false := by simpa using h
  simp [Context.enterScope, this]

/-- A local that could be bound without an error has a name that is new in the current scope and
that no parameter has. -/
lemma Within.names_of_insertLocal (hc : c.Within own as) (has : ∀ a ∈ as, a.isParam) {l : Local}
    {s : Scope} {below : List Scope} (hs : c.scopes = s :: below)
    (h : (c.insertLocal l).1.errors = 0) :
    s.find? l.name = none ∧ ∀ a ∈ as, a.name ≠ l.name := by
  unfold Context.insertLocal at h
  split at h
  · exact absurd h (Nat.succ_ne_zero _)
  rename_i hparam
  rw [hs] at h
  simp only [Scope.insert] at h
  cases hfind : s.find? l.name with
  | some prev =>
    rw [hfind] at h
    exact absurd h (Nat.succ_ne_zero _)
  | none =>
    refine ⟨rfl, fun a ha hname => ?_⟩
    obtain ⟨above, root, hroot, rest, hlocals⟩ := hc.root
    obtain ⟨f, hf, -, hdepth⟩ := hc.function
    have hfound : ∃ a' ∈ as, root.find? l.name = some a' := by
      cases hfa : as.find? fun a => a.name == l.name with
      | none => exact absurd (List.find?_eq_none.1 hfa a ha) (by simp [hname])
      | some a' =>
        exact ⟨a', List.mem_of_find?_eq_some hfa, by simp [Scope.find?, ← hlocals, hfa]⟩
    obtain ⟨a', ha', hfound⟩ := hfound
    cases above with
    | nil =>
      obtain ⟨rfl, -⟩ := List.cons.inj (hs.symm.trans hroot)
      simp [hfound] at hfind
    | cons t above =>
      have hne : c.depth ≠ 1 := by simp [Context.depth, hroot]
      have houter : c.outerRoot? = some root := by
        simp only [Context.outerRoot?, hf, hdepth, if_neg hne, hroot]
        simp
      simp [houter, hfound, has a' ha'] at hparam

end Context

namespace Analysis

variable {S : List Scope} {own : Option Local} {as : List Local} {H : Prop}

/-! ## Analyses in scopes -/

/-- **Analyses in scopes** leave the scopes and the instance alone, and the result satisfies `R` if
there is no error in the end. -/
def Under {α : Type} (S : List Scope) (own : Option Local) (H : Prop) (m : Analysis α)
    (R : α → Prop) : Prop :=
  Clean (fun c => c.Shows S own ∧ H) m fun a d => d.Shows S own ∧ R a

section Under

variable {α β : Type} {H' : Prop} {R R' : α → Prop} {T : β → Prop} {m : Analysis α}
  {f : α → Analysis β}

/-- A result under the same scopes. -/
lemma Under.pure {a : α} (h : H → R a) : Under S own H (pure a) R :=
  Clean.pure fun _ hc => ⟨hc.1, h hc.2⟩

/-- One analysis after the other, under the same scopes. -/
lemma Under.bind (hm : Under S own H m R) (hf : ∀ a, Under S own (H ∧ R a) (f a) T) :
    Under S own H (m >>= f) T := by
  intro c hc herr
  have herr : ((f (m.run c).1).run (m.run c).2).2.errors = 0 := herr
  obtain ⟨h1, h2⟩ := hf _ (m.run c).2
    (fun h => ⟨(hm c hc h).2.1, (hc (hm c hc h).1).2, (hm c hc h).2.2⟩) herr
  exact ⟨(hm c hc h1).1, h2⟩

/-- Less may be said about the result. -/
lemma Under.weaken (hm : Under S own H m R) (hR : ∀ a, H → R a → R' a) : Under S own H m R' := by
  intro c hc herr
  obtain ⟨h1, h2, h3⟩ := hm c hc herr
  exact ⟨h1, h2, hR _ (hc h1).2 h3⟩

/-- An analysis that only reports. -/
lemma Under.of_steps (hm : Steps Context.Alike Context.Reports m R) : Under S own H m R := by
  intro c hc herr
  obtain ⟨hd, hR⟩ := hm.run c
  have h0 : c.errors = 0 := by
    obtain ⟨found, hd⟩ := hd
    rw [hd] at herr
    exact Nat.eq_zero_of_add_eq_zero_right herr
  exact ⟨h0, (hc h0).1.reports hd, hR⟩

/-- The context is looked at. -/
lemma Under.get_bind {f : Context → Analysis β}
    (hf : ∀ c, Under S own (H ∧ c.Shows S own) (f c) T) : Under S own H (get >>= f) T :=
  Under.bind (Clean.weaken Clean.get (fun _ hc => hc) fun _ _ h => ⟨h.2.1, h.1 ▸ h.2.1⟩) hf

/-- Nothing has to be shown about what follows an error. -/
lemma Under.report_bind {f : Unit → Analysis β} (kind : DiagnosticKind) (pos : Position)
    (message : String) (hf : Under S own (H ∧ False) (f ()) T) :
    Under S own H (report kind pos message >>= f) T :=
  Under.bind (R := fun _ => False) (Clean.report kind pos message) fun _ => hf

/-- An analysis in the scopes of a context. -/
lemma Under.from {c : Context} (hm : Under S own H m R) (hc : H → c.Shows S own) :
    From c H m fun a d => d.Shows S own ∧ R a :=
  Clean.weaken hm (fun _ hd => ⟨hd.1 ▸ hc hd.2, hd.2⟩) fun _ _ h => h

end Under

/-! ## Expressions -/

mutual

/-- **Names in expressions are bound** to what they stand for in the scopes around them.

**Proof sketch.** By recursion on the expression: the context is looked up for names only, and all
other expressions keep their parts. -/
theorem expr_bound : ∀ (e : Expr) {H : Prop}, Under S own H (expr e) (TExpr.Follows S own)
  | .ident _ _, _ => by
    refine Under.get_bind fun c => ?_
    split
    · rename_i l hl
      refine Under.pure fun h => .intro ⟨rfl, ?_⟩ (List.forall_mem_nil _)
      rw [← h.2.scopes_eq]
      exact hl
    · exact Under.report_bind _ _ _ (Under.pure fun h => h.2.elim)
  | .self _, _ => by
    refine Under.get_bind fun c => ?_
    split
    · rename_i l hl
      refine Under.pure fun h => .intro ⟨rfl, ?_⟩ (List.forall_mem_nil _)
      rw [← h.2.self_eq]
      exact hl
    · exact Under.report_bind _ _ _ (Under.pure fun h => h.2.elim)
  | .literal pos l, _ => (Under.of_steps (literal_steps pos l)).weaken <| by
    rintro _ - ⟨_, rfl⟩
    exact .intro trivial (List.forall_mem_nil _)
  | .unary pos op x, _ =>
    Under.bind (expr_bound x) fun x' => (Under.of_steps (unary_steps pos op x')).weaken <| by
      rintro _ h ⟨_, _, rfl⟩
      exact .intro trivial (List.forall_mem_singleton.2 h.2)
  | .binary pos op x y, _ =>
    Under.bind (expr_bound x) fun x' =>
    Under.bind (Under.of_steps (single_steps x')) fun t =>
    Under.bind (expr_bound y) fun y' =>
    Under.bind (Under.of_steps (single_steps y')) fun u =>
    (Under.of_steps (binary_steps pos op x' y' t u)).weaken <| by
      rintro _ ⟨⟨⟨⟨-, hx⟩, -⟩, hy⟩, -⟩ ⟨_, _, rfl⟩
      exact .intro trivial (List.forall_mem_cons.2 ⟨hx, List.forall_mem_singleton.2 hy⟩)
  | .member pos x n, _ =>
    Under.bind (expr_bound x) fun x' => (Under.of_steps (member_steps pos x' n)).weaken <| by
      rintro _ h ⟨_, _, _, rfl⟩
      exact .intro trivial (List.forall_mem_singleton.2 h.2)
  | .index pos x i, _ =>
    Under.bind (expr_bound x) fun x' =>
    Under.bind (Under.of_steps (single_steps x')) fun t =>
    Under.bind (expr_bound i) fun i' =>
    Under.bind (Under.of_steps (single_steps i')) fun u =>
    (Under.of_steps (index_steps pos x' i' t u)).weaken <| by
      rintro _ ⟨⟨⟨⟨-, hx⟩, -⟩, hi⟩, -⟩ ⟨_, rfl⟩
      exact .intro trivial (List.forall_mem_cons.2 ⟨hx, List.forall_mem_singleton.2 hi⟩)
  | .deref pos x, _ =>
    Under.bind (expr_bound x) fun x' => (Under.of_steps (deref_steps pos x')).weaken <| by
      rintro _ h ⟨_, rfl⟩
      exact .intro trivial (List.forall_mem_singleton.2 h.2)
  | .method pos x n args, _ =>
    Under.bind (expr_bound x) fun x' =>
    Under.bind (Under.of_steps (single_steps x')) fun t =>
    Under.bind (arguments_bound args) fun (args', ts) =>
    (Under.of_steps (method_steps pos x' n args' t ts)).weaken <| by
      rintro _ ⟨⟨⟨-, hx⟩, -⟩, hargs⟩ ⟨_, _, rfl⟩
      exact .intro trivial (List.forall_mem_cons.2 ⟨hx, hargs⟩)
  | .routine pos owner n args, _ =>
    Under.bind (arguments_bound args) fun (args', ts) =>
    (Under.of_steps (routine_steps pos owner n args' ts)).weaken <| by
      rintro _ h ⟨_, _, rfl⟩
      exact .intro trivial h.2
  | .ccall pos n args, _ =>
    Under.bind (arguments_bound args) fun (args', ts) =>
    (Under.of_steps (ccall_steps pos n args' ts)).weaken <| by
      rintro _ h ⟨_, _, rfl⟩
      exact .intro trivial h.2

/-- Names in arguments are bound. -/
theorem arguments_bound : ∀ (es : List Expr) {H : Prop},
    Under S own H (arguments es) fun q => ∀ x ∈ q.1, x.Follows S own
  | [], _ => Under.pure fun _ => List.forall_mem_nil _
  | e :: es, _ =>
    Under.bind (expr_bound e) fun e' =>
    Under.bind (Under.of_steps (single_steps e')) fun _ =>
    Under.bind (arguments_bound es) fun _ => Under.pure fun h =>
      List.forall_mem_cons.2 ⟨h.1.1.2, h.2⟩

end

/-! ## Assignments -/

/-- A number for a local is taken under the same scopes. -/
lemma freshLocal_under : Under S own H freshLocal fun _ => True :=
  Clean.modifyGet (fun _ => rfl) fun _ h => ⟨⟨h.1.scopes_eq, h.1.self_eq⟩, trivial⟩

/-- The expression of a target follows the scopes. -/
lemma target_bound (hasValues : Bool) : ∀ g : Target,
    Under S own H (target hasValues g) fun q => ∀ x ∈ q.1.expr?, x.Follows S own
  | .decl g =>
    Under.bind (Under.of_steps (resolveType_steps g.type)) fun _ =>
    Under.bind freshLocal_under fun _ => Under.pure fun _ => nofun
  | .expr e => by
    refine Under.bind (expr_bound e) fun x => ?_
    split
    · refine Under.bind (Under.of_steps (single_steps x)) fun t =>
        Under.bind (Under.of_steps (checkWritable_steps x t)) fun _ => Under.pure fun h => ?_
      simpa [TTarget.expr?] using h.1.1.2
    · refine Under.pure fun h => ?_
      simpa [TTarget.expr?] using h.2

/-- The expressions of all targets follow the scopes. -/
lemma targets_bound (hasValues : Bool) : ∀ (gs : List Target) {H : Prop},
    Under S own H (targets hasValues gs) fun qs =>
      ∀ x ∈ (qs.map Prod.fst).filterMap TTarget.expr?, x.Follows S own
  | [], _ => Under.pure fun _ => List.forall_mem_nil _
  | g :: gs, _ =>
    Under.bind (target_bound hasValues g) fun q =>
    Under.bind (targets_bound hasValues gs) fun qs => Under.pure fun h x hx => by
      rw [List.map_cons, List.filterMap_cons] at hx
      cases hq : q.1.expr? with
      | none =>
        rw [hq] at hx
        exact h.2 x hx
      | some y =>
        rw [hq] at hx
        exact List.forall_mem_cons.2 ⟨h.1.2 y hq, h.2⟩ x hx

/-- Values on the right follow the scopes. -/
lemma values_bound : ∀ (es : List Expr) (source : Nat) {H : Prop},
    Under S own H (values source es) fun q => ∀ x ∈ q.1, x.Follows S own
  | [], _, _ => Under.pure fun _ => List.forall_mem_nil _
  | e :: es, source, _ =>
    Under.bind (expr_bound e) fun x =>
    Under.bind (Under.of_steps (valuesOf_steps source x)) fun _ =>
    Under.bind (values_bound es (source + 1)) fun _ => Under.pure fun h =>
      List.forall_mem_cons.2 ⟨h.1.1.2, h.2⟩

/-- What is known about the scopes and the locals of the context inside a function. -/
def Frames (own : Option Local) (as : List Local) (c : Context) : Prop :=
  c.Inside ∧ c.Within own as

section Statements

variable {c d : Context}

/-- A scope is entered inside of a frame. -/
lemma Frames.enterScope (hc : Frames own as c) : Frames own as c.enterScope.1 :=
  hc.imp Context.Inside.enterScope Context.Within.enterScope

/-- A loop is entered inside of a frame. -/
lemma Frames.enterLoop (hc : Frames own as c) : Frames own as c.enterLoop.1 :=
  ⟨hc.1.enterLoop, hc.2.function, hc.2.root⟩

/-- An analysis that changes nothing, in the scopes of its context. -/
lemma Under.keeps {α : Type} {m : Analysis α} {R R' : α → Prop} (hc : H → Frames own as c)
    (hk : Keeps c H m R) (hu : Under c.scopes own H m R') : Keeps c H m R' :=
  (From.and hk (hu.from fun h => (hc h).2.shows)).weaken id fun _ _ _ h => ⟨h.1.1, h.2.2⟩

/-- A local that is bound has a new name. -/
lemma insertLocal_named (l : Local) (has : ∀ a ∈ as, a.isParam) (hc : H → c.Within own as) :
    From c H (modify fun d => (d.insertLocal l).1) fun _ d =>
      c.Step d [l] ∧ (∃ s below, d.scopes = s :: below ∧ s.find? l.name = some l) ∧
        ∀ a ∈ as, a.name ≠ l.name := by
  have named : From c H (modify fun d => (d.insertLocal l).1) fun _ d =>
      (∃ s below, d.scopes = s :: below ∧ s.find? l.name = some l) ∧
        ∀ a ∈ as, a.name ≠ l.name := by
    intro d hd hn
    have hn : (d.insertLocal l).1.errors = 0 := hn
    have h0 := errors_of_insertLocal hn
    obtain ⟨rfl, hH⟩ := hd h0
    obtain ⟨s, below, hs⟩ := List.exists_cons_of_ne_nil (hc hH).scopes_ne
    obtain ⟨hfind, hparams⟩ := (hc hH).names_of_insertLocal has hs hn
    refine ⟨h0, ⟨{ s with locals := s.locals ++ [l] }, below, ?_, ?_⟩, hparams⟩
    · show (d.insertLocal l).1.scopes = _
      rw [insertLocal_eq hs hn]
    · rw [Scope.find?, List.find?_append, show s.locals.find? _ = none from hfind]
      simp
  exact ((insertLocal_from l fun h => (hc h).scopes_ne).and named).weaken id
    fun _ _ _ h => ⟨h.1.1, h.2⟩

/-- The locals of targets are bound in order, each with a name of its own. -/
lemma bindTargets_named (has : ∀ a ∈ as, a.isParam) : ∀ (qs : List (TTarget × Ty)) {c : Context}
    {H : Prop}, (H → c.Within own as) → From c H
      (forIn qs PUnit.unit fun q _ => match q with
        | (g, _) => match g.local? with
          | some l => do
            modify fun d => (d.insertLocal l).1
            pure (ForInStep.yield PUnit.unit)
          | none => pure (ForInStep.yield PUnit.unit)) fun _ d =>
      c.Step d (qs.filterMap fun q => q.1.local?) ∧ ∀ l ∈ qs.filterMap fun q => q.1.local?,
        Scope.lookup? l.name d.scopes = some l ∧ ∀ a ∈ as, a.name ≠ l.name
  | [], c, H, hc => From.pure fun h => ⟨.refl (hc h).scopes_ne, by simp⟩
  | (g, t) :: qs, c, H, hc => by
    rw [List.forIn_cons]
    cases hg : g.local? with
    | none =>
      simp only [pure_bind, List.filterMap_cons, hg]
      exact bindTargets_named has qs hc
    | some l =>
      simp only [bind_assoc, pure_bind, List.filterMap_cons, hg]
      refine From.bind (insertLocal_named l has hc) fun _ d => ?_
      refine (bindTargets_named has qs fun h => (hc h.1).of_step h.2.1).weaken id fun _ e h h' => ?_
      obtain ⟨-, hs, ⟨s, below, hd, hl⟩, hparams⟩ := h
      refine ⟨hs.trans h'.1, List.forall_mem_cons.2 ⟨⟨?_, hparams⟩, h'.2⟩⟩
      rw [h'.1.scopes_extend, hd]
      exact Scope.lookup?_extend hl below _

/-- The expressions of an assignment are bound if those in its targets and its values are. -/
lemma operands_follow {S : List Scope} {gs : List TTarget} {vs ds : List TExpr} {ps : List Pair}
    (hgs : ∀ x ∈ gs.filterMap TTarget.expr?, x.Follows S own) (hvs : ∀ x ∈ vs, x.Follows S own)
    (hps : ∀ q ∈ ps, q.target ∈ gs) (hds : ∀ x ∈ ds, x ∈ gs.filterMap TTarget.expr?) :
    ∀ x ∈ TStmt.operands gs vs ps ds, x.Follows S own := by
  intro x hx
  simp only [TStmt.operands, List.mem_append] at hx
  obtain ((hx | hx) | hx) | hx := hx
  · exact hgs x hx
  · exact hvs x hx
  · obtain ⟨q, hq, hqx⟩ := List.mem_filterMap.1 hx
    exact hgs x (List.mem_filterMap.2 ⟨q.target, hps q hq, q.place?_eq ▸ hqx⟩)
  · exact hgs x (hds x hx)

/-- **Names in assignments are bound** in the scopes before it, and what it declares has new
names. -/
theorem assign_bound (has : ∀ a ∈ as, a.isParam) (hc : H → Frames own as c) (pos : Position)
    (gs : List Target) (es : List Expr) :
    From c H (assign pos gs es) fun s _ =>
      ∃ gs vs ps ds, s = .assign pos gs vs ps ds ∧
        (∀ x ∈ TStmt.operands gs vs ps ds, x.Follows c.scopes own) ∧
        ∀ l ∈ declaredBy ps, Scope.lookup? l.name (Scope.extend (declaredBy ps) c.scopes) = some l ∧
          ∀ a ∈ as, a.name ≠ l.name := by
  refine From.bind ((targets_from _ gs fun h => (hc h).1).and
    ((targets_bound _ gs).from fun h => (hc h).2.shows)) fun ts d => ?_
  refine From.keeps_bind (Under.keeps (show _ → Frames own as d from fun h => ?_)
    (values_keeps es 0 fun h => ?_) (values_bound es 0)) fun (sources, vs) => ?_
  · exact ⟨(hc h.1).1.of_step h.2.1.1 .nil, (hc h.1).2.of_step h.2.1.1⟩
  · exact ((hc h.1).1.of_step h.2.1.1 .nil).toSound
  refine From.bind (bindTargets_named has ts fun h => (hc h.1.1).2.of_step h.1.2.1.1) fun _ e => ?_
  generalize hD : ts.filterMap (fun q => q.1.local?) = D
  have hfst : (ts.map Prod.fst).filterMap TTarget.local? = D := by
    rw [← hD, List.filterMap_map]
    rfl
  split
  · refine From.bind (withoutValues_checks _).from fun (ps, ds) f => From.pure fun h => ?_
    obtain ⟨⟨⟨⟨-, ⟨hs, -, -⟩, -, hts⟩, hvs⟩, hb, hnames⟩, hps, hds⟩ := h
    have hdecl : declaredBy ps = D := by
      rw [declaredBy_eq, hps, ← hfst, List.filterMap_filter]
      refine List.filterMap_congr fun g _ => ?_
      cases g.local? <;> rfl
    rw [hs.scopes_extend, Scope.extend_nil] at hvs
    refine ⟨_, _, _, _, rfl, operands_follow hts hvs (fun q hq => ?_) (fun x hx => ?_), ?_⟩
    · have := hps ▸ List.mem_map_of_mem hq
      exact List.mem_of_mem_filter this
    · obtain rfl : ds = _ := hds
      obtain ⟨g, hg, hgx⟩ := List.mem_filterMap.1 hx
      exact List.mem_filterMap.2 ⟨g, hg, (Option.filter_eq_some_iff.1 hgx).1⟩
    · rw [hdecl]
      rwa [hb.scopes_extend, hs.scopes_extend, Scope.extend_nil] at hnames
  · refine From.bind (withValues_checks pos ts sources vs).from fun ps f => From.pure fun h => ?_
    obtain ⟨⟨⟨⟨-, ⟨hs, -, -⟩, -, hts⟩, hvs⟩, hb, hnames⟩, hps⟩ := h
    have hdecl : declaredBy ps = D := by rw [declaredBy_eq, hps, hfst]
    rw [hs.scopes_extend, Scope.extend_nil] at hvs
    refine ⟨_, _, _, _, rfl, operands_follow hts hvs (fun q hq => ?_) (by simp), ?_⟩
    · exact hps ▸ List.mem_map_of_mem hq
    · rw [hdecl]
      rwa [hb.scopes_extend, hs.scopes_extend, Scope.extend_nil] at hnames

/-! ## Statements -/

/-- Locals that are fresh, as far as their numbers and the program tell. -/
lemma fresh_of_eq {c' d' : Context} {D : List Local} (h : c.Fresh d D)
    (hc : c'.nextLocal = c.nextLocal) (hp : c'.program = c.program)
    (hd : d'.nextLocal = d.nextLocal) : c'.Fresh d' D :=
  ⟨h.ids_nodup, hc ▸ hd ▸ h.ids_between, hp ▸ h.valid⟩

/-- Some of the locals that are fresh are fresh. -/
lemma fresh_of_sublist {D E : List Local} (h : c.Fresh d E) (hD : D.Sublist E) : c.Fresh d D :=
  ⟨h.ids_nodup.sublist (hD.map _), fun l hl => h.ids_between l (hD.subset hl),
    fun l hl => h.valid l (hD.subset hl)⟩

/-- What is known about a statement: it binds the locals that it declares, the numbers of all locals
in it are new, and all its names are bound. -/
def StmtScoped (own : Option Local) (as : List Local) (c : Context) (s : TStmt) (d : Context) :
    Prop :=
  c.Step d s.declares ∧ c.Fresh d s.locals ∧ AllBound own as (s.Sees c.scopes) (s.Binds c.scopes)

/-- What is known about several statements. -/
def StmtsScoped (own : Option Local) (as : List Local) (c : Context) (ss : List TStmt)
    (d : Context) : Prop :=
  c.Step d (TStmt.declaresAll ss) ∧ c.Fresh d (TStmt.localsAll ss) ∧
    AllBound own as (TStmt.SeesAll c.scopes ss) (TStmt.BindsAll c.scopes ss)

/-- What is known about statements in a scope of their own. -/
def BlockScoped (own : Option Local) (as : List Local) (c : Context) (ss : List TStmt)
    (d : Context) : Prop :=
  c.Step d [] ∧ c.Fresh d (TStmt.localsAll ss) ∧
    AllBound own as (TStmt.SeesAll ({} :: c.scopes) ss) (TStmt.BindsAll ({} :: c.scopes) ss)

/-- A scope is left again. -/
lemma block_scoped {m : Analysis (List TStmt)} (hc : H → Frames own as c)
    (hm : From c.enterScope.1 H m (StmtsScoped own as c.enterScope.1)) :
    From c H (inScope m) fun q d => BlockScoped own as c q.2 d := by
  refine (inScope_from (R := fun b n => c.Fresh { c with nextLocal := n } (TStmt.localsAll b) ∧
    AllBound own as (TStmt.SeesAll ({} :: c.scopes) b) (TStmt.BindsAll ({} :: c.scopes) b))
    (fun h => (hc h).1.scopes_ne) (hm.weaken id fun b d h hb => ?_)).weaken id fun q d _ h => ?_
  · obtain ⟨hs, hf, hb⟩ := hb
    rw [Context.scopes_enterScope (hc h).1.scopes_ne] at hb
    exact ⟨⟨_, hs⟩, fresh_of_eq hf rfl rfl rfl, hb⟩
  · exact ⟨h.1, fresh_of_eq h.2.1 rfl rfl rfl, h.2.2⟩

/-- Names in a condition are bound. -/
lemma condition_bound (hc : H → Frames own as c) (e : Expr) :
    Keeps c H (condition e) (TExpr.Follows c.scopes own) := by
  refine Under.keeps hc (condition_keeps e fun h => (hc h).1.toSound) ?_
  refine Under.bind (expr_bound e) fun x => ?_
  refine Under.bind (Under.of_steps (single_steps x)) fun t => ?_
  refine (Under.of_steps (R := (· = x)) (report_if_steps (Steps.pure (R := (· = x)) rfl))).weaken ?_
  rintro _ h rfl
  exact h.1.2

mutual

/-- **Names in statements are bound** to what they stand for in the scopes around them.

**Proof sketch.** By recursion on the statement. A body is analysed in a scope of its own, which is
empty at first; what a statement declares is added to the current scope; and the condition of a
`repeat` is analysed before the scope of its body is left. -/
theorem statement_scoped (has : ∀ a ∈ as, a.isParam) : ∀ (s : Stmt) {c : Context} {H : Prop},
    (H → Frames own as c) → From c H (statement s) (StmtScoped own as c)
  | .assign pos gs es, c, H, hc => by
    refine ((assign_from (fun h => (hc h).1) pos gs es).and (assign_bound has hc pos gs es)).weaken
      id fun s d _ h => ?_
    obtain ⟨⟨hs, hf, -⟩, gs, vs, ps, ds, rfl, hsees, hnames⟩ := h
    refine ⟨hs, hf, ?_, ?_⟩
    · rintro _ x ⟨rfl, y, hy, hx⟩
      exact hsees y hy x hx
    · rintro _ l ⟨rfl, hl⟩
      exact hnames l hl
  | .ifThen pos cond body, c, H, hc =>
    From.keeps_bind (condition_bound hc cond) fun cond' =>
    From.bind (block_scoped (fun h => hc h.1)
      (statements_scoped has body fun h => (hc h.1).enterScope)) fun _ d =>
    From.pure fun ⟨⟨_, hcond⟩, hs, hf, hb⟩ => ⟨hs, hf, hb.cons hcond⟩
  | .ifElse pos cond body other, c, H, hc => by
    refine From.keeps_bind (condition_bound hc cond) fun cond' => ?_
    refine From.bind (block_scoped (fun h => hc h.1)
      (statements_scoped has body fun h => (hc h.1).enterScope)) fun (_, body') d => ?_
    refine From.bind (block_scoped (fun h => ?_)
      (statements_scoped has other fun h => Frames.enterScope ?_)) fun (_, other') e =>
        From.pure fun h => ?_
    iterate 2 exact ⟨(hc h.1.1).1.of_step h.2.1 .nil, (hc h.1.1).2.of_step h.2.1⟩
    obtain ⟨⟨⟨-, hcond⟩, hs, hf, hb⟩, hs', hf', ho⟩ := h
    -- The second body is analysed in the scopes that the first one has left as they were.
    rw [hs.scopes_extend, Scope.extend_nil] at ho
    exact ⟨hs.trans hs', hf.append hf' hs hs', (hb.or ho).cons hcond⟩
  | .whileLoop pos cond body, c, H, hc => by
    refine From.keeps_bind (condition_bound hc cond) fun cond' => ?_
    refine From.bind (inLoop_from (D := fun _ => []) (R := fun (q : Scope × List TStmt) n =>
      c.Fresh { c with nextLocal := n } (TStmt.localsAll q.2) ∧ AllBound own as
        (TStmt.SeesAll ({} :: c.scopes) q.2) (TStmt.BindsAll ({} :: c.scopes) q.2))
      ((block_scoped (fun h => (hc h.1).enterLoop)
        (statements_scoped has body fun h => (hc h.1).enterLoop.enterScope)).weaken id
          fun q d _ h => ⟨h.1, .nil, fresh_of_eq h.2.1 rfl rfl rfl, h.2.2⟩))
      fun (_, body') d => From.pure fun h => ?_
    obtain ⟨⟨-, hcond⟩, hs, -, hf, hb⟩ := h
    exact ⟨hs, fresh_of_eq hf rfl rfl rfl, hb.cons hcond⟩
  -- The scope of the body is still open for the condition, so both are taken together.
  | .repeatUntil pos body cond, c, H, hc => by
    refine From.bind (inScope_from (R := fun (q : List TStmt × TExpr) n =>
      c.Fresh { c with nextLocal := n } (TStmt.localsAll q.1) ∧ AllBound own as
        (fun D x => TStmt.SeesAll ({} :: c.scopes) q.1 D x ∨
          D = Scope.extend (TStmt.declaresAll q.1) ({} :: c.scopes) ∧ q.2.Has x)
        (TStmt.BindsAll ({} :: c.scopes) q.1)) (fun h => (hc h).1.scopes_ne) ?_)
      fun q d => From.pure fun ⟨_, hs, hf, hb⟩ => ⟨hs, fresh_of_eq hf rfl rfl rfl, hb⟩
    refine From.bind (inLoop_from (R := fun b n =>
      c.Fresh { c with nextLocal := n } (TStmt.localsAll b) ∧ AllBound own as
        (TStmt.SeesAll ({} :: c.scopes) b) (TStmt.BindsAll ({} :: c.scopes) b))
      ((statements_scoped has body fun h => (hc h).enterScope.enterLoop).weaken id
        fun b d h ⟨hs, hf, hb⟩ => ⟨hs, fresh_of_sublist hf (TStmt.declaresAll_sublist b),
          fresh_of_eq hf rfl rfl rfl, ?_⟩)) fun body' d => ?_
    · rwa [show c.enterScope.1.enterLoop.1.scopes = _ from
        Context.scopes_enterScope (hc h).1.scopes_ne] at hb
    refine From.keeps_bind (condition_bound (show _ → Frames own as d from fun h => ?_) cond)
      fun cond' => From.pure fun h => ?_
    · exact ⟨(hc h.1).1.enterScope.of_step h.2.1 h.2.2.1, (hc h.1).2.enterScope.of_step h.2.1⟩
    obtain ⟨⟨hH, hs, -, hf, hb⟩, hcond⟩ := h
    rw [hs.scopes_extend, Context.scopes_enterScope (hc hH).1.scopes_ne] at hcond
    exact ⟨⟨_, hs⟩, fresh_of_eq hf rfl rfl rfl, hb.concat hcond⟩
  | .block pos body, c, H, hc =>
    From.bind (block_scoped hc (statements_scoped has body fun h => (hc h).enterScope))
      fun _ d => From.pure fun ⟨_, hs, hf, hb⟩ => ⟨hs, hf, hb⟩
  | .ret pos, c, H, hc => From.pure fun h => ⟨.refl (hc h).1.scopes_ne, .nil, .empty⟩
  | .brk pos, c, H, hc =>
    From.keeps_bind (checkJump_keeps pos "break") fun _ =>
      From.pure fun h => ⟨.refl (hc h.1).1.scopes_ne, .nil, .empty⟩
  | .cont pos, c, H, hc =>
    From.keeps_bind (checkJump_keeps pos "continue") fun _ =>
      From.pure fun h => ⟨.refl (hc h.1).1.scopes_ne, .nil, .empty⟩

/-- Names in statements are bound, also to what the statements before them declare. -/
theorem statements_scoped (has : ∀ a ∈ as, a.isParam) : ∀ (ss : List Stmt) {c : Context}
    {H : Prop}, (H → Frames own as c) → From c H (statements ss) (StmtsScoped own as c)
  | [], c, H, hc => From.pure fun h => ⟨.refl (hc h).1.scopes_ne, .nil, .empty⟩
  | s :: ss, c, H, hc => by
    refine From.bind (statement_scoped has s hc) fun s' d => ?_
    refine From.bind (statements_scoped has ss fun h => ?_) fun ss' e => From.pure fun h => ?_
    · exact ⟨(hc h.1).1.of_step h.2.1 (fresh_of_sublist h.2.2.1 s'.declares_sublist),
        (hc h.1).2.of_step h.2.1⟩
    · obtain ⟨⟨-, hs, hf, hb⟩, hs', hf', hb'⟩ := h
      rw [hs.scopes_extend] at hb'
      refine ⟨?_, hf.append hf' hs hs', hb.or hb'⟩
      simpa [TStmt.declaresAll] using hs.trans hs'

end

end Statements

/-! ## Programs -/

section Programs

variable {N : List String} {R : List ClassRef} {F : List MemberFunction} {c : Context}

/-- The root scope of a body has the parameters and results. -/
lemma frames_bodyContext {q : Pending} (hfn : q.fn ∈ F) (hq : q.Fits) (hc : c.Forms N R F) :
    Frames (selfLocal q.fn) q.fn.paramLocals (bodyContext c q) := by
  refine ⟨inside_bodyContext hfn hq hc, ⟨_, rfl, rfl, ?_⟩, [], ⟨q.scope.locals, true⟩, ?_, ?_⟩
  · show ((⟨q.scope.locals, true⟩ : Scope) :: c.scopes).length = 1
    rw [hc.scopes_nil]
    rfl
  · show (⟨q.scope.locals, true⟩ : Scope) :: c.scopes = _
    rw [hc.scopes_nil]
    rfl
  · rw [hq.locals_eq]
    exact List.prefix_refl _

/-- The locals that a body starts with have different numbers. -/
lemma rootLocals_ids_nodup {f : MemberFunction} (hf : f.localIds.Nodup) :
    (f.rootLocals.map Local.id).Nodup := by
  obtain ⟨hself, hparams⟩ := List.nodup_cons.1 hf
  have hids : (f.sig.params ++ f.sig.results).map Param.localId =
      ((f.sig.params ++ f.sig.results).map Param.toLocal).map Local.id := by
    rw [List.map_map]
    rfl
  rw [hids] at hself hparams
  rw [MemberFunction.rootLocals, List.map_append]
  refine hparams.append ?_ fun i hi hi' => ?_
  · unfold selfLocal
    split <;> simp
  · unfold selfLocal at hi'
    split at hi'
    · obtain rfl := List.mem_singleton.1 hi'
      exact hself hi
    · cases hi'

/-- **Names in the body of a function** are bound. -/
theorem functionBody_scoped {q : Pending} (hfn : q.fn ∈ F) (hq : H → q.Fits)
    (hc : H → c.Forms N R F) : From c H (functionBody q) fun b _ => b.Scoped := by
  intro d hd herr
  have has : ∀ a ∈ q.fn.paramLocals, a.isParam := by
    intro a ha
    obtain ⟨p, -, rfl⟩ := List.mem_map.1 ha
    rfl
  have hframes : H → Frames (selfLocal q.fn) q.fn.paramLocals (bodyContext c q) :=
    fun h => frames_bodyContext hfn (hq h) (hc h)
  have hbody := statements_scoped has q.body hframes
  -- What is left in the end reports nothing.
  have hbody := hbody (bodyContext d q) (fun h => ⟨congrArg (bodyContext · q) (hd h).1, (hd h).2⟩)
    ((Context.errors_left _ _).symm.trans ((Context.errors_left _ _).symm.trans herr))
  obtain ⟨h0, hs, hf, hb⟩ := hbody
  obtain ⟨rfl, hH⟩ := hd h0
  have hscopes : (bodyContext d q).scopes = [⟨q.fn.paramLocals, true⟩] := by
    show (⟨q.scope.locals, true⟩ : Scope) :: d.scopes = _
    rw [(hc hH).scopes_nil, (hq hH).locals_eq]
    rfl
  rw [hscopes] at hb
  refine ⟨h0, hb, ?_⟩
  have hvalid := ((hc hH).declares _ hfn).validFunc (hc hH).program_wf
  rw [List.map_append]
  refine (rootLocals_ids_nodup hvalid.locals_nodup).append hf.ids_nodup fun i hi hi' => ?_
  obtain ⟨l, hl, rfl⟩ := List.mem_map.1 hi
  obtain ⟨l', hl', heq⟩ := List.mem_map.1 hi'
  have hbelow := (rootLocals_valid (hc hH) hfn l hl).2
  have habove : q.fn.localCount ≤ l'.id := (hf.ids_between l' hl').1
  omega

/-- All bodies are scoped. -/
lemma bodies_scoped : ∀ (qs : List Pending) {c : Context} {H : Prop},
    (∀ q ∈ qs, q.fn ∈ F) → (H → ∀ q ∈ qs, q.Fits) → (H → c.Forms N R F) →
    From c H (qs.mapM functionBody) fun bs _ => ∀ b ∈ bs, b.Scoped
  | [], _, _, _, _, _ => From.pure fun _ => List.forall_mem_nil _
  | q :: qs, c, H, hfn, hq, hc => by
    rw [List.mapM_cons]
    have hfn' := hfn q List.mem_cons_self
    have hq' : H → q.Fits := fun h => hq h q List.mem_cons_self
    refine From.bind ((functionBody_from hfn' hq' hc).and (functionBody_scoped hfn' hq' hc))
      fun b d => ?_
    refine From.bind (bodies_scoped qs (fun x hx => hfn x (List.mem_cons_of_mem q hx))
      (fun h x hx => hq h.1 x (List.mem_cons_of_mem q hx)) fun h => h.2.1.1) fun bs e =>
        From.pure fun h => ?_
    exact List.forall_mem_cons.2 ⟨h.1.2.2, h.2⟩

/-- Names in the bodies of a program are bound. -/
lemma program_scoped (tree : ProgramSyntax) (ds : Diagnostics) :
    From { diagnostics := ds } True (program tree) fun e _ => ∀ b ∈ e.bodies, b.Scoped := by
  rw [program_eq]
  refine From.bind (declarations_from tree ds) fun qs c => ?_
  refine From.bind (bodies_scoped qs (fun q hq => List.mem_map_of_mem hq) (fun h => h.2.1)
    fun h => h.2.2) fun bs d => ?_
  refine From.bind checkBalance_checks.from fun _ e => ?_
  exact From.bind From.get fun f g => From.pure fun h => h.1.1.2

end Programs

end Analysis

/-- **Names in the bodies of accepted programs** are bound. -/
theorem Elaborated.scoped_of_isOk (tree : ProgramSyntax) (ds : Diagnostics)
    (h : (Elaborated.ofSyntax tree ds).1.isOk) :
    ∀ b ∈ (Elaborated.ofSyntax tree ds).1.bodies, b.Scoped :=
  (Analysis.program_scoped tree ds _ (fun _ => ⟨rfl, trivial⟩) (beq_iff_eq.1 h)).2

end Lane
