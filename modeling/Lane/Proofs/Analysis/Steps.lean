import Lane.Proofs.Analysis.Assign
import Lane.Proofs.Analysis.Typed
import Mathlib.Order.Defs.Unbundled

set_option relaxedAutoImplicit false
set_option autoImplicit false

/-!
# Analyses visit everything

What holds of every analysis, however many errors it reports. Nothing stops it: the elaborated
syntax is that of the whole source, what was entered is left again, and what is found is added to
the diagnostics. No promise is found broken on the way. What is found is the same wherever the same
can be looked up.

## Main definitions

* `Lane.Context.add`: a context to which diagnostics were added.
* `Lane.Context.Reports`, `Lane.Context.Walks`: what expressions and statements do to the context.
* `Lane.Context.Alike`: contexts in which an analysis does the same.
* `Lane.Analysis.Steps`: what an analysis does to the context, and what it gives.

## Main results

* `Lane.Analysis.expr_steps`: expressions are visited, and only reports are made.
* `Lane.Analysis.statements_steps`: statements are visited, and their scopes and loops are left.
-/

namespace Lane

/-! ## Contexts before and after -/

namespace Diagnostics

/-- Nothing is added to diagnostics. -/
lemma append_nil (ds : Diagnostics) : ds.append [] = ds := by
  simp [append]

/-- Diagnostics that are added in two parts. -/
lemma append_append (ds : Diagnostics) (found more : List Diagnostic) :
    (ds.append found).append more = ds.append (found ++ more) := by
  simp [append]

/-- What was added is known from the result. -/
lemma append_right_inj {ds : Diagnostics} {found more : List Diagnostic} :
    ds.append found = ds.append more ↔ found = more := by
  simp only [append, mk.injEq, Array.append_right_inj]
  exact ⟨congrArg Array.toList, congrArg List.toArray⟩

end Diagnostics

namespace Context

/-- The context with more diagnostics, in which the errors are counted. -/
def add (c : Context) (found : List Diagnostic) : Context :=
  { c with
    diagnostics := c.diagnostics.append found
    errors := c.errors + found.countP Diagnostic.isError }

/-- Nothing is added to what was found. -/
lemma add_nil (c : Context) : c.add [] = c := by
  simp [add, Diagnostics.append_nil]

/-- What is found in two parts is found in order. -/
lemma add_add (c : Context) (found more : List Diagnostic) :
    (c.add found).add more = c.add (found ++ more) := by
  simp [add, Diagnostics.append_append, Nat.add_assoc]

/-- An error is found when it is reported. -/
lemma report_eq_add (c : Context) (kind : DiagnosticKind) (pos : Position) (message : String) :
    c.report kind pos message = c.add [⟨.error, kind, pos, message⟩] := by
  simp [report, add, Diagnostics.append, Diagnostics.push, Diagnostic.isError]

/-- A warning is found when it is given. -/
lemma warn_eq_add (c : Context) (kind : DiagnosticKind) (pos : Position) (message : String) :
    c.warn kind pos message = c.add [⟨.warning, kind, pos, message⟩] := by
  simp [warn, add, Diagnostics.append, Diagnostics.push, Diagnostic.isError]

/-- **Reports**: nothing but diagnostics is added. -/
def Reports (c d : Context) : Prop := ∃ found, d = c.add found

/-- Nothing is reported. -/
instance : Std.Refl Reports := ⟨fun c => ⟨[], c.add_nil.symm⟩⟩

/-- Reports in sequence. -/
instance : IsTrans Context Reports where
  trans := by
    rintro c _ _ ⟨found, rfl⟩ ⟨more, rfl⟩
    exact ⟨_, c.add_add found more⟩

/-- **Walks**: diagnostics are added and numbers are used up, and the current scope may have new
locals. The scopes below it, the class, the function and the loops are those of before. -/
structure Walks (c d : Context) : Prop where
  reports : ∃ found, d.diagnostics = c.diagnostics.append found ∧
    d.errors = c.errors + found.countP Diagnostic.isError
  fault_eq : d.fault = c.fault
  program_eq : d.program = c.program
  depth_eq : d.depth = c.depth
  below_eq : d.scopes.tail = c.scopes.tail
  cls_eq : d.cls = c.cls
  function_eq : d.function = c.function
  loops_eq : d.loops = c.loops

/-- Reports leave the scopes and loops alone, as a walk does. -/
lemma Reports.walks {c d : Context} (h : c.Reports d) : c.Walks d := by
  obtain ⟨found, rfl⟩ := h
  exact ⟨⟨found, rfl, rfl⟩, rfl, rfl, rfl, rfl, rfl, rfl, rfl⟩

/-- Walks that go nowhere. -/
instance : Std.Refl Walks := ⟨fun c => (refl (r := Reports) c).walks⟩

/-- Walks in sequence. -/
instance : IsTrans Context Walks where
  trans c d e h k := by
    obtain ⟨found, hd, he⟩ := h.reports
    obtain ⟨more, hd', he'⟩ := k.reports
    refine ⟨⟨found ++ more, ?_, ?_⟩, k.fault_eq.trans h.fault_eq, k.program_eq.trans h.program_eq,
      k.depth_eq.trans h.depth_eq, k.below_eq.trans h.below_eq, k.cls_eq.trans h.cls_eq,
      k.function_eq.trans h.function_eq, k.loops_eq.trans h.loops_eq⟩
    · rw [hd', hd, Diagnostics.append_append]
    · rw [he', he, List.countP_append, Nat.add_assoc]

/-- The next local has another number. -/
lemma walks_renumber (c : Context) (n : Nat) : c.Walks { c with nextLocal := n } :=
  ⟨⟨[], c.diagnostics.append_nil.symm, rfl⟩, rfl, rfl, rfl, rfl, rfl, rfl, rfl⟩

/-! ## Contexts of two analyses -/

/-- **Relations of contexts** that reports keep, and in which the same classes have names. -/
class Parallel (A : Context → Context → Prop) : Prop where
  add : ∀ {c c'} (found), A c c' → A (c.add found) (c'.add found)
  ref_eq : ∀ {c c'}, A c c' → ∀ n,
    (c'.program.class? n).map Class.ref = (c.program.class? n).map Class.ref

/-- Relations of contexts in which locals are numbered in the same way. -/
class Numbering (A : Context → Context → Prop) : Prop extends Parallel A where
  nextLocal_eq : ∀ {c c'}, A c c' → c'.nextLocal = c.nextLocal
  renumber : ∀ {c c'} (n), A c c' → A { c with nextLocal := n } { c' with nextLocal := n }

/-- **Alike contexts**: the same is open, and the same is looked up in their programs. -/
structure Alike (c c' : Context) : Prop where
  class?_eq : ∀ n, c'.program.class? n = c.program.class? n
  classOf_eq : ∀ r, c'.program.classOf r = c.program.classOf r
  foreign?_eq : ∀ n, c'.program.foreign? n = c.program.foreign? n
  scopes_eq : c'.scopes = c.scopes
  cls_eq : c'.cls = c.cls
  function_eq : c'.function = c.function
  loops_eq : c'.loops = c.loops
  nextLocal_eq : c'.nextLocal = c.nextLocal

/-- Contexts stay alike when their locals are renumbered. -/
instance : Numbering Alike where
  add _ h := ⟨h.class?_eq, h.classOf_eq, h.foreign?_eq, h.scopes_eq, h.cls_eq, h.function_eq,
    h.loops_eq, h.nextLocal_eq⟩
  ref_eq h n := by rw [h.class?_eq]
  nextLocal_eq h := h.nextLocal_eq
  renumber _ h := ⟨h.class?_eq, h.classOf_eq, h.foreign?_eq, h.scopes_eq, h.cls_eq, h.function_eq,
    h.loops_eq, rfl⟩

/-- Other scopes, classes, functions and loops are current in both contexts. -/
lemma Alike.enter {c c' : Context} (h : c.Alike c') (scopes : List Scope) (cls : Option ClassRef)
    (function : Option Frame) (loops : Int) (n : Nat) :
    Alike { c with scopes, cls, function, loops, nextLocal := n }
      { c' with scopes, cls, function, loops, nextLocal := n } :=
  ⟨h.class?_eq, h.classOf_eq, h.foreign?_eq, rfl, rfl, rfl, rfl, rfl⟩

/-- **The same is found** between two contexts and two others. -/
def SameFound (c d c' d' : Context) : Prop :=
  ∃ found, d.diagnostics = c.diagnostics.append found ∧
    d'.diagnostics = c'.diagnostics.append found

/-- Nothing is found on both sides. -/
lemma SameFound.refl (c c' : Context) : SameFound c c c' c' :=
  ⟨[], c.diagnostics.append_nil.symm, c'.diagnostics.append_nil.symm⟩

/-- The same is found on both sides. -/
lemma SameFound.add (c c' : Context) (found : List Diagnostic) :
    SameFound c (c.add found) c' (c'.add found) :=
  ⟨found, rfl, rfl⟩

/-- What is the same in two parts is the same in all. -/
lemma SameFound.trans {c d e c' d' e' : Context} (h : SameFound c d c' d')
    (k : SameFound d e d' e') : SameFound c e c' e' := by
  obtain ⟨found, hd, hd'⟩ := h
  obtain ⟨more, he, he'⟩ := k
  exact ⟨found ++ more, by rw [he, hd, Diagnostics.append_append],
    by rw [he', hd', Diagnostics.append_append]⟩

/-- What is the same of two contexts after a step. -/
structure InStep (A : Context → Context → Prop) (c d c' d' : Context) : Prop where
  alike : A d d'
  found : SameFound c d c' d'

/-- Contexts in step, before anything was done. -/
lemma InStep.refl {A : Context → Context → Prop} {c c' : Context} (h : A c c') :
    InStep A c c c' c' :=
  ⟨h, .refl c c'⟩

/-- Contexts stay in step if the same is found in both. -/
lemma InStep.add {A : Context → Context → Prop} [Parallel A] {c c' : Context} (h : A c c')
    (found : List Diagnostic) : InStep A c (c.add found) c' (c'.add found) :=
  ⟨Parallel.add found h, .add c c' found⟩

end Context

namespace Analysis

/-- **Steps of an analysis**: whatever the context is, `G` relates it to the one in the end, and the
result satisfies `R`. In contexts that `A` relates, the result and what is found are the same. -/
structure Steps {α : Type} (A G : Context → Context → Prop) (m : Analysis α) (R : α → Prop) :
    Prop where
  run : ∀ c, G c (m.run c).2 ∧ R (m.run c).1
  alike : ∀ {c c'}, A c c' → (m.run c').1 = (m.run c).1 ∧
    Context.InStep A c (m.run c).2 c' (m.run c').2

section Steps

variable {α β : Type} {A G G' : Context → Context → Prop} {R R' : α → Prop} {S : β → Prop}
  {m : Analysis α} {f : α → Analysis β}

/-- Less may be said about a step and its result. -/
lemma Steps.weaken (hm : Steps A G m R) (hG : ∀ c d, G c d → G' c d) (hR : ∀ a, R a → R' a) :
    Steps A G' m R' :=
  ⟨fun c => ⟨hG _ _ (hm.run c).1, hR _ (hm.run c).2⟩, hm.alike⟩

/-- Less may be said about a result. -/
lemma Steps.result (hm : Steps A G m R) (h : ∀ a, R a → R' a) : Steps A G m R' :=
  hm.weaken (fun _ _ h => h) h

/-- A change of the context that keeps contexts in step. -/
lemma Steps.modify {g : Context → Context} (hg : ∀ c, G c (g c))
    (ha : ∀ {c c'}, A c c' → Context.InStep A c (g c) c' (g c')) :
    Steps A G (modify g : Analysis Unit) fun _ => True :=
  ⟨fun c => ⟨hg c, trivial⟩, fun h => ⟨rfl, ha h⟩⟩

/-- The context is looked at, where the same is to be seen. -/
lemma Steps.get_bind {f : Context → Analysis β} (hf : ∀ c, Steps A G (f c) S)
    (hs : ∀ {c c'}, A c c' → f c' = f c) : Steps A G (get >>= f) S where
  run c := (hf c).run c
  alike {c c'} h := by
    obtain ⟨hvalue, hstep⟩ := (hf c).alike h
    show ((f c').run c').1 = ((f c).run c).1 ∧
      Context.InStep A c ((f c).run c).2 c' ((f c').run c').2
    rw [hs h]
    exact ⟨hvalue, hstep⟩

/-- A result is a step that does nothing. -/
lemma Steps.pure [Std.Refl G] {a : α} (h : R a) : Steps A G (pure a) R :=
  ⟨fun c => ⟨refl (r := G) c, h⟩, fun h => ⟨rfl, .refl h⟩⟩

/-- Analyses one after the other. -/
lemma Steps.bind [IsTrans Context G] (hm : Steps A G m R) (hf : ∀ a, R a → Steps A G (f a) S) :
    Steps A G (m >>= f) S where
  run c := by
    obtain ⟨hG, hR⟩ := hm.run c
    obtain ⟨hG', hS⟩ := (hf _ hR).run (m.run c).2
    exact ⟨Trans.trans hG hG', hS⟩
  alike {c c'} h := by
    obtain ⟨hvalue, hd⟩ := hm.alike h
    obtain ⟨hvalue', he⟩ := (hf _ (hm.run c).2).alike hd.alike
    show ((f (m.run c').1).run (m.run c').2).1 = ((f (m.run c).1).run (m.run c).2).1 ∧
      Context.InStep A c ((f (m.run c).1).run (m.run c).2).2 c'
        ((f (m.run c').1).run (m.run c').2).2
    rw [hvalue]
    exact ⟨hvalue', he.alike, hd.found.trans he.found⟩

/-- An analysis for every entry of a list. -/
lemma Steps.forM [Std.Refl G] [IsTrans Context G] {f : α → Analysis Unit} {l : List α}
    (hf : ∀ a ∈ l, Steps A G (f a) fun _ => True) : Steps A G (l.forM f) fun _ => True := by
  induction l with
  | nil => exact Steps.pure trivial
  | cons a l ih =>
    exact Steps.bind (hf a List.mem_cons_self) fun _ _ =>
      ih fun b hb => hf b (List.mem_cons_of_mem a hb)

end Steps

section Reports

variable {β : Type} {S : β → Prop} {A : Context → Context → Prop} [Context.Parallel A]

section

variable (kind : DiagnosticKind) (pos : Position) (message : String)

/-- An error is reported. -/
lemma report_steps : Steps A Context.Reports (report kind pos message) fun _ => True :=
  Steps.modify (fun c => ⟨_, c.report_eq_add kind pos message⟩) fun h => by
    simpa only [Context.report_eq_add] using Context.InStep.add h _

/-- A warning is given. -/
lemma warn_steps : Steps A Context.Reports (warn kind pos message) fun _ => True :=
  Steps.modify (fun c => ⟨_, c.warn_eq_add kind pos message⟩) fun h => by
    simpa only [Context.warn_eq_add] using Context.InStep.add h _

/-- An error is reported before something else. -/
lemma report_bind_steps {f : Unit → Analysis β} (hf : Steps A Context.Reports (f ()) S) :
    Steps A Context.Reports (report kind pos message >>= f) S :=
  Steps.bind (report_steps kind pos message) fun _ _ => hf

end

/-- A check that may report something, and then goes on. -/
lemma report_if_steps {f : Unit → Analysis β} {b : Prop} [Decidable b]
    {kind : DiagnosticKind} {pos : Position} {message : String}
    (hf : Steps A Context.Reports (f ()) S) :
    Steps A Context.Reports (if b then report kind pos message >>= f else f ()) S := by
  split
  · exact report_bind_steps _ _ _ hf
  · exact hf

/-! ## Types and calls -/

/-- Types are looked up without any change but reports. -/
lemma resolveType_steps : ∀ t : TypeExpr, Steps A Context.Reports (resolveType t) fun _ => True
  | .name pos n => by
    unfold resolveType
    split
    · exact Steps.pure trivial
    · refine Steps.get_bind (fun c => ?_) fun {c c'} h => ?_
      · split
        · exact Steps.pure trivial
        · exact report_bind_steps _ _ _ (Steps.pure trivial)
      · have href := Context.Parallel.ref_eq h n
        generalize c.program.class? n = x, c'.program.class? n = x' at href
        cases x <;> cases x'
        · rfl
        · simp at href
        · simp at href
        · exact congrArg (fun r => Pure.pure (Ty.ofClass r)) (Option.some.inj href)
  | .container pos kind inner => by
    refine Steps.bind (resolveType_steps inner) fun t _ => ?_
    split
    · exact Steps.pure trivial
    split
    · exact Steps.pure trivial
    · exact Steps.pure trivial
    split
    · exact Steps.pure trivial
    · split
      · exact Steps.pure trivial
      · exact report_bind_steps _ _ _ (Steps.pure trivial)
    · exact report_bind_steps _ _ _ (Steps.pure trivial)

end Reports

/-- A single value is demanded with reports only. -/
lemma single_steps (x : TExpr) : Steps Context.Alike Context.Reports (single x) fun _ => True := by
  unfold single
  split
  · exact Steps.pure trivial
  · exact report_bind_steps _ _ _ (Steps.pure trivial)

/-- Arguments of `ref` parameters are checked with reports only. -/
lemma checkRefArgs_steps (f : MemberFunction) (args : List TExpr) :
    Steps Context.Alike Context.Reports (checkRefArgs f args) fun _ => True := by
  refine Steps.forM fun q _ => ?_
  obtain ⟨⟨a, x⟩, i⟩ := q
  dsimp only
  split
  · split
    · split
      · exact report_steps _ _ _
      · exact Steps.pure trivial
    · split
      · exact report_steps _ _ _
      · exact Steps.pure trivial
  · exact Steps.pure trivial

/-- Operators of classes are looked up with reports only. -/
lemma operator_steps (pos : Position) (r : ClassRef) (op : String) (operands : List TExpr)
    (ts : List Ty) :
    Steps Context.Alike Context.Reports (operator pos r op operands ts) fun _ => True := by
  refine Steps.get_bind (fun c => ?_) fun h => by simp only [h.classOf_eq]
  split
  · exact report_bind_steps _ _ _ (Steps.pure trivial)
  · exact Steps.bind (checkRefArgs_steps _ _) fun _ _ => Steps.pure trivial

/-! ## Expressions -/

/-- A unary operator keeps its operand. -/
lemma unary_steps (pos : Position) (op : UnaryOp) (x : TExpr) :
    Steps Context.Alike Context.Reports (unary pos op x) fun y =>
      ∃ ts call, y = .unary pos ts op call x := by
  refine Steps.bind (single_steps x) fun t _ => ?_
  split
  · exact Steps.pure ⟨_, _, rfl⟩
  split
  · exact Steps.bind (operator_steps _ _ _ _ _) fun _ _ => Steps.pure ⟨_, _, rfl⟩
  · split
    · exact Steps.pure ⟨_, _, rfl⟩
    · exact report_bind_steps _ _ _ (Steps.pure ⟨_, _, rfl⟩)

/-- A binary operator keeps its operands. -/
lemma binary_steps (pos : Position) (op : BinaryOp) (x y : TExpr) (t u : Ty) :
    Steps Context.Alike Context.Reports (binary pos op x y t u) fun z =>
      ∃ ts call, z = .binary pos ts op call x y := by
  unfold binary
  split
  · exact Steps.pure ⟨_, _, rfl⟩
  split
  · exact Steps.bind (operator_steps _ _ _ _ _) fun _ _ => Steps.pure ⟨_, _, rfl⟩
  · split
    · exact Steps.pure ⟨_, _, rfl⟩
    · exact report_bind_steps _ _ _ (Steps.pure ⟨_, _, rfl⟩)

/-- A member keeps what it is a member of. -/
lemma member_steps (pos : Position) (x : TExpr) (name : String) :
    Steps Context.Alike Context.Reports (member pos x name) fun y =>
      ∃ ts v foldable, y = .member pos ts x name v foldable := by
  refine Steps.bind (single_steps x) fun t _ => ?_
  split
  · exact Steps.pure ⟨_, _, _, rfl⟩
  split
  · split
    · exact Steps.pure ⟨_, _, _, rfl⟩
    · exact report_bind_steps _ _ _ (Steps.pure ⟨_, _, _, rfl⟩)
  · refine Steps.get_bind (fun c => ?_) fun h => by simp only [h.classOf_eq]
    split
    · exact report_bind_steps _ _ _ (Steps.pure ⟨_, _, _, rfl⟩)
    · exact Steps.pure ⟨_, _, _, rfl⟩
  · exact report_bind_steps _ _ _ (Steps.pure ⟨_, _, _, rfl⟩)

/-- An element keeps the container and the index. -/
lemma index_steps (pos : Position) (x i : TExpr) (t u : Ty) :
    Steps Context.Alike Context.Reports (index pos x i t u) fun y =>
      ∃ ts, y = .index pos ts x i := by
  simp only [index]
  refine report_if_steps ?_
  split
  · exact Steps.pure ⟨_, rfl⟩
  · exact Steps.pure ⟨_, rfl⟩
  · exact report_bind_steps _ _ _ (Steps.pure ⟨_, rfl⟩)

/-- What is behind a pointer keeps the pointer. -/
lemma deref_steps (pos : Position) (x : TExpr) :
    Steps Context.Alike Context.Reports (deref pos x) fun y => ∃ ts, y = .deref pos ts x := by
  refine Steps.bind (single_steps x) fun t _ => ?_
  split
  · exact Steps.pure ⟨_, rfl⟩
  · exact Steps.pure ⟨_, rfl⟩
  · exact report_bind_steps _ _ _ (Steps.pure ⟨_, rfl⟩)

/-- A method call keeps the instance and the arguments. -/
lemma method_steps (pos : Position) (x : TExpr) (name : String) (args : List TExpr) (t : Ty)
    (ts : List Ty) :
    Steps Context.Alike Context.Reports (method pos x name args t ts) fun y =>
      ∃ ts call, y = .method pos ts x name args call := by
  unfold method
  split
  · exact Steps.pure ⟨_, _, rfl⟩
  split
  · exact report_bind_steps _ _ _ (Steps.pure ⟨_, _, rfl⟩)
  refine Steps.get_bind (fun c => ?_) fun h => by simp only [h.classOf_eq]
  split
  · exact report_bind_steps _ _ _ (Steps.pure ⟨_, _, rfl⟩)
  · exact report_if_steps (Steps.bind (checkRefArgs_steps _ _) fun _ _ => Steps.pure ⟨_, _, rfl⟩)

/-- A call of a routine keeps its name and arguments. -/
lemma routineOf_steps (pos : Position) (owner : Option String) (name : String)
    (args : List TExpr) (k : Class) (ts : List Ty) :
    Steps Context.Alike Context.Reports (routineOf pos owner name args k ts) fun y =>
      ∃ ts call, y = .routine pos ts owner name args call := by
  unfold routineOf
  split
  · exact Steps.pure ⟨_, _, rfl⟩
  split
  · exact report_bind_steps _ _ _ (Steps.pure ⟨_, _, rfl⟩)
  · exact Steps.bind (checkRefArgs_steps _ _) fun _ _ => Steps.pure ⟨_, _, rfl⟩

/-- A conversion keeps its argument. -/
lemma conversion_steps (pos : Position) (name : String) (args : List TExpr) (k : ScalarKind)
    (ts : List Ty) :
    Steps Context.Alike Context.Reports (conversion pos name args k ts) fun y =>
      ∃ ts call, y = .routine pos ts none name args call := by
  unfold conversion
  split
  · exact Steps.pure ⟨_, _, rfl⟩
  split
  · split
    · exact Steps.pure ⟨_, _, rfl⟩
    · exact report_bind_steps _ _ _ (Steps.pure ⟨_, _, rfl⟩)
  · exact report_bind_steps _ _ _ (Steps.pure ⟨_, _, rfl⟩)

/-- The construction of an instance keeps its arguments. -/
lemma construction_steps (pos : Position) (name : String) (args : List TExpr) (k : Class)
    (ts : List Ty) :
    Steps Context.Alike Context.Reports (construction pos name args k ts) fun y =>
      ∃ ts call, y = .routine pos ts none name args call := by
  unfold construction
  split
  · exact Steps.pure ⟨_, _, rfl⟩
  split
  · exact report_bind_steps _ _ _ (Steps.pure ⟨_, _, rfl⟩)
  · exact Steps.bind (checkRefArgs_steps _ _) fun _ _ => Steps.pure ⟨_, _, rfl⟩

/-- A call by a name keeps that name and the arguments, whatever it turns out to be. -/
lemma routine_steps (pos : Position) (owner : Option String) (name : String)
    (args : List TExpr) (ts : List Ty) :
    Steps Context.Alike Context.Reports (routine pos owner name args ts) fun y =>
      ∃ ts call, y = .routine pos ts owner name args call := by
  refine Steps.get_bind (fun c => ?_) fun {c c'} h => by
    simp only [h.class?_eq, h.cls_eq, funext h.classOf_eq]
  split
  · split
    · exact routineOf_steps _ _ _ _ _ _
    · exact report_bind_steps _ _ _ (Steps.pure ⟨_, _, rfl⟩)
  · split
    · exact conversion_steps _ _ _ _ _
    · exact construction_steps _ _ _ _ _
    · split
      · exact routineOf_steps _ _ _ _ _ _
      · exact report_bind_steps _ _ _ (Steps.pure ⟨_, _, rfl⟩)

/-- A call of a foreign function keeps its arguments. -/
lemma ccall_steps (pos : Position) (name : String) (args : List TExpr) (ts : List Ty) :
    Steps Context.Alike Context.Reports (ccall pos name args ts) fun y =>
      ∃ ts call, y = .ccall pos ts name args call := by
  refine Steps.get_bind (fun c => ?_) fun h => by simp only [h.foreign?_eq]
  split
  · exact report_bind_steps _ _ _ (Steps.pure ⟨_, _, rfl⟩)
  · split
    · exact Steps.pure ⟨_, _, rfl⟩
    split
    · exact Steps.pure ⟨_, _, rfl⟩
    · exact report_bind_steps _ _ _ (Steps.pure ⟨_, _, rfl⟩)

/-- A literal stays the same literal. -/
lemma literal_steps (pos : Position) (l : Literal) :
    Steps Context.Alike Context.Reports (literal pos l) fun y => ∃ ts, y = .literal pos ts l := by
  obtain ⟨k, hk⟩ := l.exists_ofName?
  simp only [literal, hk]
  split
  · exact report_if_steps (Steps.pure ⟨_, rfl⟩)
  · exact Steps.pure ⟨_, rfl⟩

mutual

/-- **Every part of an expression is visited**, and only reports are made.

**Proof sketch.** By recursion on the expression: its parts are elaborated before it is looked at
itself, and whatever is found about it, it keeps its parts. -/
theorem expr_steps : ∀ e : Expr, Steps Context.Alike Context.Reports (expr e) fun x => x.erase = e
  | .ident pos n => by
    refine Steps.get_bind (fun c => ?_) fun h => by simp only [Context.lookup?, h.scopes_eq]
    split
    · exact Steps.pure rfl
    · exact report_bind_steps _ _ _ (Steps.pure rfl)
  | .self pos => by
    refine Steps.get_bind (fun c => ?_) fun h => by simp only [h.function_eq]
    split
    · exact Steps.pure rfl
    · exact report_bind_steps _ _ _ (Steps.pure rfl)
  | .literal pos l => (literal_steps pos l).result (by rintro _ ⟨_, rfl⟩; rfl)
  | .unary pos op x =>
    Steps.bind (expr_steps x) fun x' hx =>
      (unary_steps pos op x').result (by rintro _ ⟨_, _, rfl⟩; exact hx ▸ rfl)
  | .binary pos op x y =>
    Steps.bind (expr_steps x) fun x' hx =>
    Steps.bind (single_steps x') fun t _ =>
    Steps.bind (expr_steps y) fun y' hy =>
    Steps.bind (single_steps y') fun u _ =>
      (binary_steps pos op x' y' t u).result (by rintro _ ⟨_, _, rfl⟩; exact hx ▸ hy ▸ rfl)
  | .member pos x n =>
    Steps.bind (expr_steps x) fun x' hx =>
      (member_steps pos x' n).result (by rintro _ ⟨_, _, _, rfl⟩; exact hx ▸ rfl)
  | .index pos x i =>
    Steps.bind (expr_steps x) fun x' hx =>
    Steps.bind (single_steps x') fun t _ =>
    Steps.bind (expr_steps i) fun i' hi =>
    Steps.bind (single_steps i') fun u _ =>
      (index_steps pos x' i' t u).result (by rintro _ ⟨_, rfl⟩; exact hx ▸ hi ▸ rfl)
  | .deref pos x =>
    Steps.bind (expr_steps x) fun x' hx =>
      (deref_steps pos x').result (by rintro _ ⟨_, rfl⟩; exact hx ▸ rfl)
  | .method pos x n args =>
    Steps.bind (expr_steps x) fun x' hx =>
    Steps.bind (single_steps x') fun t _ =>
    Steps.bind (arguments_steps args) fun (args', ts) hargs =>
      (method_steps pos x' n args' t ts).result
        (by rintro _ ⟨_, _, rfl⟩; exact hx ▸ hargs ▸ rfl)
  | .routine pos owner n args =>
    Steps.bind (arguments_steps args) fun (args', ts) hargs =>
      (routine_steps pos owner n args' ts).result (by rintro _ ⟨_, _, rfl⟩; exact hargs ▸ rfl)
  | .ccall pos n args =>
    Steps.bind (arguments_steps args) fun (args', ts) hargs =>
      (ccall_steps pos n args' ts).result (by rintro _ ⟨_, _, rfl⟩; exact hargs ▸ rfl)

/-- Every argument is visited. -/
theorem arguments_steps : ∀ es : List Expr,
    Steps Context.Alike Context.Reports (arguments es) fun q => TExpr.eraseAll q.1 = es
  | [] => Steps.pure rfl
  | e :: es =>
    Steps.bind (expr_steps e) fun e' he =>
    Steps.bind (single_steps e') fun _ _ =>
    Steps.bind (arguments_steps es) fun _ hes => Steps.pure (congrArg₂ List.cons he hes)

end

/-! ## Pairs -/

/-- A default value is looked for with reports only. -/
lemma defaultInit_steps (g : TTarget) (l : Local) :
    Steps Context.Alike Context.Reports (defaultInit g l) fun _ => True := by
  simp only [defaultInit]
  refine report_if_steps ?_
  split
  · exact Steps.pure trivial
  · exact Steps.pure trivial
  · exact Steps.pure trivial
  · exact Steps.pure trivial
  · refine Steps.get_bind (fun c => ?_) fun h => by simp only [h.classOf_eq]
    split
    · exact Steps.pure trivial
    · exact report_bind_steps _ _ _ (Steps.pure trivial)

/-- Nothing is built in that takes no value or several values. -/
lemma gather_steps (g : TTarget) (t : Ty) {vs : List PairValue} (hvs : vs.length ≠ 1) :
    Steps Context.Alike Context.Reports (gather g t vs) fun _ => True := by
  simp only [gather]
  split
  · exact Steps.pure trivial
  rename_i herr
  refine Steps.get_bind (fun c => ?_) fun h => by simp only [funext h.classOf_eq]
  split
  · exact report_bind_steps _ _ _ (Steps.pure trivial)
  · exact Steps.pure trivial
  · rename_i k hk hcall
    obtain ht | ⟨m, r, f, -, hf, -⟩ | ⟨a, ha, -⟩ := construct_cases hcall
    · simp [ht] at herr
    · exact absurd hf (hk f)
    · exact absurd (by simpa using congrArg List.length ha) hvs

/-- A pair is classified with reports only. -/
lemma classify_steps (g : TTarget) (t : Ty) (source : TExpr) (v : PairValue) :
    Steps Context.Alike Context.Reports (classify g t source v) fun _ => True := by
  simp only [classify]
  split
  · exact Steps.pure trivial
  split
  · exact Steps.pure trivial
  refine Steps.get_bind (fun c => ?_) fun h => by simp only [funext h.classOf_eq]
  split
  · split <;> exact report_bind_steps _ _ _ (Steps.pure trivial)
  · exact Steps.pure trivial
  · exact Steps.pure trivial
  · split
    · exact report_bind_steps _ _ _ (Steps.pure trivial)
    · exact Steps.pure trivial
  · exact Steps.pure trivial
  · exact Steps.pure trivial

/-- Pairs of a target and a value are classified with reports only. -/
lemma oneByOne_steps (sources : List TExpr) : ∀ (ts : List (TTarget × Ty)) (vs : List PairValue),
    Steps Context.Alike Context.Reports (oneByOne sources ts vs) fun _ => True
  | [], _ => Steps.pure trivial
  | _ :: _, [] => Steps.pure trivial
  | (g, t) :: ts, v :: vs => by
    rw [oneByOne]
    split
    · exact Steps.bind (classify_steps g t _ v) fun _ _ =>
        Steps.bind (oneByOne_steps sources ts vs) fun _ _ => Steps.pure trivial
    · exact Steps.bind (R := fun _ => True) (Steps.pure trivial) fun _ _ =>
        Steps.bind (oneByOne_steps sources ts vs) fun _ _ => Steps.pure trivial

/-- All targets of an assignment with values are classified with reports only. -/
lemma withValues_steps (pos : Position) (ts : List (TTarget × Ty)) (sources : List TExpr)
    (vs : List PairValue) :
    Steps Context.Alike Context.Reports (withValues pos ts sources vs) fun _ => True := by
  unfold withValues
  split
  · split
    · exact oneByOne_steps sources _ vs
    · exact Steps.bind (gather_steps _ _ ‹_›) fun _ _ => Steps.pure trivial
  · split
    · exact oneByOne_steps sources ts vs
    · exact report_bind_steps _ _ _ (Steps.pure trivial)

/-- Targets without values are classified with reports only. -/
lemma withoutValues_steps : ∀ gs : List TTarget,
    Steps Context.Alike Context.Reports (withoutValues gs) fun _ => True
  | [] => Steps.pure trivial
  | g :: gs => by
    unfold withoutValues
    split
    · exact Steps.bind (defaultInit_steps _ _) fun _ _ =>
        Steps.bind (withoutValues_steps gs) fun _ _ => Steps.pure trivial
    · split
      · exact Steps.bind (withoutValues_steps gs) fun _ _ => Steps.pure trivial
      · exact Steps.bind (warn_steps _ _ _) fun _ _ => withoutValues_steps gs

/-! ## Targets and values -/

/-- Targets are checked to be writable with reports only. -/
lemma checkWritable_steps (x : TExpr) (t : Ty) :
    Steps Context.Alike Context.Reports (checkWritable x t) fun _ => True := by
  unfold checkWritable
  split
  · exact Steps.pure trivial
  split
  · exact report_steps _ _ _
  · split
    · exact report_steps _ _ _
    · exact Steps.pure trivial

/-- An analysis that only reports, as a part of one that does more. -/
lemma Steps.walks {α : Type} {A : Context → Context → Prop} {m : Analysis α} {R : α → Prop}
    (hm : Steps A Context.Reports m R) : Steps A Context.Walks m R :=
  hm.weaken (fun _ _ => Context.Reports.walks) fun _ h => h

section Numbers

variable {A : Context → Context → Prop} [Context.Numbering A]

/-- Contexts stay in step if locals are numbered from the same number on. -/
lemma inStep_renumber {c c' : Context} (h : A c c') (n : Nat) :
    Context.InStep A c { c with nextLocal := n } c' { c' with nextLocal := n } :=
  ⟨Context.Numbering.renumber n h, Context.SameFound.refl c c'⟩

/-- The number of the first local is the same on both sides. -/
lemma firstLocal_steps : Steps A Context.Walks firstLocal fun _ => True where
  run c := ⟨c.walks_renumber 1, trivial⟩
  alike h := ⟨rfl, inStep_renumber h 1⟩

/-- A local gets a number, the same on both sides. -/
lemma freshLocal_steps : Steps A Context.Walks freshLocal fun _ => True where
  run c := ⟨c.walks_renumber _, trivial⟩
  alike {c c'} h := by
    have hn : c'.nextLocal = c.nextLocal := Context.Numbering.nextLocal_eq h
    show c'.nextLocal = c.nextLocal ∧ Context.InStep A c { c with nextLocal := c.nextLocal + 1 } c'
      { c' with nextLocal := c'.nextLocal + 1 }
    rw [hn]
    exact ⟨rfl, inStep_renumber h _⟩

end Numbers

/-- A target keeps its syntax. -/
lemma target_steps (hasValues : Bool) : ∀ g : Target,
    Steps Context.Alike Context.Walks (target hasValues g) fun q => q.1.erase = g
  | .decl g =>
    Steps.bind (resolveType_steps g.type).walks fun _ _ =>
    Steps.bind freshLocal_steps fun _ _ => Steps.pure rfl
  | .expr e => by
    refine Steps.bind (expr_steps e).walks fun x hx => ?_
    split
    · exact Steps.bind (single_steps x).walks fun t _ =>
        Steps.bind (checkWritable_steps x t).walks fun _ _ => Steps.pure (congrArg Target.expr hx)
    · exact Steps.pure (congrArg Target.expr hx)

/-- The targets of an assignment keep their syntax. -/
lemma targets_steps (hasValues : Bool) : ∀ gs : List Target,
    Steps Context.Alike Context.Walks (targets hasValues gs) fun qs =>
      (qs.map Prod.fst).map TTarget.erase = gs
  | [] => Steps.pure rfl
  | g :: gs =>
    Steps.bind (target_steps hasValues g) fun _ hg =>
    Steps.bind (targets_steps hasValues gs) fun _ hgs => Steps.pure (congrArg₂ List.cons hg hgs)

/-- The values of an expression are listed with reports only. -/
lemma valuesOf_steps (source : Nat) (x : TExpr) :
    Steps Context.Alike Context.Reports (valuesOf source x) fun _ => True := by
  unfold valuesOf
  split
  · exact report_bind_steps _ _ _ (Steps.pure trivial)
  · exact Steps.pure trivial

/-- Values on the right keep their syntax. -/
lemma values_steps : ∀ (es : List Expr) (source : Nat),
    Steps Context.Alike Context.Reports (values source es) fun q => q.1.map TExpr.erase = es
  | [], _ => Steps.pure rfl
  | e :: es, source =>
    Steps.bind (expr_steps e) fun x hx =>
    Steps.bind (valuesOf_steps source x) fun _ _ =>
    Steps.bind (values_steps es (source + 1)) fun _ hes =>
      Steps.pure (congrArg₂ List.cons hx hes)

/-- Binding a local adds it to the current scope, or reports it. -/
lemma insertLocal_walks (c : Context) (l : Local) : c.Walks (c.insertLocal l).1 := by
  unfold Context.insertLocal
  split
  · exact Context.Reports.walks ⟨_, c.report_eq_add _ _ _⟩
  split
  · exact refl c
  · rename_i s below hs
    split
    · refine ⟨⟨[], c.diagnostics.append_nil.symm, rfl⟩, rfl, rfl, ?_, ?_, rfl, rfl, rfl⟩
      · simp [Context.depth, hs]
      · simp [hs]
    · exact Context.Reports.walks ⟨_, c.report_eq_add _ _ _⟩

/-- Locals are bound in the same way in alike contexts. -/
lemma insertLocal_inStep (l : Local) {c c' : Context} (h : c.Alike c') :
    Context.InStep Context.Alike c (c.insertLocal l).1 c' (c'.insertLocal l).1 := by
  have hroot : c'.outerRoot? = c.outerRoot? := by
    unfold Context.outerRoot? Context.depth
    rw [h.function_eq, h.scopes_eq]
  unfold Context.insertLocal
  rw [hroot, h.scopes_eq]
  split
  · simpa only [Context.report_eq_add] using Context.InStep.add h _
  split
  · exact .refl h
  · split
    · exact ⟨⟨h.class?_eq, h.classOf_eq, h.foreign?_eq, rfl, h.cls_eq, h.function_eq, h.loops_eq,
        h.nextLocal_eq⟩, .refl c c'⟩
    · simpa only [Context.report_eq_add] using Context.InStep.add h _

/-- The locals that targets declare are put in the scope. -/
lemma bindTargets_steps : ∀ qs : List (TTarget × Ty),
    Steps Context.Alike Context.Walks
      (forIn qs PUnit.unit fun q _ => match q with
        | (g, _) => match g.local? with
          | some l => do
            modify fun d => (d.insertLocal l).1
            pure (ForInStep.yield PUnit.unit)
          | none => pure (ForInStep.yield PUnit.unit)) fun _ => True
  | [] => Steps.pure trivial
  | (g, t) :: qs => by
    rw [List.forIn_cons]
    cases hg : g.local? with
    | none =>
      simp only [hg, pure_bind]
      exact bindTargets_steps qs
    | some l =>
      simp only [hg, bind_assoc, pure_bind]
      exact Steps.bind (Steps.modify (fun c => insertLocal_walks c l) (insertLocal_inStep l))
        fun _ _ => bindTargets_steps qs

/-! ## Statements -/

/-- Every target and value of an assignment is visited. -/
theorem assign_steps (pos : Position) (gs : List Target) (es : List Expr) :
    Steps Context.Alike Context.Walks (assign pos gs es) fun s => s.erase = .assign pos gs es := by
  refine Steps.bind (targets_steps _ gs) fun ts hts => ?_
  refine Steps.bind (values_steps es 0).walks fun (sources, vs) hvs => ?_
  refine Steps.bind (bindTargets_steps ts) fun _ _ => ?_
  have whole : ∀ {ps : List Pair} {ds : List TExpr},
      (TStmt.assign pos (ts.map Prod.fst) sources ps ds).erase = .assign pos gs es :=
    congrArg₂ (Stmt.assign pos) hts hvs
  split
  · exact Steps.bind (withoutValues_steps _).walks fun _ _ => Steps.pure whole
  · exact Steps.bind (withValues_steps _ _ _ _).walks fun _ _ => Steps.pure whole

/-- The scope that was opened is closed. -/
lemma inScope_steps {α : Type} {m : Analysis α} {R : α → Prop}
    (hm : Steps Context.Alike Context.Walks m R) :
    Steps Context.Alike Context.Walks (inScope m) fun q => R q.2 := by
  have hleft : ∀ c : Context, (m.run c.enterScope.1).2.left c.enterScope.2 =
      { (m.run c.enterScope.1).2 with scopes := (m.run c.enterScope.1).2.scopes.tail } := by
    intro c
    have hdepth : (m.run c.enterScope.1).2.depth = c.depth + 1 := (hm.run c.enterScope.1).1.depth_eq
    rw [show c.enterScope.2 = .scope (c.depth + 1) from rfl, Context.left_scope hdepth]
  refine ⟨fun c => ?_, fun {c c'} h => ?_⟩
  · obtain ⟨h, hR⟩ := hm.run c.enterScope.1
    refine ⟨?_, hR⟩
    show c.Walks ((m.run c.enterScope.1).2.left c.enterScope.2)
    rw [hleft]
    have hscopes : (m.run c.enterScope.1).2.scopes.tail = c.scopes := h.below_eq
    exact ⟨h.reports, h.fault_eq, h.program_eq, congrArg List.length hscopes,
      congrArg List.tail hscopes, h.cls_eq, h.function_eq, h.loops_eq⟩
  · have henter : c.enterScope.1.Alike c'.enterScope.1 :=
      ⟨h.class?_eq, h.classOf_eq, h.foreign?_eq, by simp [Context.enterScope, h.scopes_eq],
        h.cls_eq, h.function_eq, h.loops_eq, h.nextLocal_eq⟩
    obtain ⟨hvalue, hd, hfound⟩ := hm.alike henter
    show ((m.run c'.enterScope.1).2.scopes.head?.getD {}, (m.run c'.enterScope.1).1) =
        ((m.run c.enterScope.1).2.scopes.head?.getD {}, (m.run c.enterScope.1).1) ∧
      Context.InStep Context.Alike c ((m.run c.enterScope.1).2.left c.enterScope.2) c'
        ((m.run c'.enterScope.1).2.left c'.enterScope.2)
    rw [hleft, hleft]
    exact ⟨by rw [hvalue, hd.scopes_eq], ⟨hd.class?_eq, hd.classOf_eq, hd.foreign?_eq,
      congrArg List.tail hd.scopes_eq, hd.cls_eq, hd.function_eq, hd.loops_eq, hd.nextLocal_eq⟩,
      hfound⟩

/-- The loop that was opened is closed. -/
lemma inLoop_steps {α : Type} {m : Analysis α} {R : α → Prop}
    (hm : Steps Context.Alike Context.Walks m R) :
    Steps Context.Alike Context.Walks (inLoop m) R := by
  refine ⟨fun c => ?_, fun {c c'} h => ?_⟩
  · obtain ⟨h, hR⟩ := hm.run c.enterLoop.1
    refine ⟨?_, hR⟩
    show c.Walks { (m.run c.enterLoop.1).2 with loops := (m.run c.enterLoop.1).2.loops - 1 }
    exact ⟨h.reports, h.fault_eq, h.program_eq, h.depth_eq, h.below_eq, h.cls_eq, h.function_eq,
      by rw [h.loops_eq]; exact Int.add_sub_cancel c.loops 1⟩
  · have henter : c.enterLoop.1.Alike c'.enterLoop.1 :=
      ⟨h.class?_eq, h.classOf_eq, h.foreign?_eq, h.scopes_eq, h.cls_eq, h.function_eq,
        congrArg (· + 1) h.loops_eq, h.nextLocal_eq⟩
    obtain ⟨hvalue, hd, hfound⟩ := hm.alike henter
    exact ⟨hvalue, ⟨hd.class?_eq, hd.classOf_eq, hd.foreign?_eq, hd.scopes_eq, hd.cls_eq,
      hd.function_eq, congrArg (· - 1) hd.loops_eq, hd.nextLocal_eq⟩, hfound⟩

/-- A condition keeps its syntax. -/
lemma condition_steps (e : Expr) :
    Steps Context.Alike Context.Reports (condition e) fun x => x.erase = e := by
  refine Steps.bind (expr_steps e) fun x hx => ?_
  exact Steps.bind (single_steps x) fun t _ => report_if_steps (Steps.pure hx)

/-- Jumps are checked with reports only. -/
lemma checkJump_steps (pos : Position) (word : String) :
    Steps Context.Alike Context.Reports (checkJump pos word) fun _ => True := by
  refine Steps.get_bind (fun c => ?_) fun {c c'} h => by
    have hloop : c'.inLoop = c.inLoop := by rw [Context.inLoop, h.loops_eq, Context.inLoop]
    simp only [hloop]
  split
  · exact report_steps _ _ _
  · exact Steps.pure trivial

mutual

/-- **Every part of a statement is visited**, and its scopes and loops are left again. -/
theorem statement_steps : ∀ s : Stmt,
    Steps Context.Alike Context.Walks (statement s) fun r => r.erase = s
  | .assign pos gs es => assign_steps pos gs es
  | .ifThen _ cond body =>
    Steps.bind (condition_steps cond).walks fun _ hc =>
    Steps.bind (inScope_steps (statements_steps body)) fun _ hb => Steps.pure (hc ▸ hb ▸ rfl)
  | .ifElse _ cond body other =>
    Steps.bind (condition_steps cond).walks fun _ hc =>
    Steps.bind (inScope_steps (statements_steps body)) fun _ hb =>
    Steps.bind (inScope_steps (statements_steps other)) fun _ ho =>
      Steps.pure (hc ▸ hb ▸ ho ▸ rfl)
  | .whileLoop _ cond body =>
    Steps.bind (condition_steps cond).walks fun _ hc =>
    Steps.bind (inLoop_steps (inScope_steps (statements_steps body))) fun _ hb =>
      Steps.pure (hc ▸ hb ▸ rfl)
  | .repeatUntil _ body cond =>
    Steps.bind (inScope_steps (R := fun q : List TStmt × TExpr =>
        TStmt.eraseAll q.1 = body ∧ q.2.erase = cond)
      (Steps.bind (inLoop_steps (statements_steps body)) fun _ hb =>
       Steps.bind (condition_steps cond).walks fun _ hc => Steps.pure ⟨hb, hc⟩))
      fun _ h => Steps.pure (h.1 ▸ h.2 ▸ rfl)
  | .block _ body =>
    Steps.bind (inScope_steps (statements_steps body)) fun _ hb => Steps.pure (hb ▸ rfl)
  | .ret _ => Steps.pure rfl
  | .brk pos => Steps.bind (checkJump_steps pos "break").walks fun _ _ => Steps.pure rfl
  | .cont pos => Steps.bind (checkJump_steps pos "continue").walks fun _ _ => Steps.pure rfl

/-- **Every statement is visited.** -/
theorem statements_steps : ∀ ss : List Stmt,
    Steps Context.Alike Context.Walks (statements ss) fun rs => TStmt.eraseAll rs = ss
  | [] => Steps.pure rfl
  | s :: ss =>
    Steps.bind (statement_steps s) fun _ hs =>
    Steps.bind (statements_steps ss) fun _ hss => Steps.pure (congrArg₂ List.cons hs hss)

end

end Analysis

end Lane
