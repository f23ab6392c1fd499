import Lane.Proofs.Analysis.Typed

set_option relaxedAutoImplicit false
set_option autoImplicit false

/-!
# Parts of elaborated syntax

The expressions inside an expression, and what holds of all assignments and conditions in
statements.

## Main definitions

* `Lane.TExpr.Has`: the expressions inside an expression.
* `Lane.TExpr.NamesIn`: expressions whose names are bound to certain locals.
* `Lane.TStmt.Each`, `Lane.TStmt.EachAll`: statements whose assignments and conditions satisfy a
  condition.

## Main results

* `Lane.TStmt.EachAll.of_typed`: the condition on assignments may make use of their types.
-/

namespace Lane

/-! ## Expressions inside expressions -/

namespace TExpr

/-- The expressions that an expression is made of. -/
def parts : TExpr → List TExpr
  | .ident .. | .self .. | .literal .. => []
  | .unary _ _ _ _ x | .member _ _ x _ _ _ | .deref _ _ x => [x]
  | .binary _ _ _ _ x y | .index _ _ x y => [x, y]
  | .method _ _ x _ args _ => x :: args
  | .routine _ _ _ _ args _ | .ccall _ _ _ args _ => args

/-- **The expressions inside an expression**, itself among them. -/
inductive Has : TExpr → TExpr → Prop
  | refl (x : TExpr) : Has x x
  | part {x y z : TExpr} (hy : y ∈ x.parts) (hz : Has y z) : Has x z

variable {p : Program} {Γ : List Local} {x y : TExpr}

/-- The parts of a typed expression are typed. -/
lemma Typed.of_mem_parts (hx : x.Typed p Γ) (hy : y ∈ x.parts) : y.Typed p Γ := by
  cases hx with
  | ident | self | literal => cases hy
  | unary hx | unaryCall hx | size hx | member hx | deref hx | convert hx =>
    exact List.mem_singleton.1 hy ▸ hx
  | binary hx hx' | binaryCall hx hx' | index hx hx' =>
    obtain rfl | hy := List.mem_cons.1 hy
    · exact hx
    · exact List.mem_singleton.1 hy ▸ hx'
  | method hx hargs =>
    obtain rfl | hy := List.mem_cons.1 hy
    · exact hx
    · exact hargs y hy
  | routine hargs | construct hargs | ccall hargs => exact hargs y hy

/-- All that is inside a typed expression is typed. -/
lemma Typed.of_has (hx : x.Typed p Γ) (h : x.Has y) : y.Typed p Γ := by
  induction h with
  | refl => exact hx
  | part hy _ ih => exact ih (hx.of_mem_parts hy)

/-- What is inside an expression is the expression itself, or inside one of its parts. -/
lemma has_iff {z : TExpr} : x.Has z ↔ z = x ∨ ∃ y ∈ x.parts, y.Has z := by
  constructor
  · rintro (_ | ⟨hy, hz⟩)
    · exact .inl rfl
    · exact .inr ⟨_, hy, hz⟩
  · rintro (rfl | ⟨y, hy, hz⟩)
    · exact .refl _
    · exact .part hy hz

/-- The local that a name is bound to. -/
def binding? : TExpr → Option Local
  | .ident _ _ _ l | .self _ _ l => l
  | _ => none

/-- All names in an expression that are bound are bound to locals with `P`. -/
def NamesIn (P : Local → Prop) (x : TExpr) : Prop := ∀ y l, x.Has y → y.binding? = some l → P l

variable {P : Local → Prop}

/-- The names in a part are names in the expression. -/
lemma NamesIn.part (hx : x.NamesIn P) (hy : y ∈ x.parts) : y.NamesIn P :=
  fun z l hz => hx z l (.part hy hz)

/-- The local that an expression is bound to is a name in it. -/
lemma NamesIn.binding (hx : x.NamesIn P) : ∀ l, x.binding? = some l → P l :=
  fun l hl => hx x l (.refl x) hl

end TExpr

/-! ## Expressions inside assignments -/

/-- The expression that a pair writes to. -/
def Pair.place? (q : Pair) : Option TExpr :=
  match q.target with
  | .decl _ _ => none
  | .expr x => some x

/-- The expressions of a typed assignment are typed. -/
lemma TStmt.typed_of_assign {p : Program} {Γ : List Local} {vs : List TExpr} {ps : List Pair}
    {ds : List TExpr} (h : AssignTyped p Γ vs ps ds) {x : TExpr}
    (hx : x ∈ vs ++ ps.filterMap Pair.place? ++ ds) :
    x.Typed p Γ := by
  have target : ∀ {g : TTarget} {t : Ty}, g.Typed p Γ (declaredBy ps) t → g = .expr x →
      x.Typed p Γ := by
    rintro g t (⟨hl⟩ | ⟨hy, -, -⟩) h
    · cases h
    · exact TTarget.expr.inj h ▸ hy
  simp only [List.mem_append, List.mem_filterMap] at hx
  obtain (hx | ⟨q, hq, hqx⟩) | hx := hx
  · exact (h.values_typed x hx).1
  · have hqx : q.target = .expr x := by
      unfold Pair.place? at hqx
      split at hqx
      · cases hqx
      · rename_i y hy
        rw [hy, Option.some.inj hqx]
    cases h.pairs_typed q hq with
    | zero hg | copy hg | address hg | containerCopy hg | containerEmpty hg | containerAlloc hg
    | user hg => exact target hg hqx
    | initializedByCaller => cases hqx
  · exact h.discarded_typed x hx

/-! ## Assignments and conditions inside statements -/

/-- A condition on the targets, the expressions on the right, the pairs and the discarded calls of
an assignment. -/
abbrev AssignCondition := List TTarget → List TExpr → List Pair → List TExpr → Prop

namespace TStmt

mutual

/-- **Statements** whose assignments satisfy `A`, and whose conditions satisfy `C`. -/
def Each (A : AssignCondition) (C : TExpr → Prop) : TStmt → Prop
  | .assign _ gs vs ps ds => A gs vs ps ds
  | .ifThen _ c _ b | .whileLoop _ c _ b | .repeatUntil _ _ b c => C c ∧ EachAll A C b
  | .ifElse _ c _ b _ o => C c ∧ EachAll A C b ∧ EachAll A C o
  | .block _ _ b => EachAll A C b
  | .ret _ | .brk _ | .cont _ => True

/-- Several statements whose assignments satisfy `A`, and whose conditions satisfy `C`. -/
def EachAll (A : AssignCondition) (C : TExpr → Prop) : List TStmt → Prop
  | [] => True
  | s :: ss => Each A C s ∧ EachAll A C ss

end

variable {p : Program} {A B A' : AssignCondition} {C D C' : TExpr → Prop}

/-- What holds of all of several statements holds of each. -/
lemma EachAll.of_mem {s : TStmt} : ∀ {ss : List TStmt}, EachAll A C ss → s ∈ ss → s.Each A C
  | _ :: _, ha, hs => by
    obtain rfl | hs := List.mem_cons.1 hs
    · exact ha.1
    · exact ha.2.of_mem hs

mutual

/-- Conditions that follow from two others. -/
theorem Each.combine (hA : ∀ {gs vs ps ds}, A gs vs ps ds → B gs vs ps ds → A' gs vs ps ds)
    (hC : ∀ {x}, C x → D x → C' x) : ∀ {s : TStmt}, s.Each A C → s.Each B D → s.Each A' C'
  | .assign .., h, h' => hA h h'
  | .ifThen .., h, h' | .whileLoop .., h, h' | .repeatUntil .., h, h' =>
    ⟨hC h.1 h'.1, EachAll.combine hA hC h.2 h'.2⟩
  | .ifElse .., h, h' =>
    ⟨hC h.1 h'.1, EachAll.combine hA hC h.2.1 h'.2.1, EachAll.combine hA hC h.2.2 h'.2.2⟩
  | .block .., h, h' => EachAll.combine hA hC h h'
  | .ret _, _, _ | .brk _, _, _ | .cont _, _, _ => trivial

/-- The same for several statements. -/
theorem EachAll.combine (hA : ∀ {gs vs ps ds}, A gs vs ps ds → B gs vs ps ds → A' gs vs ps ds)
    (hC : ∀ {x}, C x → D x → C' x) :
    ∀ {ss : List TStmt}, EachAll A C ss → EachAll B D ss → EachAll A' C' ss
  | [], _, _ => trivial
  | _ :: _, h, h' => ⟨Each.combine hA hC h.1 h'.1, EachAll.combine hA hC h.2 h'.2⟩

end

mutual

/-- A condition on assignments follows from another one and the types. -/
theorem Each.of_typed
    (h : ∀ {Γ gs vs ps ds}, (∀ l ∈ Γ, p.Valid l.type) → AssignTyped p Γ vs ps ds →
      A gs vs ps ds → B gs vs ps ds) : ∀ {s : TStmt} {Γ : List Local} {inLoop : Bool},
    (∀ l ∈ Γ, p.Valid l.type) → s.Typed p Γ inLoop → s.Each A C → s.Each B C
  | .assign .., _, _, hΓ, ht, ha => h hΓ ht ha
  | .ifThen .., _, _, hΓ, ht, ha | .whileLoop .., _, _, hΓ, ht, ha =>
    ⟨ha.1, EachAll.of_typed h hΓ ht.2 ha.2⟩
  | .repeatUntil .., _, _, hΓ, ht, ha => ⟨ha.1, EachAll.of_typed h hΓ ht.1 ha.2⟩
  | .ifElse .., _, _, hΓ, ht, ha =>
    ⟨ha.1, EachAll.of_typed h hΓ ht.2.1 ha.2.1, EachAll.of_typed h hΓ ht.2.2 ha.2.2⟩
  | .block .., _, _, hΓ, ht, ha => EachAll.of_typed h hΓ ht ha
  | .ret _, _, _, _, _, _ | .brk _, _, _, _, _, _ | .cont _, _, _, _, _, _ => trivial

/-- The same for several statements, each of which sees the locals of those before it. -/
theorem EachAll.of_typed
    (h : ∀ {Γ gs vs ps ds}, (∀ l ∈ Γ, p.Valid l.type) → AssignTyped p Γ vs ps ds →
      A gs vs ps ds → B gs vs ps ds) : ∀ {ss : List TStmt} {Γ : List Local} {inLoop : Bool},
    (∀ l ∈ Γ, p.Valid l.type) → TypedAll p Γ inLoop ss → EachAll A C ss → EachAll B C ss
  | [], _, _, _, _, _ => trivial
  | s :: ss, Γ, inLoop, hΓ, ht, ha => by
    refine ⟨Each.of_typed h hΓ ht.1 ha.1, EachAll.of_typed h (fun l hl => ?_) ht.2 ha.2⟩
    obtain hl | hl := List.mem_append.1 hl
    · exact hΓ l hl
    · cases s with
      | assign => exact ht.1.declared_valid l hl
      | _ => cases hl

end

end TStmt

end Lane
