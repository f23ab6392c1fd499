import Lane.Analysis.Stmt
import Lane.Proofs.Analysis.Expr

set_option relaxedAutoImplicit false
set_option autoImplicit false

/-!
# Elaborated assignments are typed

An assignment whose analysis reports nothing is typed: its pairs fit their targets and values, and
the locals that it declares have numbers that no visible local has.

## Main definitions

* `Lane.Context.Step`: what an analysis of statements may change, the locals it has bound being
  given.
* `Lane.Context.Fresh`: locals with new numbers and valid types.

## Main results

* `Lane.Analysis.withValues_keeps`, `Lane.Analysis.withoutValues_from`: pairs are typed.
* `Lane.Analysis.assign_from`: assignments are typed.
-/

namespace Lane

/-! ## Construction -/

/-- How a value is made, if it is: a class selects a function, and everything else is made from one
argument. -/
lemma construct_cases {classOf : ClassRef → Class} {t : Ty} {kind : FuncKind} {args : List Ty}
    {k : Construction} (h : construct classOf t kind args = .ok k) :
    t.isError ∨
    (∃ m c f, t = .cls m c ∧ k = .call f ∧ (classOf c).resolve kind.name args [kind] = .ok f) ∨
    ∃ a, args = [a] ∧
      (k = .copy ∧ (t.isAtomic ∨ t.isContainer) ∧ t.compatible a ∨
        k = .address ∧ t.isPtr ∨ k = .alloc ∧ t.isContainer ∧ a.isIndex) := by
  unfold construct at h
  split at h
  · exact .inl rfl
  · rename_i m c
    cases hr : (classOf c).resolve kind.name args [kind] with
    | error e => simp [hr, Except.map] at h
    | ok f =>
      simp only [hr, Except.map, Except.ok.injEq] at h
      exact .inr (.inl ⟨m, c, f, rfl, h.symm, hr⟩)
  · split at h
    · exact .inr (.inr ⟨_, rfl, .inl ⟨(Except.ok.inj h).symm, .inl rfl, ‹_›⟩⟩)
    · cases h
  · split at h
    · exact .inr (.inr ⟨_, rfl, .inr (.inl ⟨(Except.ok.inj h).symm, rfl⟩)⟩)
    · split at h
      · exact .inr (.inr ⟨_, rfl, .inl ⟨(Except.ok.inj h).symm, .inl rfl, ‹_›⟩⟩)
      · cases h
  · split at h
    · exact .inr (.inr ⟨_, rfl, .inl ⟨(Except.ok.inj h).symm, .inr rfl, ‹_›⟩⟩)
    · split at h
      · exact .inr (.inr ⟨_, rfl, .inr (.inr ⟨(Except.ok.inj h).symm, rfl, ‹_›⟩)⟩)
      · cases h
  · cases h

namespace Ty

variable {t : Ty}

/-- A container has a kind and elements. -/
lemma exists_of_isContainer (h : t.isContainer) : ∃ m k u, t = .container m k u := by
  cases t <;> simp_all [isContainer]

/-- A pointer points to something. -/
lemma exists_of_isPtr (h : t.isPtr) : ∃ m u, t = .ptr m u := by
  cases t <;> simp_all [isPtr]

end Ty

/-! ## Steps -/

namespace Context

/-- **Steps**: what an analysis of statements changes. It binds locals in the current scope and uses
up numbers; warnings do not count. -/
structure Step (c d : Context) (D : List Local) : Prop where
  program_eq : d.program = c.program
  cls_eq : d.cls = c.cls
  function_eq : d.function = c.function
  loops_eq : d.loops = c.loops
  scopes_eq : ∃ s below, c.scopes = s :: below ∧
    d.scopes = { s with locals := s.locals ++ D } :: below
  next_le : c.nextLocal ≤ d.nextLocal

/-- Locals with new numbers, all different, and valid types. -/
structure Fresh (c d : Context) (D : List Local) : Prop where
  ids_nodup : (D.map Local.id).Nodup
  ids_between : ∀ l ∈ D, c.nextLocal ≤ l.id ∧ l.id < d.nextLocal
  valid : ∀ l ∈ D, c.program.Valid l.type

/-- **Contexts inside a function**: a scope is open, and all visible locals have numbers that are
used up. -/
structure Inside (c : Context) : Prop extends c.Sound where
  scopes_ne : c.scopes ≠ []
  loops_nonneg : 0 ≤ c.loops
  ids_below : ∀ l ∈ c.visible, l.id < c.nextLocal

variable {c d e : Context} {D E : List Local}

/-- Nothing is declared. -/
lemma Step.refl (h : c.scopes ≠ []) : Step c c [] := by
  obtain ⟨s, below, hs⟩ := List.exists_cons_of_ne_nil h
  exact ⟨rfl, rfl, rfl, rfl, ⟨s, below, hs, by simp [hs]⟩, Nat.le_refl _⟩

/-- What two steps declare, in order. -/
lemma Step.trans (h : Step c d D) (h' : Step d e E) : Step c e (D ++ E) := by
  obtain ⟨s, below, hc, hd⟩ := h.scopes_eq
  obtain ⟨s', below', hd', he⟩ := h'.scopes_eq
  obtain ⟨rfl, rfl⟩ := List.cons.inj (hd.symm.trans hd')
  exact ⟨h'.program_eq.trans h.program_eq, h'.cls_eq.trans h.cls_eq,
    h'.function_eq.trans h.function_eq, h'.loops_eq.trans h.loops_eq,
    ⟨s, below, hc, by simp [he]⟩, Nat.le_trans h.next_le h'.next_le⟩

/-- No locals are fresh for free. -/
lemma Fresh.nil : Fresh c d [] := ⟨by simp, by simp, by simp⟩

/-- Locals of two steps have different numbers. -/
lemma Fresh.append {D' E' : List Local} (h : Fresh c d D) (h' : Fresh d e E) (hs : Step c d D')
    (hs' : Step d e E') : Fresh c e (D ++ E) := by
  refine ⟨?_, ?_, ?_⟩
  · rw [List.map_append, List.nodup_append']
    refine ⟨h.ids_nodup, h'.ids_nodup, ?_⟩
    intro i hi hi'
    obtain ⟨l, hl, rfl⟩ := List.mem_map.1 hi
    obtain ⟨l', hl', he⟩ := List.mem_map.1 hi'
    have h1 := (h.ids_between l hl).2
    have h2 := (h'.ids_between l' hl').1
    omega
  · intro l hl
    have h1 := hs.next_le
    have h2 := hs'.next_le
    obtain hl | hl := List.mem_append.1 hl
    · have := h.ids_between l hl
      omega
    · have := h'.ids_between l hl
      omega
  · intro l hl
    obtain hl | hl := List.mem_append.1 hl
    · exact h.valid l hl
    · exact hs.program_eq ▸ h'.valid l hl

/-- The locals that a step binds become visible, and no others. -/
lemma Step.mem_visible (h : Step c d D) {l : Local} : l ∈ d.visible ↔ l ∈ c.visible ∨ l ∈ D := by
  obtain ⟨s, below, hc, hd⟩ := h.scopes_eq
  simp only [visible, hc, hd, h.function_eq, List.flatMap_cons, List.mem_append]
  tauto

/-- A step that binds nothing leaves all locals visible that were. -/
lemma Step.visible_eq (h : Step c d []) : d.visible = c.visible := by
  obtain ⟨s, below, hc, hd⟩ := h.scopes_eq
  simp [visible, hc, hd, h.function_eq]

/-- A step stays in the same loop. -/
lemma Step.inLoop_eq (h : Step c d D) : d.inLoop = c.inLoop := by
  unfold Context.inLoop
  rw [h.loops_eq]

/-- A step leads from a context inside a function to another one. -/
lemma Inside.of_step (hc : c.Inside) (h : Step c d D) (hf : Fresh c d D) : d.Inside where
  program_wf := h.program_eq ▸ hc.program_wf
  visible_valid l hl := by
    rw [h.program_eq]
    obtain hl | hl := h.mem_visible.1 hl
    · exact hc.visible_valid l hl
    · exact hf.valid l hl
  scopes_ne := by
    obtain ⟨s, below, -, hd⟩ := h.scopes_eq
    simp [hd]
  loops_nonneg := h.loops_eq ▸ hc.loops_nonneg
  ids_below l hl := by
    obtain hl | hl := h.mem_visible.1 hl
    · exact Nat.lt_of_lt_of_le (hc.ids_below l hl) h.next_le
    · exact (hf.ids_between l hl).2

end Context

namespace Analysis

/-! ## Pairs -/

section Pairs

variable {c : Context} {H : Prop} {p : Program} {Γ D : List Local} {values : List TExpr}

/-- A selected create or assign makes a typed pair. -/
lemma user_typed {g : TTarget} {m : Modifier} {r : ClassRef} {f : MemberFunction}
    {vs : List PairValue} (hg : g.Typed p Γ D (.cls m r))
    (hf : (p.classOf r).resolve (kindFor g).name (vs.map PairValue.type) [kindFor g] = .ok f) :
    Pair.Typed p Γ D values ⟨.user f, g, vs⟩ := by
  obtain ⟨hm, hk, ha⟩ := Class.of_resolve_eq_ok hf (by simp)
  refine .user hg (Program.declares_of_mem_classOf hm) ?_ ?_
  · have hk : f.kind = kindFor g := by simpa using hk
    rw [hk]
    unfold kindFor
    split <;> simp
  · exact List.forall₂_map_right_iff.1 (Signature.forall₂_of_applicable ha)

/-- The pair of a local without a value. -/
lemma defaultInit_keeps (Γ : List Local) (values : List TExpr) (d : DeclSyntax) (l : Local)
    (hp : H → c.program = p) (hl : H → l ∈ D) (hv : H → p.Valid l.type) :
    Keeps c H (defaultInit (.decl d l) l) fun q =>
      q.Typed p Γ D values ∧ q.target = .decl d l ∧ q.values = [] := by
  simp only [defaultInit]
  refine Keeps.report_if fun H' hH => ?_
  have target : H' → TTarget.Typed p Γ D (.decl d l) l.type := fun h => .decl (hl (hH h).1)
  split
  · rename_i ht
    refine Keeps.pure fun h => ?_
    have := hv (hH h).1
    simp [ht, Program.Valid] at this
  · rename_i ht
    exact Keeps.pure fun h => ⟨.zero (target h) (by rw [ht]; rfl), rfl, rfl⟩
  · rename_i ht
    exact Keeps.pure fun h => ⟨.zero (target h) (by rw [ht]; rfl), rfl, rfl⟩
  · rename_i ht
    exact Keeps.pure fun h => ⟨.containerEmpty (ht ▸ target h), rfl, rfl⟩
  · rename_i ht
    refine Keeps.bind Keeps.get fun e => ?_
    split
    · rename_i f hf
      refine Keeps.pure fun h => ⟨?_, rfl, rfl⟩
      obtain ⟨h, rfl⟩ := h
      rw [hp (hH h).1] at hf
      exact user_typed (ht ▸ target h) hf
    · exact Keeps.report_bind _ _ _ (Keeps.pure False.elim)

/-- The pair of one target and several values. -/
lemma gather_keeps (values : List TExpr) (g : TTarget) (t : Ty) (vs : List PairValue)
    (hp : H → c.program = p)
    (hg : H → g.Typed p Γ D t) (ht : H → p.Valid t) (hvs : H → ∀ v ∈ vs, p.Valid v.type)
    (hlen : vs.length ≠ 1) :
    Keeps c H (gather g t vs) fun q =>
      q.Typed p Γ D values ∧ q.target = g ∧ q.values = vs := by
  simp only [gather]
  split
  · rename_i he
    refine Keeps.pure fun h => ?_
    have hany : (vs.map PairValue.type).any Ty.isError = false := by
      simpa using fun v hv => (hvs h v hv).isError_eq_false
    simp [hany, (ht h).isError_eq_false] at he
  · refine Keeps.bind Keeps.get fun e => ?_
    split
    · exact Keeps.report_bind _ _ _ (Keeps.pure False.elim)
    · rename_i f hf
      refine Keeps.pure fun h => ⟨?_, rfl, rfl⟩
      obtain ⟨h, rfl⟩ := h
      rw [hp h] at hf
      obtain herr | ⟨m, r, f', rfl, hcall, hres⟩ | ⟨a, ha, -⟩ := construct_cases hf
      · simp [(ht h).isError_eq_false] at herr
      · obtain rfl := Construction.call.inj hcall
        exact user_typed (hg h) hres
      · exact absurd (by simpa using congrArg List.length ha) hlen
    · rename_i k hk hf
      refine Keeps.bug_bind _ (fun h => ?_) (Keeps.pure False.elim)
      obtain ⟨h, rfl⟩ := h
      rw [hp h] at hf
      obtain herr | ⟨m, r, f', rfl, hcall, -⟩ | ⟨a, ha, -⟩ := construct_cases hf
      · simp [(ht h).isError_eq_false] at herr
      · exact absurd hcall (hk f')
      · exact absurd (by simpa using congrArg List.length ha) hlen

/-- The pair of a target and one value. -/
lemma classify_keeps (g : TTarget) (t : Ty) (source : TExpr) (v : PairValue)
    (hp : H → c.program = p) (hg : H → g.Typed p Γ D t) (ht : H → p.Valid t)
    (hv : H → p.Valid v.type) (hs : values[v.source]? = some source) :
    Keeps c H (classify g t source v) fun q =>
      q.Typed p Γ D values ∧ q.target = g ∧ q.values = [v] := by
  simp only [classify]
  split
  · rename_i he
    refine Keeps.pure fun h => ?_
    simp [(ht h).isError_eq_false, (hv h).isError_eq_false] at he
  split
  · rename_i hi
    refine Keeps.pure fun h => ⟨?_, rfl, rfl⟩
    simp only [Bool.and_eq_true, Bool.not_eq_true'] at hi
    obtain ⟨⟨⟨hsome, hat⟩, -⟩, -⟩ := hi
    cases hg h with
    | decl hl => exact .initializedByCaller hl hat
    | expr => simp [TTarget.local?] at hsome
  refine Keeps.bind Keeps.get fun e => ?_
  split
  · split <;> exact Keeps.report_bind _ _ _ (Keeps.pure False.elim)
  all_goals
    rename_i hk
    -- The types are no errors here, so one of the ways to construct a value was found.
    have known : H ∧ e = c → _ := fun h =>
      (construct_cases hk).resolve_left (by simp [(ht h.1).isError_eq_false])
  · refine Keeps.pure fun h => ⟨?_, rfl, rfl⟩
    obtain ⟨_, _, _, -, hk, -⟩ | ⟨a, ha, hk⟩ := known h
    · cases hk
    obtain rfl : v.type = a := by simpa using ha
    obtain ⟨-, hat | hcont, hcomp⟩ | ⟨hk, -⟩ | ⟨hk, -⟩ := hk
    · have : t.isContainer = false := by cases t <;> simp_all [Ty.isAtomic, Ty.isContainer]
      rw [this]
      exact .copy (hg h.1) hat hcomp
    · obtain ⟨m, k, u, rfl⟩ := Ty.exists_of_isContainer hcont
      exact .containerCopy (hg h.1) hcomp
    all_goals cases hk
  · refine Keeps.pure fun h => ⟨?_, rfl, rfl⟩
    obtain ⟨_, _, _, -, hk, -⟩ | ⟨a, ha, hk⟩ := known h
    · cases hk
    obtain rfl : v.type = a := by simpa using ha
    obtain ⟨hk, -⟩ | ⟨hk, -⟩ | ⟨-, hcont, hi⟩ := hk
    · cases hk
    · cases hk
    · obtain ⟨m, k, u, rfl⟩ := Ty.exists_of_isContainer hcont
      exact .containerAlloc (hg h.1) hi
  · split
    · exact Keeps.report_bind _ _ _ (Keeps.pure False.elim)
    rename_i hmem
    refine Keeps.pure fun h => ⟨?_, rfl, rfl⟩
    obtain ⟨_, _, _, -, hk, -⟩ | ⟨a, ha, hk⟩ := known h
    · cases hk
    obtain ⟨hk, -⟩ | ⟨-, hptr⟩ | ⟨hk, -⟩ := hk
    · cases hk
    · obtain ⟨m, u, rfl⟩ := Ty.exists_of_isPtr hptr
      refine .address (hg h.1) fun hat e he => ?_
      obtain rfl := Option.some.inj (hs.symm.trans he)
      simpa [hat] using hmem
    · cases hk
  · refine Keeps.pure fun h => ⟨?_, rfl, rfl⟩
    obtain ⟨h, rfl⟩ := h
    obtain ⟨m, r, f, rfl, hcall, hres⟩ | ⟨a, -, hk⟩ := known ⟨h, rfl⟩
    · obtain rfl := Construction.call.inj hcall
      rw [hp h] at hres
      exact user_typed (hg h) hres
    · simp at hk
  · refine Keeps.pure fun h => ?_
    obtain ⟨_, _, _, -, hk, -⟩ | ⟨a, -, hk⟩ := known h
    · cases hk
    · simp at hk

/-- What is known about the targets of an assignment with values and their types. -/
def TargetsTyped (p : Program) (Γ D : List Local) (ts : List (TTarget × Ty)) : Prop :=
  ∀ q ∈ ts, q.1.Typed p Γ D q.2 ∧ p.Valid q.2

/-- The values of pairs are results of the expressions on the right. -/
def ValuesValid (p : Program) (values : List TExpr) (vs : List PairValue) : Prop :=
  ∀ v ∈ vs, p.Valid v.type ∧ ∃ e, values[v.source]? = some e

/-- The pairs of as many targets as values. -/
lemma oneByOne_keeps : ∀ (ts : List (TTarget × Ty)) (vs : List PairValue) {H : Prop},
    (H → c.program = p) → (H → TargetsTyped p Γ D ts) → (H → ValuesValid p values vs) →
    ts.length = vs.length →
    Keeps c H (oneByOne values ts vs) fun qs =>
      (∀ q ∈ qs, q.Typed p Γ D values) ∧ qs.map Pair.target = ts.map Prod.fst ∧
        qs.flatMap Pair.values = vs
  | [], [], _, _, _, _, _ => Keeps.pure fun _ => ⟨by simp, rfl, rfl⟩
  | (g, t) :: ts, v :: vs, H, hp, hts, hvs, hlen => by
    have rest : ∀ (q : Pair),
        Keeps c (H ∧ q.Typed p Γ D values ∧ q.target = g ∧ q.values = [v])
          (do return q :: (← oneByOne values ts vs)) fun qs =>
          (∀ q ∈ qs, q.Typed p Γ D values) ∧ qs.map Pair.target = ((g, t) :: ts).map Prod.fst ∧
            qs.flatMap Pair.values = v :: vs := by
      intro q
      refine Keeps.bind (oneByOne_keeps ts vs (fun h => hp h.1)
        (fun h x hx => hts h.1 x (List.mem_cons_of_mem _ hx))
        (fun h x hx => hvs h.1 x (List.mem_cons_of_mem _ hx)) (by simpa using hlen)) fun qs => ?_
      refine Keeps.pure fun h => ?_
      obtain ⟨⟨-, hq, htarget, hvalues⟩, hqs, htargets, hall⟩ := h
      exact ⟨List.forall_mem_cons.2 ⟨hq, hqs⟩, by simp [htarget, htargets],
        by simp [hvalues, hall]⟩
    rw [oneByOne]
    split
    · exact Keeps.bind (classify_keeps g t _ v hp (fun h => (hts h _ List.mem_cons_self).1)
        (fun h => (hts h _ List.mem_cons_self).2) (fun h => (hvs h v List.mem_cons_self).1) ‹_›)
        rest
    · refine Keeps.bind (Keeps.pure fun h => ?_) rest
      obtain ⟨-, e, he⟩ := hvs h v List.mem_cons_self
      simp_all

/-- The pairs of an assignment with values. -/
lemma withValues_keeps (pos : Position) (ts : List (TTarget × Ty)) (vs : List PairValue)
    (hp : H → c.program = p) (hts : H → TargetsTyped p Γ D ts)
    (hvs : H → ValuesValid p values vs) :
    Keeps c H (withValues pos ts values vs) fun qs =>
      (∀ q ∈ qs, q.Typed p Γ D values) ∧ qs.map Pair.target = ts.map Prod.fst ∧
        qs.flatMap Pair.values = vs := by
  unfold withValues
  split
  · rename_i g t
    split
    · exact oneByOne_keeps _ vs hp hts hvs (by simp [*])
    · have hmem : (g, t) ∈ [(g, t)] := List.mem_cons_self
      refine Keeps.bind (gather_keeps values g t vs hp
        (fun h => (hts h _ hmem).1) (fun h => (hts h _ hmem).2)
        (fun h v hv => (hvs h v hv).1) ‹_›) fun q => ?_
      refine Keeps.pure fun h => ?_
      obtain ⟨-, hq, htarget, hvalues⟩ := h
      exact ⟨by simpa using hq, by simp [htarget], by simp [hvalues]⟩
  · split
    · exact oneByOne_keeps ts vs hp hts hvs (by simp [*])
    · exact Keeps.report_bind _ _ _ (Keeps.pure False.elim)

end Pairs

/-! ## Targets and values -/

section Targets

variable {c : Context} {H : Prop}

/-- Written types stand for valid types. -/
lemma resolveType_keeps : ∀ (t : TypeExpr) {H : Prop},
    Keeps c H (resolveType t) c.program.Valid
  | .name pos n, H => by
    unfold resolveType
    split
    · exact Keeps.pure fun _ => trivial
    · refine Keeps.bind Keeps.get fun d => ?_
      split
      · rename_i k hk
        refine Keeps.pure fun h => ?_
        obtain rfl : d = c := h.2
        exact ⟨k, Program.mem_of_class?_eq_some hk, rfl⟩
      · exact Keeps.report_bind _ _ _ (Keeps.pure False.elim)
  | .container pos kind inner, H => by
    unfold resolveType
    refine Keeps.bind (resolveType_keeps inner) fun t => ?_
    split
    · exact Keeps.pure fun h => h.2
    split
    · exact Keeps.pure fun h => h.2
    · exact Keeps.pure fun h => h.2
    · simp only
      split
      · exact Keeps.pure fun h => h.2
      · split
        · exact Keeps.pure fun h => h.2
        · exact Keeps.report_bind _ _ _ (Keeps.pure False.elim)
      · exact Keeps.report_bind _ _ _ (Keeps.pure False.elim)

/-- A target is a new local of its type, or a typed expression; if there are values to assign, the
expression stands for a place of its type. -/
def TargetOf (c : Context) (hasValues : Bool) : TTarget × Ty → Prop
  | (.decl _ l, t) => t = l.type
  | (.expr e, t) => e.Typed c.program c.visible ∧
      (hasValues → e.isAddressable ∧ e.types = [t])

/-- Nothing is written unless it is addressable. -/
lemma checkWritable_keeps (e : TExpr) (t : Ty) (ht : H → t.isError = false) :
    Keeps c H (checkWritable e t) fun _ => e.isAddressable := by
  unfold checkWritable
  split
  · refine Keeps.pure fun h => ?_
    simp_all
  split
  · exact Keeps.report _ _ _
  · split
    · exact Keeps.report _ _ _
    · exact Keeps.pure fun _ => by simp_all

/-- A target uses up at most one number, which its local has. -/
lemma target_from (hasValues : Bool) (hc : H → c.Inside) : ∀ g : Target,
    From c H (target hasValues g) fun q d =>
      c.Step d [] ∧ c.Fresh d q.1.local?.toList ∧ TargetOf c hasValues q
  | .decl g => by
    refine From.keeps_bind (resolveType_keeps g.type) fun t => ?_
    refine From.bind (Q := fun id d => id = c.nextLocal ∧ d = { c with nextLocal := id + 1 })
      (From.modifyGet (fun _ => rfl) fun _ => ⟨rfl, rfl⟩) fun id d => From.pure fun h => ?_
    obtain ⟨⟨hH, ht⟩, rfl, rfl⟩ := h
    refine ⟨?_, ⟨by simp [TTarget.local?], ?_, ?_⟩, rfl⟩
    · exact { Context.Step.refl (hc hH).scopes_ne with next_le := Nat.le_succ _ }
    · simp [TTarget.local?]
    · simpa [TTarget.local?] using ht
  | .expr e => by
    refine From.keeps_bind (expr_keeps e fun h => (hc h).toSound) fun e' => ?_
    split
    · refine From.keeps_bind (single_keeps e') fun t => ?_
      refine From.keeps_bind (checkWritable_keeps e' t fun h =>
        isError_eq_false (hc h.1.1).toSound h.1.2 h.2) fun _ => From.pure fun h => ?_
      obtain ⟨⟨⟨hH, he⟩, ht⟩, ha⟩ := h
      exact ⟨.refl (hc hH).scopes_ne, .nil, he, fun _ => ⟨ha, ht⟩⟩
    · exact From.pure fun h => ⟨.refl (hc h.1).scopes_ne, .nil, h.2, fun hv => absurd hv ‹_›⟩

/-- The targets of an assignment have locals with different numbers. -/
lemma targets_from (hasValues : Bool) : ∀ (gs : List Target) {c : Context} {H : Prop},
    (H → c.Inside) → From c H (targets hasValues gs) fun qs d =>
      c.Step d [] ∧ c.Fresh d (qs.filterMap fun q => q.1.local?) ∧
        ∀ q ∈ qs, TargetOf c hasValues q
  | [], c, H, hc => From.pure fun h => ⟨.refl (hc h).scopes_ne, .nil, by simp⟩
  | g :: gs, c, H, hc => by
    refine From.bind (target_from hasValues hc g) fun q d => ?_
    refine From.bind (targets_from hasValues gs fun h => (hc h.1).of_step h.2.1 .nil) fun qs e => ?_
    refine From.pure fun h => ?_
    obtain ⟨⟨hH, hs, hf, hq⟩, hs', hf', hqs⟩ := h
    have hlocals : (q :: qs).filterMap (fun q => q.1.local?) =
        q.1.local?.toList ++ qs.filterMap fun q => q.1.local? := by
      cases h : q.1.local? <;> simp [h]
    rw [hlocals]
    refine ⟨hs.trans hs', hf.append hf' hs hs', List.forall_mem_cons.2 ⟨hq, fun x hx => ?_⟩⟩
    have := hqs x hx
    unfold TargetOf at this ⊢
    rwa [hs.visible_eq, hs.program_eq] at this

/-- The values on the right are typed expressions, each with at least one result. -/
lemma values_keeps : ∀ (es : List Expr) (source : Nat) {H : Prop}, (H → c.Sound) →
    Keeps c H (values source es) fun q =>
      (∀ e ∈ q.1, e.Typed c.program c.visible ∧ e.types ≠ []) ∧
        q.2 = resultsFrom source q.1 ∧ q.1.length = es.length
  | [], _, _, _ => Keeps.pure fun _ => ⟨by simp, rfl, rfl⟩
  | e :: es, source, H, hc => by
    refine Keeps.bind (expr_keeps e hc) fun e' => ?_
    have results : Keeps c (H ∧ e'.Typed c.program c.visible) (valuesOf source e') fun vs =>
        e'.types ≠ [] ∧ vs = resultsFrom source [e'] := by
      unfold valuesOf
      split
      · exact Keeps.report_bind _ _ _ (Keeps.pure False.elim)
      · exact Keeps.pure fun _ => ⟨by simp_all, by simp [resultsFrom]⟩
    refine Keeps.bind results fun vs => ?_
    refine Keeps.bind (values_keeps es (source + 1) fun h => hc h.1.1) fun q => ?_
    refine Keeps.pure fun h => ?_
    obtain ⟨⟨⟨-, he⟩, hne, rfl⟩, hes, hmore, hlen⟩ := h
    exact ⟨List.forall_mem_cons.2 ⟨⟨he, hne⟩, hes⟩, by simp [resultsFrom, hmore], by simp [hlen]⟩

/-- A local that could be bound without an error is in the current scope. -/
lemma insertLocal_eq {l : Local} {s : Scope} {below : List Scope} (hs : c.scopes = s :: below) :
    (c.insertLocal l).1.errors = 0 →
      (c.insertLocal l).1 =
        { c with scopes := { s with locals := s.locals ++ [l] } :: below } := by
  unfold Context.insertLocal
  split
  · exact fun h => absurd h (Nat.succ_ne_zero _)
  rw [hs]
  simp only
  unfold Scope.insert
  cases s.find? l.name with
  | none => exact fun _ => rfl
  | some prev => exact fun h => absurd h (Nat.succ_ne_zero _)

/-- Errors stay. -/
lemma errors_of_insertLocal {l : Local} (h : (c.insertLocal l).1.errors = 0) : c.errors = 0 := by
  revert h
  unfold Context.insertLocal
  split
  · exact fun h => absurd h (Nat.succ_ne_zero _)
  split
  · exact id
  split
  · exact id
  · exact fun h => absurd h (Nat.succ_ne_zero _)

/-- A local is put in the current scope. -/
lemma insertLocal_from (l : Local) (hc : H → c.scopes ≠ []) :
    From c H (modify fun d => (d.insertLocal l).1) fun _ d =>
      c.Step d [l] ∧ d.nextLocal = c.nextLocal := by
  intro d hd hn
  have hn : (d.insertLocal l).1.errors = 0 := hn
  have h0 := errors_of_insertLocal hn
  obtain ⟨rfl, hH⟩ := hd h0
  obtain ⟨s, below, hs⟩ := List.exists_cons_of_ne_nil (hc hH)
  refine ⟨h0, ?_⟩
  show d.Step (d.insertLocal l).1 [l] ∧ (d.insertLocal l).1.nextLocal = d.nextLocal
  rw [insertLocal_eq hs hn]
  exact ⟨⟨rfl, rfl, rfl, rfl, ⟨s, below, hs, rfl⟩, Nat.le_refl _⟩, rfl⟩

/-- The locals of the targets are bound in order. -/
lemma bindTargets_from : ∀ (qs : List (TTarget × Ty)) {c : Context} {H : Prop},
    (H → c.scopes ≠ []) → From c H
      (forIn qs PUnit.unit fun q _ => match q with
        | (g, _) => match g.local? with
          | some l => do
            modify fun d => (d.insertLocal l).1
            pure (ForInStep.yield PUnit.unit)
          | none => pure (ForInStep.yield PUnit.unit)) fun _ d =>
      c.Step d (qs.filterMap fun q => q.1.local?) ∧ d.nextLocal = c.nextLocal
  | [], c, H, hc => From.pure fun h => ⟨.refl (hc h), rfl⟩
  | (g, t) :: qs, c, H, hc => by
    rw [List.forIn_cons]
    cases hg : g.local? with
    | none =>
      simp only [pure_bind, List.filterMap_cons, hg]
      exact bindTargets_from qs hc
    | some l =>
      simp only [bind_assoc, pure_bind, List.filterMap_cons, hg]
      refine From.bind (insertLocal_from l hc) fun _ d => ?_
      refine (bindTargets_from qs fun h => ?_).weaken id fun _ e h h' => ?_
      · obtain ⟨s, below, -, hd⟩ := h.2.1.scopes_eq
        simp [hd]
      · exact ⟨h.2.1.trans h'.1, h'.2.trans h.2.2⟩

end Targets

/-! ## Assignments -/

section Assignments

variable {p : Program} {Γ D : List Local}

/-- A warning changes nothing else. -/
lemma warn_from {c : Context} {H : Prop} (kind : DiagnosticKind) (pos : Position)
    (message : String) (hc : H → c.scopes ≠ []) :
    From c H (warn kind pos message) fun _ d => c.Step d [] :=
  From.modify (fun _ => rfl) fun h => { Context.Step.refl (hc h) with }

/-- The pairs of an assignment without values: every declared local gets one. -/
lemma withoutValues_from : ∀ (gs : List TTarget) {c : Context} {H : Prop},
    (H → c.scopes ≠ [] ∧ c.program = p) →
    (H → ∀ g ∈ gs, (∀ l, g.local? = some l → l ∈ D ∧ p.Valid l.type) ∧
      ∀ e, g = .expr e → e.Typed p Γ) →
    From c H (withoutValues gs) fun q d =>
      c.Step d [] ∧ (∀ r ∈ q.1, r.Typed p Γ D []) ∧
        declaredBy q.1 = gs.filterMap TTarget.local? ∧ q.1.flatMap Pair.values = [] ∧
        ∀ e ∈ q.2, e.Typed p Γ
  | [], c, H, hc, _ => From.pure fun h => ⟨.refl (hc h).1, by simp, rfl, rfl, by simp⟩
  | g :: gs, c, H, hc, hgs => by
    have tail : H → ∀ g ∈ gs, (∀ l, g.local? = some l → l ∈ D ∧ p.Valid l.type) ∧
        ∀ e, g = .expr e → e.Typed p Γ :=
      fun h g' hg' => hgs h g' (List.mem_cons_of_mem _ hg')
    unfold withoutValues
    split
    · rename_i d l
      have head : H → l ∈ D ∧ p.Valid l.type := fun h => (hgs h _ List.mem_cons_self).1 l rfl
      refine From.keeps_bind (defaultInit_keeps Γ [] d l (fun h => (hc h).2)
        (fun h => (head h).1) fun h => (head h).2) fun q => ?_
      refine From.bind (withoutValues_from gs (fun h => hc h.1) fun h => tail h.1) fun q' e => ?_
      refine From.pure fun h => ?_
      obtain ⟨⟨-, hq, hg, hv⟩, hs, hqs, hd, hvs, hes⟩ := h
      refine ⟨hs, List.forall_mem_cons.2 ⟨hq, hqs⟩, ?_, by simp [hv, hvs], hes⟩
      rw [declaredBy_cons, hg, hd]
      rfl
    · rename_i e
      split
      · refine From.bind (withoutValues_from gs hc tail) fun q' d => From.pure fun h => ?_
        obtain ⟨hH, hs, hqs, hd, hvs, hes⟩ := h
        exact ⟨hs, hqs, hd, hvs,
          List.forall_mem_cons.2 ⟨(hgs hH _ List.mem_cons_self).2 e rfl, hes⟩⟩
      · refine From.bind (warn_from _ _ _ fun h => (hc h).1) fun _ d => ?_
        refine (withoutValues_from gs (fun h => ?_) fun h => tail h.1).weaken id
          fun q' e h h' => ?_
        · obtain ⟨s, below, -, hd⟩ := h.2.scopes_eq
          exact ⟨by simp [hd], h.2.program_eq.trans (hc h.1).2⟩
        · obtain ⟨hs, hqs, hd, hvs, hes⟩ := h'
          exact ⟨h.2.trans hs, hqs, hd, hvs, hes⟩

/-- The results of the expressions on the right are known by the numbers of the expressions. -/
lemma mem_resultsFrom {es : List TExpr} {source : Nat} {v : PairValue}
    (h : v ∈ resultsFrom source es) :
    ∃ i e, v.source = source + i ∧ es[i]? = some e ∧ v.pos = e.pos ∧
      e.types[v.result]? = some v.type := by
  induction es generalizing source with
  | nil => simp [resultsFrom] at h
  | cons e es ih =>
    rw [resultsFrom, List.mem_append] at h
    obtain h | h := h
    · obtain ⟨⟨t, j⟩, ht, rfl⟩ := List.mem_map.1 h
      exact ⟨0, e, rfl, rfl, rfl, List.mem_zipIdx_iff_getElem?.1 ht⟩
    · obtain ⟨i, e', hi, he, hpos, ht⟩ := ih h
      exact ⟨i + 1, e', by omega, he, hpos, ht⟩

/-- The parts of an assignment make it typed, if its locals are fresh. -/
lemma assignTyped {c d : Context} {values discarded : List TExpr} {ps : List Pair}
    (hc : c.Inside) (hD : c.Fresh d D)
    (hvalues : ∀ e ∈ values, e.Typed c.program c.visible ∧ e.types ≠ [])
    (hdiscarded : ∀ e ∈ discarded, e.Typed c.program c.visible)
    (hps : ∀ q ∈ ps, q.Typed c.program c.visible D values) (hdecl : declaredBy ps = D)
    (hvs : ps.flatMap Pair.values = resultsFrom 0 values) :
    AssignTyped c.program c.visible values ps discarded where
  values_typed := hvalues
  discarded_typed := hdiscarded
  pairs_typed := hdecl ▸ hps
  values_eq := hvs
  declared_valid := hdecl ▸ hD.valid
  ids_nodup := hdecl ▸ hD.ids_nodup
  ids_new l hl hm := by
    obtain ⟨l', hl', he⟩ := List.mem_map.1 hm
    have h1 := hc.ids_below l' hl'
    have h2 := (hD.ids_between l (hdecl ▸ hl)).1
    omega

/-- **Elaborated assignments are typed**, and the locals that they declare become visible.

**Proof sketch.** The targets use up numbers for the locals, the expressions on the right are
analysed before the locals are bound, and the pairs are made after it. None of this changes what the
targets and the expressions refer to. -/
theorem assign_from {c : Context} {H : Prop} (hc : H → c.Inside) (pos : Position)
    (gs : List Target) (es : List Expr) :
    From c H (assign pos gs es) fun s d =>
      c.Step d s.declares ∧ c.Fresh d s.declares ∧
        ∃ gs values ps discarded, s = .assign pos gs values ps discarded ∧
          AssignTyped c.program c.visible values ps discarded := by
  refine From.bind (targets_from _ gs hc) fun ts d => ?_
  refine From.keeps_bind (values_keeps es 0 fun h => ((hc h.1).of_step h.2.1 .nil).toSound)
    fun (sources, vs) => ?_
  refine From.bind (bindTargets_from ts fun h => ((hc h.1.1).of_step h.1.2.1 .nil).scopes_ne)
    fun _ e => ?_
  -- Both with and without values, the locals of the targets are those that the pairs declare.
  generalize hD : ts.filterMap (fun q => q.1.local?) = D
  have hmem : ∀ q ∈ ts, ∀ l, q.1.local? = some l → l ∈ D :=
    fun q hq l hl => hD ▸ List.mem_filterMap.2 ⟨q, hq, hl⟩
  have hfst : (ts.map Prod.fst).filterMap TTarget.local? = D := by
    rw [← hD, List.filterMap_map]
    rfl
  split
  · rename_i hes
    -- Without values the pairs are made from the targets alone.
    refine From.bind (withoutValues_from (p := c.program) (Γ := c.visible) (D := D) _ ?_ ?_)
      fun (ps, ds) f => From.pure fun h => ?_
    · rintro ⟨⟨⟨-, hs, -⟩, -⟩, hb, -⟩
      obtain ⟨s, below, -, he⟩ := hb.scopes_eq
      exact ⟨by simp [he], hb.program_eq.trans hs.program_eq⟩
    · rintro ⟨⟨⟨-, -, hf, hts⟩, -⟩, -⟩ g hg
      obtain ⟨q, hq, rfl⟩ := List.mem_map.1 hg
      refine ⟨fun l hl => ⟨hmem q hq l hl, hf.valid l (hmem q hq l hl)⟩, fun x hx => ?_⟩
      obtain ⟨g, t⟩ := q
      obtain rfl : g = .expr x := hx
      exact (hts _ hq).1
    · obtain ⟨⟨⟨⟨hH, hs, hf, -⟩, hvals, -, hlen⟩, hb, hnext⟩, hs', hps, hdecl, hvs, hds⟩ := h
      obtain rfl : sources = [] := by simpa [List.isEmpty_iff.1 hes] using hlen
      have hdecl : declaredBy ps = D := hdecl.trans hfst
      have hstep : c.Step f D := by simpa using (hs.trans hb).trans hs'
      -- The locals of the targets are `D`, but the statement speaks of those that the pairs
      -- declare.
      change c.Step f (declaredBy ps) ∧ c.Fresh f (declaredBy ps) ∧ _
      rw [hdecl]
      refine ⟨hstep, ⟨hf.ids_nodup, fun l hl => ?_, hf.valid⟩,
        _, _, _, _, rfl, assignTyped (hc hH) hf (by simp) hds hps hdecl hvs⟩
      have := hf.ids_between l hl
      have := hs'.next_le
      omega
  · rename_i hes
    refine From.keeps_bind (withValues_keeps (p := c.program) (Γ := c.visible) (D := D) pos ts vs
      ?_ ?_ ?_) fun ps => From.pure fun h => ?_
    · rintro ⟨⟨⟨-, hs, -⟩, -⟩, hb, -⟩
      exact hb.program_eq.trans hs.program_eq
    · rintro ⟨⟨⟨hH, -, hf, hts⟩, -⟩, -⟩ ⟨g, t⟩ hq
      have hq' := hts _ hq
      cases g with
      | decl g l =>
        obtain rfl : t = l.type := hq'
        have hl := hmem _ hq l rfl
        exact ⟨.decl hl, hf.valid l hl⟩
      | expr x =>
        obtain ⟨hx, hplace⟩ := hq'
        obtain ⟨ha, ht⟩ := hplace (by simpa using hes)
        exact ⟨.expr hx ha ht, hx.valid (hc hH).program_wf (hc hH).visible_valid t (by simp [ht])⟩
    · -- A value has the type of its source, which was analysed before the locals were bound.
      rintro ⟨⟨⟨hH, hs, -⟩, hvals, hvs, -⟩, -⟩ v hv
      simp only at hvals hvs
      obtain ⟨i, x, hi, hx, -, ht⟩ := mem_resultsFrom (hvs ▸ hv)
      have hx' := (hvals x (List.mem_of_getElem? hx)).1
      rw [hs.program_eq, hs.visible_eq] at hx'
      refine ⟨hx'.valid (hc hH).program_wf (hc hH).visible_valid _ (List.mem_of_getElem? ht), x, ?_⟩
      rw [hi, Nat.zero_add]
      exact hx
    · obtain ⟨⟨⟨⟨hH, hs, hf, -⟩, hvals, hvs, -⟩, hb, hnext⟩, hps, htargets, hvs'⟩ := h
      simp only at hvals hvs
      have hdecl : declaredBy ps = D := by rw [declaredBy_eq, htargets, hfst]
      have hstep : c.Step e D := by simpa using hs.trans hb
      rw [hs.program_eq, hs.visible_eq] at hvals
      change c.Step e (declaredBy ps) ∧ c.Fresh e (declaredBy ps) ∧ _
      rw [hdecl]
      refine ⟨hstep, ⟨hf.ids_nodup, fun l hl => ?_, hf.valid⟩,
        _, _, _, _, rfl, assignTyped (hc hH) hf hvals (by simp) hps hdecl (hvs'.trans hvs)⟩
      have := hf.ids_between l hl
      omega

end Assignments

end Analysis

end Lane
