import Lane.Proofs.Lowering.Disciplined

set_option relaxedAutoImplicit false
set_option autoImplicit false

/-!
# Points of lowering

A point is the state in which lowering comes to an expression, after all that is lowered before it.
The points inside an expression are given by its parts and the order in which they are lowered. Code
for expressions leaves the storage of locals alone, so a name is looked up in the storage that was
known where its operand began. Storage is given where locals are bound, and it is new.

## Main definitions

* `Lane.Lowering.Runs`: a computation succeeds.
* `Lane.Lowering.Gains`: a local gets storage that no local had before.
* `Lane.Lowering.Touches`: computations that give storage to certain locals only.
* `Lane.Lowering.Evaluates`: the points at which the expressions inside an expression are evaluated.

## Main results

* `Lane.Lowering.gains_of_bindLocal`: a declared local gets storage of its own.
* `Lane.Lowering.Evaluates.keeps`: expressions leave the storage of locals alone.
-/

namespace Lane.Lowering

open Code

/-- **A computation succeeds**, with its result and the state after it. -/
def Runs {α : Type} (env : Env) (m : Lower α) (b : Builder) (a : α) (b' : Builder) : Prop :=
  (m.run env).run b = .ok (a, b')

section Runs

variable {α β : Type} {env : Env} {m : Lower α} {f : α → Lower β} {a a' : α}
  {b b' b'' : Builder}

/-- A run gives one result. -/
lemma Runs.unique (h : Runs env m b a b') (h' : Runs env m b a' b'') : a = a' ∧ b' = b'' :=
  Prod.mk.inj (Except.ok.inj (h.symm.trans h'))

/-- A run of two computations is a run of each. -/
lemma Runs.of_bind {c : β} (h : Runs env (m >>= f) b c b'') :
    ∃ a b', Runs env m b a b' ∧ Runs env (f a) b' c b'' :=
  of_run_bind h

/-- A result changes nothing. -/
lemma Runs.of_pure (h : Runs env (pure a) b a' b') : a = a' ∧ b = b' :=
  Prod.mk.inj (Except.ok.inj h)

/-- What fails has no run. -/
lemma not_runs_throw {x : Fault} : ¬ Runs env (throw x : Lower α) b a b' := fun h => nomatch h

end Runs

/-! ## The age of storage -/

namespace Builder

/-- **One state precedes another** if variables and slots were only added. -/
structure Precedes (b c : Builder) : Prop where
  vars_le : b.vars.length ≤ c.vars.length
  slots_le : b.slots.length ≤ c.slots.length

/-- Nothing is done to the locals. -/
structure Keeps (b c : Builder) : Prop extends b.Precedes c where
  locals_eq : c.locals = b.locals

variable {b c d : Builder}

/-- A builder precedes itself. -/
lemma Precedes.refl (b : Builder) : b.Precedes b := ⟨Nat.le_refl _, Nat.le_refl _⟩

/-- What precedes in two steps precedes. -/
lemma Precedes.trans (h : b.Precedes c) (h' : c.Precedes d) : b.Precedes d :=
  ⟨Nat.le_trans h.vars_le h'.vars_le, Nat.le_trans h.slots_le h'.slots_le⟩

/-- A builder keeps its locals. -/
lemma Keeps.refl (b : Builder) : b.Keeps b := ⟨.refl b, rfl⟩

/-- What is kept in two steps is kept. -/
lemma Keeps.trans (h : b.Keeps c) (h' : c.Keeps d) : b.Keeps d :=
  ⟨h.toPrecedes.trans h'.toPrecedes, h'.locals_eq.trans h.locals_eq⟩

end Builder

namespace Storage

/-- The variable or slot of a local; a local that arrived as an address has the variable that holds
it. -/
def cell : Storage → Operand
  | .var v => .var v
  | .memory a => a

/-- Storage that is made after a state. -/
def IsNew (b : Builder) (s : Storage) : Prop :=
  (∃ v, s.cell = .var v ∧ b.vars.length < v.id) ∨ ∃ x, s.cell = .slot x ∧ b.slots.length < x.id

/-- Storage that is made before a state. -/
def IsOld (b : Builder) (s : Storage) : Prop :=
  (∃ v, s.cell = .var v ∧ v.id ≤ b.vars.length) ∨ ∃ x, s.cell = .slot x ∧ x.id ≤ b.slots.length

variable {b c : Builder} {s t : Storage}

/-- Storage that is old stays old. -/
lemma IsOld.mono (h : s.IsOld b) (hbc : b.Precedes c) : s.IsOld c :=
  h.imp (fun ⟨v, hv, hle⟩ => ⟨v, hv, Nat.le_trans hle hbc.vars_le⟩)
    fun ⟨x, hx, hle⟩ => ⟨x, hx, Nat.le_trans hle hbc.slots_le⟩

/-- Old and new storage is not the same. -/
lemma IsOld.cell_ne (h : s.IsOld b) (h' : t.IsNew b) : s.cell ≠ t.cell := by
  obtain ⟨v, hv, hle⟩ | ⟨x, hx, hle⟩ := h <;> obtain ⟨w, hw, hlt⟩ | ⟨y, hy, hlt⟩ := h' <;> intro he
  · obtain rfl := Operand.var.inj (hv.symm.trans (he.trans hw))
    omega
  · cases hv.symm.trans (he.trans hy)
  · cases hx.symm.trans (he.trans hw)
  · obtain rfl := Operand.slot.inj (hx.symm.trans (he.trans hy))
    omega

end Storage

/-- **A local gets storage** that is new. -/
structure Gains (i : Nat) (s : Storage) (b c : Builder) : Prop where
  precedes : b.Precedes c
  locals_eq : c.locals = (i, s) :: b.locals
  is_new : s.IsNew b
  is_old : s.IsOld c

/-! ## Computations that leave the locals alone -/

/-- **The discipline of code that does nothing to locals**. -/
def sparingExpr (env : Env) : Discipline env where
  other := env
  similar := .refl env
  World := Unit
  Le _ _ := True
  le_refl _ := trivial
  le_trans _ _ := trivial
  Has _ _ := True
  has_mono _ h := h
  has_of_ne_reg _ := trivial
  Relates {α} _ m _ R := ∀ b (a : α) b', Runs env m b a b' → b.Keeps b' ∧ R () a
  holds_pure h b a b' hr := by
    obtain ⟨rfl, rfl⟩ := hr.of_pure
    exact ⟨.refl b, h⟩
  holds_bind hm hf b a b' hr := by
    obtain ⟨a₁, b₁, h₁, h₂⟩ := hr.of_bind
    obtain ⟨hk, hR⟩ := hm b a₁ b₁ h₁
    exact ⟨hk.trans (hf () a₁ hR b₁ a b' h₂).1, (hf () a₁ hR b₁ a b' h₂).2⟩
  holds_throw _ _ _ hr := absurd hr not_runs_throw
  holds_read h := h
  Admits _ := True
  holds_storageOf _ b a b' hr := by
    obtain ⟨-, rfl⟩ := of_run_storageOf hr
    exact ⟨.refl _, trivial, fun _ => trivial⟩
  holds_emit _ _ _ b a b' hr := by
    obtain ⟨-, rfl⟩ := Prod.mk.inj (Except.ok.inj hr)
    exact ⟨⟨⟨Nat.le_refl _, Nat.le_refl _⟩, rfl⟩, trivial, fun _ _ => trivial⟩
  holds_newReg _ b a b' hr := by
    obtain ⟨rfl, rfl⟩ := Prod.mk.inj (Except.ok.inj hr)
    exact ⟨⟨⟨Nat.le_refl _, Nat.le_refl _⟩, rfl⟩, trivial, _, rfl⟩
  holds_newVar _ _ b a b' hr := by
    obtain ⟨-, rfl⟩ := Prod.mk.inj (Except.ok.inj hr)
    exact ⟨⟨⟨by simp, Nat.le_refl _⟩, rfl⟩, trivial⟩
  holds_newSlot _ _ _ _ b a b' hr := by
    obtain ⟨rfl, rfl⟩ := Prod.mk.inj (Except.ok.inj hr)
    exact ⟨⟨⟨Nat.le_refl _, by simp⟩, rfl⟩, trivial, _, rfl⟩

/-- The same with the sizes of containers. -/
def sparing (env : Env) : ValueDiscipline env where
  toDiscipline := sparingExpr env
  holds_byteSize kind t _ hn :=
    Discipline.byteSize_gives (D := sparingExpr env) (fun h => h) kind t hn

/-- **Computations that do nothing to the locals**. -/
def Spares {α : Type} (env : Env) (m : Lower α) : Prop :=
  ∀ b a b', Runs env m b a b' → b.Keeps b'

section Spares

variable {α β : Type} {env : Env} {m : Lower α} {f : α → Lower β}

/-- Code of the discipline does nothing to the locals. -/
lemma spares_of_gives {R : Unit → α → Prop} (h : (sparingExpr env).Gives () m R) :
    Spares env m :=
  fun b a b' hr => (h b a b' hr).1

/-- Two computations that spare locals spare them together. -/
lemma Spares.bind (hm : Spares env m) (hf : ∀ a, Spares env (f a)) : Spares env (m >>= f) := by
  intro b c b'' hr
  obtain ⟨a, b', hr₁, hr₂⟩ := hr.of_bind
  exact (hm b a b' hr₁).trans (hf a b' c b'' hr₂)

/-- All expressions follow the discipline. -/
lemma expr_spares (x : TExpr) : (expr x).Gives (sparingExpr env) :=
  Discipline.expr_gives (sparingExpr env) fun _ _ _ _ => trivial

/-- Expressions spare the locals. -/
lemma exprs_spare (xs : List TExpr) : ∀ x ∈ exprs xs, x.Gives (sparingExpr env) := by
  rw [exprs_eq_map]
  intro y hy
  obtain ⟨x, -, rfl⟩ := List.mem_map.1 hy
  exact expr_spares x

end Spares

/-! ## Computations that give storage -/

/-- **Computations that give storage** to the locals `D` at most. -/
def Touches {α : Type} (env : Env) (D : List Local) (m : Lower α) : Prop :=
  ∀ b a b', Runs env m b a b' → b.Precedes b' ∧
    ∀ i ∉ D.map Local.id, b'.locals.lookup i = b.locals.lookup i

section Touches

variable {α β : Type} {env : Env} {m : Lower α} {f : α → Lower β} {D E : List Local}

/-- More locals may be touched. -/
lemma Touches.mono (h : Touches env D m) (hDE : D ⊆ E) : Touches env E m :=
  fun b a b' hr => ⟨(h b a b' hr).1,
    fun i hi => (h b a b' hr).2 i fun hiD => hi (List.map_subset _ hDE hiD)⟩

/-- What spares locals touches none. -/
lemma touches_of_spares (h : Spares env m) : Touches env D m :=
  fun b a b' hr => ⟨(h b a b' hr).toPrecedes, fun _ _ => by rw [(h b a b' hr).locals_eq]⟩

/-- Two computations touch what both may touch. -/
lemma Touches.bind (hm : Touches env D m) (hf : ∀ a, Touches env D (f a)) :
    Touches env D (m >>= f) := by
  intro b c b'' hr
  obtain ⟨a, b', hr₁, hr₂⟩ := hr.of_bind
  obtain ⟨h₁, hl₁⟩ := hm b a b' hr₁
  obtain ⟨h₂, hl₂⟩ := hf a b' c b'' hr₂
  exact ⟨h₁.trans h₂, fun i hi => (hl₂ i hi).trans (hl₁ i hi)⟩

/-- A result touches nothing. -/
lemma Touches.pure (a : α) : Touches env D (pure a) := by
  intro b a' b' hr
  obtain ⟨-, rfl⟩ := hr.of_pure
  exact ⟨.refl b, fun _ _ => rfl⟩

/-- What fails touches nothing. -/
lemma Touches.throw (x : Fault) : Touches env D (throw x : Lower α) :=
  fun _ _ _ hr => absurd hr not_runs_throw

/-- An instruction spares the locals. -/
lemma emit_spares (i : Instr) : Spares env (emit i) := by
  intro b a b' hr
  obtain ⟨-, rfl⟩ := Prod.mk.inj (Except.ok.inj hr)
  exact ⟨⟨Nat.le_refl _, Nat.le_refl _⟩, rfl⟩

/-- A new label spares the locals. -/
lemma newLabel_spares (hint : String) : Spares env (newLabel hint) := by
  intro b a b' hr
  obtain ⟨-, rfl⟩ := Prod.mk.inj (Except.ok.inj hr)
  exact ⟨⟨Nat.le_refl _, Nat.le_refl _⟩, rfl⟩

end Touches

/-! ## Declared locals -/

section Locals

variable {env : Env} {l : Local} {s : Storage} {b c : Builder}

/-- A new variable is storage for a local. -/
lemma Gains.of_newVar {v : Var} {g : Var → Storage} {name : String} {t : VType} {b' : Builder}
    {i : Nat} (h : Runs env (newVar name t) b v b') (hg : ∀ v, (g v).cell = .var v)
    (hc : Runs env (setStorage i (g v)) b' () c) : Gains i (g v) b c := by
  obtain ⟨rfl, rfl⟩ := Prod.mk.inj (Except.ok.inj h)
  obtain ⟨-, rfl⟩ := Prod.mk.inj (Except.ok.inj hc)
  exact ⟨⟨by simp, Nat.le_refl _⟩, rfl, .inl ⟨_, hg _, Nat.lt_succ_self _⟩,
    .inl ⟨_, hg _, by simp⟩⟩

/-- A new slot is storage for a local, also if other code comes between. -/
lemma Gains.of_slotFor {o : Operand} {name : String} {t : Ty} {b' b'' : Builder} {i : Nat}
    (h : Runs env (slotFor name t) b o b') (hk : b'.Keeps b'')
    (hc : Runs env (setStorage i (.memory o)) b'' () c) : Gains i (.memory o) b c := by
  obtain ⟨q, b₁, hsize, h⟩ := h.of_bind
  have hsize := spares_of_gives (Discipline.sizeOf_gives (D := sparingExpr env) t) _ _ _ hsize
  obtain ⟨rfl, rfl⟩ := Prod.mk.inj (Except.ok.inj h)
  obtain ⟨-, rfl⟩ := Prod.mk.inj (Except.ok.inj hc)
  have hslots : b₁.slots.length + 1 ≤ b''.slots.length := by simpa using hk.slots_le
  refine ⟨⟨Nat.le_trans hsize.vars_le hk.vars_le, ?_⟩, ?_, .inr ⟨_, rfl, ?_⟩, .inr ⟨_, rfl, hslots⟩⟩
  · exact Nat.le_trans hsize.slots_le (Nat.le_of_succ_le hslots)
  · exact congrArg (List.cons _) (hk.locals_eq.trans hsize.locals_eq)
  · exact Nat.lt_succ_of_le hsize.slots_le

/-- A declared local gets storage, unless it has some. -/
lemma of_runs_bindLocal (h : Runs env (bindLocal l) b s c) :
    b.locals.lookup l.id = some s ∧ c = b ∨ b.locals.lookup l.id = none ∧ Gains l.id s b c := by
  obtain ⟨_, _, hget, h⟩ := h.of_bind
  obtain ⟨rfl, rfl⟩ := Prod.mk.inj (Except.ok.inj hget)
  split at h
  · obtain ⟨rfl, rfl⟩ := h.of_pure
    exact .inl ⟨‹_›, rfl⟩
  · refine .inr ⟨‹_›, ?_⟩
    dsimp only at h
    split at h
    · obtain ⟨v, b₁, hv, h⟩ := h.of_bind
      obtain ⟨s', b₂, hs, h⟩ := h.of_bind
      obtain ⟨rfl, rfl⟩ := hs.of_pure
      obtain ⟨⟨⟩, b₃, hset, h⟩ := h.of_bind
      obtain ⟨rfl, rfl⟩ := h.of_pure
      exact Gains.of_newVar hv (fun _ => rfl) hset
    · obtain ⟨o, b₁, ho, h⟩ := h.of_bind
      obtain ⟨s', b₂, hs, h⟩ := h.of_bind
      obtain ⟨rfl, rfl⟩ := hs.of_pure
      obtain ⟨⟨⟩, b₃, hset, h⟩ := h.of_bind
      obtain ⟨rfl, rfl⟩ := h.of_pure
      exact Gains.of_slotFor ho (.refl _) hset

/-- A local that has no storage gains it where it is bound. -/
lemma gains_of_bindLocal (h : Runs env (bindLocal l) b s c) (hnone : b.locals.lookup l.id = none) :
    Gains l.id s b c := by
  obtain ⟨hs, -⟩ | ⟨-, hg⟩ := of_runs_bindLocal h
  · cases hnone.symm.trans hs
  · exact hg

/-- A local that was bound is found with its storage. -/
lemma lookup_of_bindLocal (h : Runs env (bindLocal l) b s c) : c.locals.lookup l.id = some s := by
  obtain ⟨hs, rfl⟩ | ⟨-, hg⟩ := of_runs_bindLocal h
  · exact hs
  · rw [hg.locals_eq, List.lookup_cons_self]

/-- A local that is bound is touched, and no other. -/
lemma bindLocal_touches (l : Local) : Touches env [l] (bindLocal l) := by
  intro b s c h
  obtain ⟨-, rfl⟩ | ⟨-, hg⟩ := of_runs_bindLocal h
  · exact ⟨.refl _, fun _ _ => rfl⟩
  · refine ⟨hg.precedes, fun i hi => ?_⟩
    have hne : i ≠ l.id := by simpa using hi
    rw [hg.locals_eq, List.lookup_cons, beq_false_of_ne hne]

end Locals

/-! ## Points of expressions -/

/-- **The points of arguments**: lowering the arguments `xs` from `b` comes to the argument `y` at
`c`. -/
def ComesAt (env : Env) (as : List Param) (xs : List TExpr) (b : Builder) (y : TExpr)
    (c : Builder) : Prop :=
  ∃ pre post q, xs = pre ++ y :: post ∧
    Runs env (arguments (as.take pre.length) (exprs pre)) b q c

/-- **The points of the parts of an expression**: lowering the expression from `b` comes to its part
`y` at `c`. The condition is on what is lowered before it. -/
def Comes (env : Env) (b : Builder) : TExpr → TExpr → Builder → Prop
  | .ident .., _, _ | .self .., _, _ | .literal .., _, _ => False
  | .unary _ _ _ _ x, y, c | .member _ _ x _ _ _, y, c | .deref _ _ x, y, c => y = x ∧ c = b
  | .binary _ _ _ none x x', y, c => y = x ∧ c = b ∨ y = x' ∧ ∃ o, Runs env (expr x).value b o c
  | .binary _ _ _ (some f) x x', y, c => ComesAt env f.sig.params [x, x'] b y c
  | .index _ _ x i, y, c => y = x ∧ c = b ∨ y = i ∧ ∃ o,
    Runs env (do loadField (← (expr x).object) .headerData) b o c
  | .method _ _ x _ args (some f), y, c => y = x ∧ c = b ∨ ∃ o b₁,
    Runs env (expr x).receiver b o b₁ ∧ ComesAt env f.sig.params args b₁ y c
  | .routine _ _ _ _ args (some (.convert _)), y, c => args.head? = some y ∧ c = b
  | .routine _ _ _ _ args (some (.routine f)), y, c => ComesAt env f.sig.params args b y c
  | .routine _ _ _ _ args (some (.construct f)), y, c => ∃ b₁,
    (b₁ = b ∨ ∃ o, Runs env (temp (.ofClass f.cls)) b o b₁) ∧ ComesAt env f.sig.params args b₁ y c
  | .ccall _ _ _ args (some f), y, c => ComesAt env f.sig.params args b y c
  | .method _ _ _ _ _ none, _, _ | .routine _ _ _ _ _ none, _, _ | .ccall _ _ _ _ none, _, _ =>
    False

/-- **The points of an expression**: lowering `x` from `b` comes to the expression `y` inside it at
`c`. -/
inductive Evaluates (env : Env) : TExpr → Builder → TExpr → Builder → Prop
  | refl (x : TExpr) (b : Builder) : Evaluates env x b x b
  | part {x y z : TExpr} {b c d : Builder} (hy : Comes env b x y c) (hz : Evaluates env y c z d) :
    Evaluates env x b z d

section Expressions

variable {env : Env} {x y : TExpr} {b c : Builder}

/-- A point of an argument is that of one of the arguments. -/
lemma ComesAt.mem {as : List Param} {xs : List TExpr} (h : ComesAt env as xs b y c) : y ∈ xs := by
  obtain ⟨pre, post, -, rfl, -⟩ := h
  simp

/-- Arguments before the point keep the locals. -/
lemma ComesAt.keeps {as : List Param} {xs : List TExpr} (h : ComesAt env as xs b y c) :
    b.Keeps c := by
  obtain ⟨pre, post, q, -, h⟩ := h
  exact spares_of_gives (Discipline.arguments_gives _ _ (exprs_spare pre)) b q c h

/-- What is come to is a part. -/
lemma Comes.mem_parts (h : Comes env b x y c) : y ∈ x.parts := by
  cases x with
  | ident | self | literal => cases h
  | unary | member | deref => exact List.mem_singleton.2 h.1
  | binary _ _ _ f x x' =>
    cases f with
    | none => obtain ⟨rfl, -⟩ | ⟨rfl, -⟩ := h <;> simp [TExpr.parts]
    | some f => exact ComesAt.mem h
  | index => obtain ⟨rfl, -⟩ | ⟨rfl, -⟩ := h <;> simp [TExpr.parts]
  | method _ _ x _ args f =>
    cases f with
    | none => cases h
    | some f =>
      obtain ⟨rfl, -⟩ | ⟨_, _, -, h⟩ := h
      · exact List.mem_cons_self
      · exact List.mem_cons_of_mem _ h.mem
  | routine _ _ _ _ args f =>
    obtain _ | _ | f | f := f
    · cases h
    · exact List.mem_of_mem_head? h.1
    · exact ComesAt.mem h
    · obtain ⟨_, -, h⟩ := h
      exact h.mem
  | ccall _ _ _ args f =>
    cases f with
    | none => cases h
    | some f => exact ComesAt.mem h

/-- What is lowered before a part of an expression does nothing to the locals. -/
lemma Comes.keeps (h : Comes env b x y c) : b.Keeps c := by
  cases x with
  | ident | self | literal => cases h
  | unary | member | deref => exact h.2 ▸ .refl b
  | binary _ _ _ f x x' =>
    cases f with
    | none =>
      obtain ⟨-, rfl⟩ | ⟨-, o, h⟩ := h
      · exact .refl _
      · exact spares_of_gives (Discipline.value_gives (expr_spares x) ()) b o c h
    | some f => exact ComesAt.keeps h
  | index _ _ x i =>
    obtain ⟨-, rfl⟩ | ⟨-, o, h⟩ := h
    · exact .refl _
    · exact spares_of_gives (Discipline.Pairs.bind (Discipline.object_gives (expr_spares x) ())
        fun _ _ _ hq => Discipline.loadField_gives hq _) b o c h
  | method _ _ x _ args f =>
    cases f with
    | none => cases h
    | some f =>
      obtain ⟨-, rfl⟩ | ⟨o, b₁, h₁, h⟩ := h
      · exact .refl _
      · exact (spares_of_gives (Discipline.receiver_gives (expr_spares x) ()) b o b₁
          h₁).trans h.keeps
  | routine _ _ _ _ args f =>
    obtain _ | _ | f | f := f
    · cases h
    · exact h.2 ▸ .refl b
    · exact ComesAt.keeps h
    · obtain ⟨b₁, rfl | ⟨o, h₁⟩, h⟩ := h
      · exact h.keeps
      · exact (spares_of_gives (Discipline.slotFor_gives _ _) b o b₁ h₁).trans h.keeps
  | ccall _ _ _ args f =>
    cases f with
    | none => cases h
    | some f => exact ComesAt.keeps h

/-- What is evaluated on the way is a part of the expression. -/
lemma Evaluates.has (h : Evaluates env x b y c) : x.Has y := by
  induction h with
  | refl => exact .refl _
  | part hy _ ih => exact .part hy.mem_parts ih

/-- **Expressions leave the storage of locals alone**: it is the same at all their points. -/
theorem Evaluates.keeps (h : Evaluates env x b y c) : b.Keeps c := by
  induction h with
  | refl => exact .refl _
  | part hy _ ih => exact hy.keeps.trans ih

end Expressions

end Lane.Lowering
