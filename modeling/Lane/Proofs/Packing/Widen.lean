import Lane.Packing.Widen
import Mathlib.Data.List.Forall2
import Mathlib.Tactic.Lemma

set_option relaxedAutoImplicit false
set_option autoImplicit false

/-!
# Counterparts

What is known about the computations that emit packed code if they succeed. Operands and labels get
counterparts one for one, which they keep. Besides these, packed code uses registers of its own.

## Main definitions

* `Lane.Packing.Makes`: computations that succeed.
* `Lane.Packing.Orderly`: states with counterparts one for one.
* `Lane.Packing.Extends`: states in which all counterparts are kept.
* `Lane.Packing.Own`: registers that are counterparts of nothing.
* `Lane.Packing.counterpartsOf`: the counterparts of the operands of a function.

## Main results

* `Lane.Packing.operand_spec`, `Lane.Packing.label_spec`: operands and labels have counterparts.
* `Lane.Packing.vector_spec`: a shared value is spread over a register of its own.
-/

namespace Lane.Packing

open Lane.Code

/-! ## Computations that succeed -/

/-- **Computations that succeed**, with a result, in a new state. -/
def Makes {α : Type} (env : WidenEnv) (x : Widen α) (σ : WidenState) (a : α) (σ' : WidenState) :
    Prop :=
  (x.run env).run σ = .ok (a, σ')

section Makes

variable {α β : Type} {env e : WidenEnv} {σ σ' σ'' : WidenState} {x : Widen α} {f : α → Widen β}
  {a b : α} {c : β}

/-- What a sequence makes. -/
@[simp] lemma makes_bind : Makes env (x >>= f) σ c σ'' ↔
    ∃ a σ', Makes env x σ a σ' ∧ Makes env (f a) σ' c σ'' := by
  unfold Makes
  rw [ReaderT.run_bind, StateT.run_bind]
  cases h : (x.run env).run σ with
  | error => simp [bind, Except.bind]
  | ok q =>
    obtain ⟨a, σ'⟩ := q
    constructor
    · exact fun h => ⟨a, σ', rfl, h⟩
    · rintro ⟨_, _, h, h'⟩
      cases h
      exact h'

/-- A computation without effects makes nothing. -/
@[simp] lemma makes_pure : Makes env (pure a) σ b σ' ↔ a = b ∧ σ = σ' := by
  unfold Makes
  constructor
  · intro h
    cases h
    exact ⟨rfl, rfl⟩
  · rintro ⟨rfl, rfl⟩
    rfl

/-- Reading the environment makes nothing. -/
@[simp] lemma makes_read : Makes env read σ e σ' ↔ env = e ∧ σ = σ' := by
  unfold Makes
  constructor
  · intro h
    cases h
    exact ⟨rfl, rfl⟩
  · rintro ⟨rfl, rfl⟩
    rfl

/-- Reading the state makes nothing. -/
@[simp] lemma makes_get : Makes env get σ σ'' σ' ↔ σ = σ'' ∧ σ = σ' := by
  unfold Makes
  constructor
  · intro h
    cases h
    exact ⟨rfl, rfl⟩
  · rintro ⟨rfl, rfl⟩
    rfl

/-- The state is changed. -/
@[simp] lemma makes_modify {g : WidenState → WidenState} {u : Unit} :
    Makes env (modify g) σ u σ' ↔ g σ = σ' := by
  unfold Makes
  constructor
  · intro h
    cases h
    rfl
  · rintro rfl
    rfl

/-- The state is read and changed. -/
@[simp] lemma makes_modifyGet {g : WidenState → α × WidenState} :
    Makes env (modifyGet g) σ a σ' ↔ g σ = (a, σ') := by
  unfold Makes
  constructor
  · intro h
    exact Except.ok.inj h
  · intro h
    exact congrArg Except.ok h

/-- What fails makes nothing. -/
@[simp] lemma makes_throw {y : Stop} : ¬Makes env (throw y : Widen α) σ a σ' := fun h => by cases h

/-- What is refused makes nothing. -/
@[simp] lemma makes_refuse {y : Obstacle} : ¬Makes env (refuse y : Widen α) σ a σ' :=
  fun h => by cases h

/-- An emitted instruction comes last. -/
@[simp] lemma makes_emit {i : Instr} {u : Unit} :
    Makes env (emit i) σ u σ' ↔ { σ with code := σ.code ++ [i] } = σ' :=
  makes_modify

/-- The lanes that are looked up are those of the environment. -/
@[simp] lemma makes_laneOf {o : Operand} {l : LaneKind} :
    Makes env (laneOf o) σ l σ' ↔ env.lanes.get o = l ∧ σ = σ' := by
  unfold laneOf
  simp only [makes_bind, makes_read, makes_pure]
  constructor
  · rintro ⟨_, _, ⟨rfl, rfl⟩, rfl, rfl⟩
    exact ⟨rfl, rfl⟩
  · rintro ⟨rfl, rfl⟩
    exact ⟨_, _, ⟨rfl, rfl⟩, rfl, rfl⟩

end Makes

/-! ## Counterparts -/

/-- What the counterpart of an operand is. A slot that holds a single value holds one for each
instance if it is packed. -/
def IsCounterpart (env : WidenEnv) (o n : Operand) : Prop :=
  match o, n with
  | .const c, n => n = .const c
  | .reg r, .reg r' => r'.type = (env.lanes.get (.reg r)).type env.width r.type
  | .var v, .var v' => v'.type = (env.lanes.get (.var v)).type env.width v.type
  | .slot x, .slot y => x.struct = none → y.struct = none ∧
      y.size = if env.lanes.get (.slot x) = .packed then x.size * .ofNat env.width else x.size
  | _, _ => False

/-- Operands that were made so far. -/
def Within (σ : WidenState) : Operand → Prop
  | .reg r => r.id ≤ σ.regs
  | .var v => v.id ≤ σ.vars.length
  | .slot x => x.id ≤ σ.slots.length
  | .const _ | .absent => True

/-- **Counterparts one for one**, all of which were made so far. -/
structure Orderly (env : WidenEnv) (σ : WidenState) : Prop where
  counterpart : ∀ o n, σ.operands.lookup o = some n → IsCounterpart env o n
  within : ∀ o n, σ.operands.lookup o = some n → Within σ n
  inj : ∀ o o' n, σ.operands.lookup o = some n → σ.operands.lookup o' = some n → o = o'
  label_within : ∀ l l', σ.labels.lookup l = some l' → l'.id ≤ σ.labelCount
  label_inj : ∀ l m l', σ.labels.lookup l = some l' → σ.labels.lookup m = some l' → l = m

/-- **Counterparts are kept**, and registers that were made before are the counterparts of nothing
else. -/
structure Extends (σ σ' : WidenState) : Prop where
  operands : ∀ o n, σ.operands.lookup o = some n → σ'.operands.lookup o = some n
  labels : ∀ l l', σ.labels.lookup l = some l' → σ'.labels.lookup l = some l'
  regs_le : σ.regs ≤ σ'.regs
  old : ∀ o r, σ'.operands.lookup o = some (.reg r) → r.id ≤ σ.regs →
    σ.operands.lookup o = some (.reg r)

section Counterparts

/-- What is looked up is the first entry or a later one. -/
lemma lookup_cons_iff {κ β : Type} [BEq κ] [LawfulBEq κ] {k a : κ} {b v : β} {l : List (κ × β)} :
    ((a, b) :: l).lookup k = some v ↔ k = a ∧ b = v ∨ k ≠ a ∧ l.lookup k = some v := by
  rw [List.lookup_cons]
  by_cases h : k = a <;> simp [h, beq_eq_false_iff_ne.2]

variable {env : WidenEnv} {σ σ' σ'' fin : WidenState} {o n : Operand} {os ns : List Operand}

/-- A state extends itself. -/
lemma Extends.refl (σ : WidenState) : Extends σ σ :=
  ⟨fun _ _ h => h, fun _ _ h => h, Nat.le_refl _, fun _ _ h _ => h⟩

/-- Extensions in sequence. -/
lemma Extends.trans (h : Extends σ σ') (h' : Extends σ' σ'') : Extends σ σ'' where
  operands o n ho := h'.operands o n (h.operands o n ho)
  labels l l' hl := h'.labels l l' (h.labels l l' hl)
  regs_le := Nat.le_trans h.regs_le h'.regs_le
  old o r ho hr := h.old o r (h'.old o r ho (Nat.le_trans hr h.regs_le)) hr

/-- Nothing but instructions was added. -/
lemma Orderly.congr (h : Orderly env σ) (ho : σ'.operands = σ.operands) (hl : σ'.labels = σ.labels)
    (hw : ∀ n, Within σ n → Within σ' n) (hc : σ.labelCount ≤ σ'.labelCount) : Orderly env σ' where
  counterpart o n hn := h.counterpart o n (ho ▸ hn)
  within o n hn := hw n (h.within o n (ho ▸ hn))
  inj o o' n hn hn' := h.inj o o' n (ho ▸ hn) (ho ▸ hn')
  label_within l l' hll := Nat.le_trans (h.label_within l l' (hl ▸ hll)) hc
  label_inj l m l' hll hml := h.label_inj l m l' (hl ▸ hll) (hl ▸ hml)

/-- Code does not matter to an orderly state. -/
lemma Orderly.code (h : Orderly env σ) (is : List Instr) : Orderly env { σ with code := is } :=
  h.congr rfl rfl (fun n hn => by cases n <;> exact hn) (Nat.le_refl _)

/-- Code does not matter to what a state extends. -/
lemma Extends.code (h : Extends σ σ') (is : List Instr) : Extends σ { σ' with code := is } :=
  ⟨h.operands, h.labels, h.regs_le, h.old⟩

/-- Code that was there does not matter to an extension. -/
lemma Extends.of_code {is : List Instr} (h : Extends { σ with code := is } σ') : Extends σ σ' :=
  ⟨h.operands, h.labels, h.regs_le, h.old⟩

/-- The empty state is orderly. -/
lemma orderly_empty (env : WidenEnv) : Orderly env {} where
  counterpart _ _ h := by cases h
  within _ _ h := by cases h
  inj _ _ _ h := by cases h
  label_within l l' h := by
    obtain ⟨-, rfl⟩ | ⟨-, h⟩ := lookup_cons_iff.1 h
    · decide
    · obtain ⟨-, rfl⟩ | ⟨-, h⟩ := lookup_cons_iff.1 h
      · decide
      · cases h
  label_inj l m l' h h' := by
    simp only [lookup_cons_iff, List.lookup_nil, reduceCtorEq, and_false, or_false] at h h'
    obtain ⟨rfl, rfl⟩ | ⟨-, rfl, rfl⟩ := h <;> obtain ⟨rfl, hl⟩ | ⟨-, rfl, hl⟩ := h'
    · rfl
    · cases hl
    · cases hl
    · rfl

/-- **A new counterpart**: a constant, or an operand with a new number. -/
structure IsNew (env : WidenEnv) (o : Operand) (σ : WidenState) (n : Operand) (σ' : WidenState) :
    Prop where
  counterpart : IsCounterpart env o n
  within : Within σ' n
  new : (∃ c, n = .const c) ∨ ¬Within σ n
  operands_eq : σ'.operands = σ.operands
  labels_eq : σ'.labels = σ.labels
  labelCount_eq : σ'.labelCount = σ.labelCount
  code_eq : σ'.code = σ.code
  regs_le : σ.regs ≤ σ'.regs
  vars_le : σ.vars.length ≤ σ'.vars.length
  slots_le : σ.slots.length ≤ σ'.slots.length

/-- A new slot is new for any slot of its struct and size. -/
lemma newSlot_isNew {x : Slot} {name : String} {size align : Int64} {struct : Option String}
    (h : Makes env (newSlot name size align struct) σ n σ')
    (hx : ∀ y : Slot, y.struct = struct → y.size = size → IsCounterpart env (.slot x) (.slot y)) :
    IsNew env (.slot x) σ n σ' := by
  simp only [newSlot, makes_modifyGet, Prod.mk.injEq] at h
  obtain ⟨rfl, rfl⟩ := h
  exact ⟨hx _ rfl rfl, by simp [Within], .inr (by simp [Within]), rfl, rfl, rfl, rfl, Nat.le_refl _,
    Nat.le_refl _, by simp⟩

/-- The counterpart of a slot is new. -/
lemma packSlot_isNew {x : Slot} (h : Makes env (packSlot x) σ n σ') :
    IsNew env (.slot x) σ n σ' := by
  simp only [packSlot, makes_bind, makes_read] at h
  obtain ⟨_, _, ⟨rfl, rfl⟩, h⟩ := h
  split at h
  · rename_i hpacked
    split at h
    · rename_i hx
      split at h
      · exact newSlot_isNew h fun _ _ _ hnone => nomatch hx.symm.trans hnone
      · exact (makes_throw h).elim
    · exact newSlot_isNew h fun y hy hsize _ => ⟨hy, hsize.trans (if_pos hpacked).symm⟩
  · rename_i hpacked
    exact newSlot_isNew h fun y hy hsize hnone =>
      ⟨hy.trans hnone, hsize.trans (if_neg hpacked).symm⟩

/-- The counterpart of an operand is new. -/
lemma packOperand_isNew (h : Makes env (packOperand o) σ n σ') : IsNew env o σ n σ' := by
  cases o with
  | const c =>
    simp only [packOperand, makes_bind, makes_read, makes_pure] at h
    obtain ⟨_, _, ⟨rfl, rfl⟩, rfl, rfl⟩ := h
    exact ⟨rfl, trivial, .inl ⟨c, rfl⟩, rfl, rfl, rfl, rfl, Nat.le_refl _, Nat.le_refl _,
      Nat.le_refl _⟩
  | reg r =>
    simp only [packOperand, newReg, makes_bind, makes_read, makes_modifyGet, Prod.mk.injEq] at h
    obtain ⟨_, _, ⟨rfl, rfl⟩, rfl, rfl⟩ := h
    exact ⟨rfl, Nat.le_refl _, .inr (Nat.not_succ_le_self _), rfl, rfl, rfl, rfl, Nat.le_succ _,
      Nat.le_refl _, Nat.le_refl _⟩
  | var v =>
    simp only [packOperand, newVar, makes_bind, makes_read, makes_modifyGet, Prod.mk.injEq] at h
    obtain ⟨_, _, ⟨rfl, rfl⟩, rfl, rfl⟩ := h
    exact ⟨rfl, by simp [Within], .inr (by simp [Within]), rfl, rfl, rfl, rfl, Nat.le_refl _,
      by simp, Nat.le_refl _⟩
  | slot x =>
    simp only [packOperand, makes_bind, makes_read] at h
    obtain ⟨_, _, ⟨rfl, rfl⟩, h⟩ := h
    exact packSlot_isNew h
  | absent => simp [packOperand] at h

/-- Operands stay made. -/
lemma IsNew.mono (h : IsNew env o σ n σ') {n' : Operand} (hn : Within σ n') : Within σ' n' := by
  cases n' with
  | reg => exact Nat.le_trans hn h.regs_le
  | var => exact Nat.le_trans hn h.vars_le
  | slot => exact Nat.le_trans hn h.slots_le
  | const | absent => trivial

/-- Nothing but a constant is the counterpart of that constant. -/
lemma IsCounterpart.of_const {c : Const} (h : IsCounterpart env o (.const c)) : o = .const c := by
  cases o with
  | const c' => exact congrArg _ (Operand.const.inj h).symm
  | _ => exact h.elim

/-- **Operands have counterparts**. -/
lemma operand_spec (h : Makes env (operand o) σ n σ') (hσ : Orderly env σ) :
    Orderly env σ' ∧ Extends σ σ' ∧ σ'.code = σ.code ∧ σ'.operands.lookup o = some n := by
  simp only [operand, makes_bind, makes_get] at h
  obtain ⟨_, _, ⟨rfl, rfl⟩, h⟩ := h
  split at h
  · rename_i n' hn'
    obtain ⟨rfl, rfl⟩ := makes_pure.1 h
    exact ⟨hσ, .refl σ, rfl, hn'⟩
  · rename_i hnone
    simp only [makes_bind, makes_modify, makes_pure] at h
    obtain ⟨n', σ₁, hpack, _, _, rfl, rfl, rfl⟩ := h
    have hnew := packOperand_isNew hpack
    have hlook : ∀ o' n, (List.lookup o' ((o, n') :: σ₁.operands) = some n) ↔
        o' = o ∧ n' = n ∨ o' ≠ o ∧ σ.operands.lookup o' = some n := fun o' n => by
      rw [lookup_cons_iff, hnew.operands_eq]
    -- The counterpart is not that of another operand.
    have other : ∀ o', o' ≠ o → σ.operands.lookup o' ≠ some n' := by
      intro o' ho' h
      obtain ⟨c, rfl⟩ | hnot := hnew.new
      · exact ho' ((hσ.counterpart o' _ h).of_const.trans hnew.counterpart.of_const.symm)
      · exact hnot (hσ.within o' n' h)
    refine ⟨⟨fun o' n hn => ?_, fun o' n hn => ?_, fun o₁ o₂ n h₁ h₂ => ?_, fun l l' hl => ?_,
      fun l m l' hl hm => ?_⟩, ⟨fun o' n hn => ?_, fun l l' hl => ?_, hnew.regs_le,
      fun o' r hr hle => ?_⟩, hnew.code_eq, by simp⟩
    · obtain ⟨rfl, rfl⟩ | ⟨-, hn⟩ := (hlook o' n).1 hn
      · exact hnew.counterpart
      · exact hσ.counterpart o' n hn
    · have hwithin : Within σ₁ n := by
        obtain ⟨rfl, rfl⟩ | ⟨-, hn⟩ := (hlook o' n).1 hn
        · exact hnew.within
        · exact hnew.mono (hσ.within o' n hn)
      cases n <;> exact hwithin
    · obtain ⟨he₁, hn₁⟩ | ⟨hne₁, hn₁⟩ := (hlook o₁ n).1 h₁ <;>
        obtain ⟨he₂, hn₂⟩ | ⟨hne₂, hn₂⟩ := (hlook o₂ n).1 h₂
      · exact he₁.trans he₂.symm
      · exact (other o₂ hne₂ (hn₁ ▸ hn₂)).elim
      · exact (other o₁ hne₁ (hn₂ ▸ hn₁)).elim
      · exact hσ.inj o₁ o₂ n hn₁ hn₂
    · rw [hnew.labelCount_eq]
      exact hσ.label_within l l' (hnew.labels_eq ▸ hl)
    · exact hσ.label_inj l m l' (hnew.labels_eq ▸ hl) (hnew.labels_eq ▸ hm)
    · refine (hlook o' n).2 (.inr ⟨fun he => ?_, hn⟩)
      cases (he ▸ hnone).symm.trans hn
    · exact hnew.labels_eq ▸ hl
    · obtain ⟨-, rfl⟩ | ⟨-, hr⟩ := (hlook o' _).1 hr
      · obtain ⟨c, hc⟩ | hnot := hnew.new
        · cases hc
        · exact (hnot hle).elim
      · exact hr

/-- The counterpart of an operand is found where it was made. -/
lemma lookup_of_operand (h : Makes env (operand o) σ n σ') (hσ : Orderly env σ) :
    σ'.operands.lookup o = some n :=
  (operand_spec h hσ).2.2.2

/-- Operands have counterparts in order. -/
lemma operands_spec : ∀ {os ns : List Operand} {σ σ' : WidenState},
    Makes env (operands os) σ ns σ' → Orderly env σ → Orderly env σ' ∧ Extends σ σ' ∧
      σ'.code = σ.code ∧ List.Forall₂ (fun o n => σ'.operands.lookup o = some n) os ns
  | [], _, _, _, h, hσ => by
    obtain ⟨rfl, rfl⟩ := makes_pure.1 h
    exact ⟨hσ, .refl _, rfl, .nil⟩
  | o :: os, _, _, _, h, hσ => by
    simp only [operands, makes_bind, makes_pure] at h
    obtain ⟨n, σ₁, ho, ns, σ₂, hos, rfl, rfl⟩ := h
    obtain ⟨h₁, he₁, hc₁, hn⟩ := operand_spec ho hσ
    obtain ⟨h₂, he₂, hc₂, hns⟩ := operands_spec hos h₁
    exact ⟨h₂, he₁.trans he₂, hc₂.trans hc₁, .cons (he₂.operands _ _ hn) hns⟩

/-- **Labels have counterparts**. -/
lemma label_spec {l l' : Label} (h : Makes env (label l) σ l' σ') (hσ : Orderly env σ) :
    Orderly env σ' ∧ Extends σ σ' ∧ σ'.code = σ.code ∧ σ'.labels.lookup l = some l' := by
  simp only [label, makes_bind, makes_get] at h
  obtain ⟨_, _, ⟨rfl, rfl⟩, h⟩ := h
  split at h
  · rename_i m hm
    obtain ⟨rfl, rfl⟩ := makes_pure.1 h
    exact ⟨hσ, .refl σ, rfl, hm⟩
  · rename_i hnone
    simp only [makes_modifyGet, Prod.mk.injEq] at h
    obtain ⟨rfl, rfl⟩ := h
    have new : ∀ m m', σ.labels.lookup m = some m' → m' ≠ ⟨σ.labelCount + 1, l.hint⟩ := by
      rintro m m' hm rfl
      exact Nat.not_succ_le_self _ (hσ.label_within m _ hm)
    refine ⟨⟨hσ.counterpart, fun o n hn => ?_, hσ.inj, fun m m' hm => ?_, fun m₁ m₂ m' h₁ h₂ => ?_⟩,
      ⟨fun _ _ h => h, fun m m' hm => ?_, Nat.le_refl _, fun _ _ h _ => h⟩, rfl, by simp⟩
    · have := hσ.within o n hn
      cases n <;> exact this
    · obtain ⟨-, rfl⟩ | ⟨-, hm⟩ := lookup_cons_iff.1 hm
      · exact Nat.le_refl _
      · exact Nat.le_succ_of_le (hσ.label_within m m' hm)
    · obtain ⟨he₁, hm₁⟩ | ⟨-, hm₁⟩ := lookup_cons_iff.1 h₁ <;>
        obtain ⟨he₂, hm₂⟩ | ⟨-, hm₂⟩ := lookup_cons_iff.1 h₂
      · exact he₁.trans he₂.symm
      · exact (new m₂ m' hm₂ hm₁.symm).elim
      · exact (new m₁ m' hm₁ hm₂.symm).elim
      · exact hσ.label_inj m₁ m₂ m' hm₁ hm₂
    · refine lookup_cons_iff.2 (.inr ⟨fun he => ?_, hm⟩)
      cases (he ▸ hnone).symm.trans hm

/-! ## Own registers -/

/-- **Own registers** of packed code: new ones, which are the counterparts of nothing. -/
structure Own (σ σ' : WidenState) (r : Reg) : Prop where
  lt : σ.regs < r.id
  le : r.id ≤ σ'.regs
  ne : ∀ o, σ'.operands.lookup o ≠ some (.reg r)

/-- A register of its own stays so. -/
lemma Own.mono {r : Reg} (h : Own σ σ' r) (h' : Extends σ' σ'') : Own σ σ'' r where
  lt := h.lt
  le := Nat.le_trans h.le h'.regs_le
  ne o ho := h.ne o (h'.old o r ho h.le)

/-- A register that is made for packed code is its own. -/
lemma newReg_spec {t : VType} (h : Makes env (newReg t) σ n σ') (hσ : Orderly env σ) :
    Orderly env σ' ∧ Extends σ σ' ∧ σ'.code = σ.code ∧
      ∃ r, n = .reg r ∧ r.type = t ∧ Own σ σ' r := by
  simp only [newReg, makes_modifyGet, Prod.mk.injEq] at h
  obtain ⟨rfl, rfl⟩ := h
  refine ⟨hσ.congr rfl rfl (fun n hn => ?_) (Nat.le_refl _),
    ⟨fun _ _ h => h, fun _ _ h => h, Nat.le_succ _, fun _ _ h _ => h⟩, rfl, _, rfl, rfl,
    Nat.lt_succ_self _, Nat.le_refl _, fun o ho => ?_⟩
  · cases n with
    | reg => exact Nat.le_succ_of_le hn
    | _ => exact hn
  · exact Nat.not_succ_le_self _ (hσ.within o _ ho)

/-- **Vectors**: a counterpart that is a vector, or one that is spread over an own register. -/
lemma vector_spec (h : Makes env (vector o) σ n σ') (hσ : Orderly env σ) :
    Orderly env σ' ∧ Extends σ σ' ∧ ∃ n₀, σ'.operands.lookup o = some n₀ ∧
      (n₀.type.isVector ∧ n = n₀ ∧ σ'.code = σ.code ∨
        n₀.type.isVector = false ∧ σ'.code = σ.code ++ [.assign .splat n [n₀]] ∧
          ∃ r, n = .reg r ∧ r.type = n₀.type.vector env.width ∧ Own σ σ' r) := by
  simp only [vector, makes_bind] at h
  obtain ⟨n₀, σ₁, ho, h⟩ := h
  obtain ⟨h₁, he₁, hc₁, hn⟩ := operand_spec ho hσ
  split at h
  · rename_i hv
    obtain ⟨rfl, rfl⟩ := makes_pure.1 h
    exact ⟨h₁, he₁, n₀, hn, .inl ⟨hv, rfl, hc₁⟩⟩
  · rename_i hv
    simp only [makes_bind, makes_read, makes_emit, makes_pure] at h
    obtain ⟨_, _, ⟨rfl, rfl⟩, m, σ₂, hnew, _, _, rfl, rfl, rfl⟩ := h
    obtain ⟨h₂, he₂, hc₂, r, rfl, hr, hown⟩ := newReg_spec hnew h₁
    refine ⟨h₂.code _, he₁.trans (he₂.code _), n₀, he₂.operands _ _ hn,
      .inr ⟨Bool.eq_false_iff.2 hv, ?_, r, rfl, hr, ?_⟩⟩
    · rw [← hc₁, ← hc₂]
    · exact ⟨Nat.lt_of_le_of_lt he₁.regs_le hown.lt, hown.le, hown.ne⟩

end Counterparts

/-! ## Functions -/

/-- What is made of a function before it is verified. -/
def buildOf (f : Function) : Widen (List Operand × List Operand) := do
  let params ← operands f.params
  let results ← operands f.results
  Packing.code f.params f.results f.instrs
  return (params, results)

/-- **The counterparts of operands** in what is made of a function. -/
def counterpartsOf (env : WidenEnv) (f : Function) : List (Operand × Operand) :=
  match ((buildOf f).run env).run {} with
  | .ok (_, σ) => σ.operands
  | .error _ => []

/-- The counterparts are those at the end. -/
lemma counterpartsOf_eq {env : WidenEnv} {f : Function} {ps rs : List Operand}
    {σ₁ σ₂ σ₃ : WidenState} (hps : Makes env (operands f.params) {} ps σ₁)
    (hrs : Makes env (operands f.results) σ₁ rs σ₂)
    (hcode : Makes env (Packing.code f.params f.results f.instrs) σ₂ () σ₃) :
    counterpartsOf env f = σ₃.operands := by
  have hrun : Makes env (buildOf f) {} (ps, rs) σ₃ := by
    simp only [buildOf, makes_bind, makes_pure]
    exact ⟨_, _, hps, _, _, hrs, _, _, hcode, rfl, rfl⟩
  unfold counterpartsOf
  rw [show ((buildOf f).run env).run {} = .ok ((ps, rs), σ₃) from hrun]

/-- A packed version is what is made of the parameters, the results and the instructions. -/
lemma of_packFunction_eq_ok {env : PackEnv} {d : DeclLanes} {f g : Function}
    (h : packFunction env d f = .ok g) : ∃ σ₁ σ₂ σ₃ : WidenState,
      Makes ⟨env, Lanes.ofFunction env d f⟩ (operands f.params) {} g.params σ₁ ∧
      Makes ⟨env, Lanes.ofFunction env d f⟩ (operands f.results) σ₁ g.results σ₂ ∧
      Makes ⟨env, Lanes.ofFunction env d f⟩ (Packing.code f.params f.results f.instrs) σ₂ () σ₃ ∧
      g = ⟨d.decl, g.params, g.results, σ₃.vars, σ₃.slots, Function.frame σ₃.code⟩ := by
  change ((buildOf f).run ⟨env, Lanes.ofFunction env d f⟩).run {} >>= _ = _ at h
  cases hrun : ((buildOf f).run ⟨env, Lanes.ofFunction env d f⟩).run {} with
  | error x =>
    rw [hrun] at h
    cases h
  | ok r =>
    have hmakes : Makes ⟨env, Lanes.ofFunction env d f⟩ (buildOf f) {} r.1 r.2 := hrun
    simp only [buildOf, makes_bind, makes_pure] at hmakes
    obtain ⟨params, σ₁, hps, results, σ₂, hrs, _, σ₃, hcode, hr, rfl⟩ := hmakes
    rw [hrun] at h
    simp only [bind, Except.bind, ← hr] at h
    split at h
    · obtain rfl := Except.ok.inj h
      exact ⟨σ₁, σ₂, r.2, hps, hrs, hcode, rfl⟩
    · cases h

end Lane.Packing
