import Lane.Proofs.Code.Blocks
import Lane.Proofs.Lowering.Confined
import Lane.Proofs.Packing.Program

set_option relaxedAutoImplicit false
set_option autoImplicit false

/-!
# Packed functions are well formed

The packed version of tidy code is tidy. Every register that scalar code assigned in its block has a
counterpart that packed code assigned in the same block. Besides these, packed code assigns spare
registers, each of them once and where it is made.

## Main definitions

* `Lane.Packing.Carries`: registers that have been assigned in both versions.
* `Lane.Packing.Spare`: registers whose number no counterpart has.
* `Lane.Packing.Confines`: computations that keep packed code confined.

## Main results

* `Lane.Packing.instr_confines`: the packed code of an instruction.
* `Lane.Packing.isTidy_of_makes`: the packed version of tidy code is tidy.
* `Lane.Accepted.packed_wellFormed`: the functions of a packed program have well-formed registers
  and labels.
-/

namespace Lane.Packing

open Lane.Code
open Lane.Lowering (Assigned)

variable {env : WidenEnv} {σ σ' σ'' : WidenState} {o n : Operand} {L M S T : List Reg}
  {js ks : List Instr}

/-! ## Numbers -/

/-- **Counterparts with numbers of their own**. -/
structure NumbersApart (σ : WidenState) : Prop where
  regs : ∀ o o' r r', σ.operands.lookup o = some (.reg r) → σ.operands.lookup o' = some (.reg r') →
    r.id = r'.id → o = o'
  labels : ∀ l m l' m', σ.labels.lookup l = some l' → σ.labels.lookup m = some m' →
    l'.id = m'.id → l = m

/-- At first there are no counterparts. -/
lemma numbersApart_empty : NumbersApart {} where
  regs _ _ _ _ h := by cases h
  labels l m l' m' h h' he := by
    simp only [lookup_cons_iff, List.lookup_nil, reduceCtorEq, and_false, or_false] at h h'
    obtain ⟨rfl, rfl⟩ | ⟨-, rfl, rfl⟩ := h <;> obtain ⟨rfl, rfl⟩ | ⟨-, rfl, rfl⟩ := h' <;>
      first | rfl | exact absurd he (by decide)

/-- Only operands and labels have numbers. -/
lemma NumbersApart.congr (h : NumbersApart σ) (ho : σ'.operands = σ.operands)
    (hl : σ'.labels = σ.labels) : NumbersApart σ' :=
  ⟨ho ▸ h.regs, hl ▸ h.labels⟩

/-- The counterparts of different registers have different numbers. -/
lemma NumbersApart.nodup_ids (h : NumbersApart σ) : ∀ {ss rs : List Reg},
    List.Forall₂ (fun s r => σ.operands.lookup (.reg s) = some (.reg r)) ss rs → ss.Nodup →
    (rs.map Reg.id).Nodup
  | [], _, .nil, _ => List.nodup_nil
  | s :: ss, _, .cons hl hrest, hn => by
    obtain ⟨hs, hss⟩ := List.nodup_cons.1 hn
    refine List.nodup_cons.2 ⟨fun hmem => ?_, h.nodup_ids hrest hss⟩
    obtain ⟨r', hr', heq⟩ := List.mem_map.1 hmem
    obtain ⟨s', hs', hl'⟩ := exists_of_forall₂ hrest.flip hr'
    obtain rfl := Operand.reg.inj (h.regs _ _ _ _ hl' hl heq)
    exact hs hs'

/-- A new counterpart has a new number. -/
lemma operand_numbersApart (h : Makes env (operand o) σ n σ') (hσ : Orderly env σ)
    (hn : NumbersApart σ) : NumbersApart σ' := by
  simp only [operand, makes_bind, makes_get] at h
  obtain ⟨_, _, ⟨rfl, rfl⟩, h⟩ := h
  split at h
  · obtain ⟨rfl, rfl⟩ := makes_pure.1 h
    exact hn
  · simp only [makes_bind, makes_modify, makes_pure] at h
    obtain ⟨n', σ₁, hpack, _, _, rfl, rfl, rfl⟩ := h
    have hnew := packOperand_isNew hpack
    have new : ∀ o' r r', n' = .reg r → σ₁.operands.lookup o' = some (.reg r') → r.id ≠ r'.id := by
      rintro o' r r' rfl hr' he
      obtain ⟨c, hc⟩ | hnot := hnew.new
      · cases hc
      · have hle : r'.id ≤ σ.regs := hσ.within o' (.reg r') (hnew.operands_eq ▸ hr')
        exact hnot (he ▸ hle : r.id ≤ σ.regs)
    refine ⟨fun o₁ o₂ r₁ r₂ h₁ h₂ he => ?_, hnew.labels_eq ▸ hn.labels⟩
    obtain ⟨rfl, hr₁⟩ | ⟨-, hr₁⟩ := lookup_cons_iff.1 h₁ <;>
      obtain ⟨rfl, hr₂⟩ | ⟨-, hr₂⟩ := lookup_cons_iff.1 h₂
    · rfl
    · exact absurd he (new o₂ r₁ r₂ hr₁ hr₂)
    · exact absurd he.symm (new o₁ r₂ r₁ hr₂ hr₁)
    · exact hn.regs o₁ o₂ r₁ r₂ (hnew.operands_eq ▸ hr₁) (hnew.operands_eq ▸ hr₂) he

/-- A new label has a new number. -/
lemma label_numbersApart {l l' : Label} (h : Makes env (label l) σ l' σ') (hσ : Orderly env σ)
    (hn : NumbersApart σ) : NumbersApart σ' ∧ σ'.operands = σ.operands := by
  simp only [label, makes_bind, makes_get] at h
  obtain ⟨_, _, ⟨rfl, rfl⟩, h⟩ := h
  split at h
  · obtain ⟨rfl, rfl⟩ := makes_pure.1 h
    exact ⟨hn, rfl⟩
  · simp only [makes_modifyGet, Prod.mk.injEq] at h
    obtain ⟨rfl, rfl⟩ := h
    have new : ∀ m m', σ.labels.lookup m = some m' → σ.labelCount + 1 ≠ m'.id := fun m m' hm he =>
      Nat.not_succ_le_self _ (he ▸ hσ.label_within m m' hm)
    refine ⟨⟨hn.regs, fun l₁ l₂ m₁ m₂ h₁ h₂ he => ?_⟩, rfl⟩
    obtain ⟨rfl, rfl⟩ | ⟨-, hl₁⟩ := lookup_cons_iff.1 h₁ <;>
      obtain ⟨rfl, rfl⟩ | ⟨-, hl₂⟩ := lookup_cons_iff.1 h₂
    · rfl
    · exact absurd he (new l₂ m₂ hl₂)
    · exact absurd he.symm (new l₁ m₁ hl₁)
    · exact hn.labels l₁ l₂ m₁ m₂ hl₁ hl₂ he

/-! ## Registers that packed code assigns -/

/-- **Spare registers**: new ones, whose number no counterpart has. -/
structure Spare (σ σ' : WidenState) (r : Reg) : Prop where
  lt : σ.regs < r.id
  le : r.id ≤ σ'.regs
  ne : ∀ o r', σ'.operands.lookup o = some (.reg r') → r'.id ≠ r.id

/-- What is spare stays so later. -/
lemma Spare.mono {r : Reg} (h : Spare σ σ' r) (he : Extends σ' σ'') : Spare σ σ'' r where
  lt := h.lt
  le := Nat.le_trans h.le he.regs_le
  ne o r' hr' heq := h.ne o r' (he.old o r' hr' (heq ▸ h.le)) heq

/-- What is spare after some steps is spare for all of them. -/
lemma Spare.of_extends {r : Reg} (h : Spare σ' σ'' r) (he : Extends σ σ') : Spare σ σ'' r :=
  ⟨Nat.lt_of_le_of_lt he.regs_le h.lt, h.le, h.ne⟩

/-- **Assigned registers**: packed code assigns the counterparts of the registers `T`, and spare
registers, each of them once. -/
structure Assigns (σ σ' : WidenState) (T : List Reg) (js : List Instr) : Prop where
  defines : ∀ s ∈ T, ∃ r ∈ js.flatMap Instr.defines, σ'.operands.lookup (.reg s) = some (.reg r)
  origin : ∀ r ∈ js.flatMap Instr.defines,
    (∃ s ∈ T, σ'.operands.lookup (.reg s) = some (.reg r)) ∨ Spare σ σ' r
  nodup : ((js.flatMap Instr.defines).map Reg.id).Nodup

/-- No code assigns nothing. -/
lemma Assigns.nil (σ σ' : WidenState) : Assigns σ σ' [] [] := ⟨nofun, nofun, List.nodup_nil⟩

/-- Code that assigns different registers, one after the other. -/
lemma Assigns.trans (h : Assigns σ σ' S js) (h' : Assigns σ' σ'' T ks) (he : Extends σ σ')
    (he' : Extends σ' σ'') (hn : NumbersApart σ'') (hd : S.Disjoint T) :
    Assigns σ σ'' (S ++ T) (js ++ ks) where
  defines s hs := by
    rw [List.flatMap_append]
    obtain hs | hs := List.mem_append.1 hs
    · obtain ⟨r, hr, hl⟩ := h.defines s hs
      exact ⟨r, List.mem_append_left _ hr, he'.operands _ _ hl⟩
    · obtain ⟨r, hr, hl⟩ := h'.defines s hs
      exact ⟨r, List.mem_append_right _ hr, hl⟩
  origin r hr := by
    rw [List.flatMap_append] at hr
    obtain hr | hr := List.mem_append.1 hr
    · obtain ⟨s, hs, hl⟩ | hspare := h.origin r hr
      · exact .inl ⟨s, List.mem_append_left _ hs, he'.operands _ _ hl⟩
      · exact .inr (hspare.mono he')
    · obtain ⟨s, hs, hl⟩ | hspare := h'.origin r hr
      · exact .inl ⟨s, List.mem_append_right _ hs, hl⟩
      · exact .inr (hspare.of_extends he)
  nodup := by
    rw [List.flatMap_append, List.map_append, List.nodup_append']
    refine ⟨h.nodup, h'.nodup, fun i hi hi' => ?_⟩
    obtain ⟨r, hr, rfl⟩ := List.mem_map.1 hi
    obtain ⟨r', hr', heq⟩ := List.mem_map.1 hi'
    obtain ⟨s, hs, hl⟩ | hspare := h.origin r hr <;>
      obtain ⟨s', hs', hl'⟩ | hspare' := h'.origin r' hr'
    · obtain rfl := Operand.reg.inj (hn.regs _ _ _ _ hl' (he'.operands _ _ hl) heq)
      exact hd hs hs'
    · exact hspare'.ne _ r (he'.operands _ _ hl) heq.symm
    · exact (hspare.mono he').ne _ r' hl' heq
    · have h₁ := hspare.le
      have h₂ := hspare'.lt
      omega

/-! ## Computations that keep packed code confined -/

/-- **Carried registers**: those that scalar code assigned have counterparts that packed code
assigned. -/
def Carries (σ : WidenState) (L M : List Reg) : Prop :=
  ∀ s ∈ L, ∃ r ∈ M, σ.operands.lookup (.reg s) = some (.reg r)

/-- What computations may rely on. -/
structure Ready (env : WidenEnv) (σ : WidenState) (L M : List Reg) : Prop where
  orderly : Orderly env σ
  apart : NumbersApart σ
  carries : Carries σ L M

/-- What is carried stays so later, and more may be assigned. -/
lemma Carries.mono (h : Carries σ L M) (he : Extends σ σ') (hM : M ⊆ T) : Carries σ' L T := by
  intro s hs
  obtain ⟨r, hr, hl⟩ := h s hs
  exact ⟨r, hM hr, he.operands _ _ hl⟩

/-- Straight code forgets no register. -/
lemma mem_live_iff : ∀ {js : List Instr} {M : List Reg} {r : Reg}, (∀ j ∈ js, j.isStraight) →
    (r ∈ live M js ↔ r ∈ js.flatMap Instr.defines ∨ r ∈ M)
  | [], _, _, _ => by simp
  | j :: js, M, r, h => by
    obtain ⟨hj, hjs⟩ := List.forall_mem_cons.1 h
    rw [live_cons, mem_live_iff hjs, Instr.after_of_isStraight M hj, List.flatMap_cons,
      List.mem_append, List.mem_append]
    exact ⟨fun h => h.elim (.inl ∘ .inr) (Or.imp_left .inl), fun h => by tauto⟩

/-- What was assigned still is after straight code. -/
lemma subset_live (h : ∀ j ∈ js, j.isStraight) : M ⊆ live M js :=
  fun _ hr => (mem_live_iff h).2 (.inr hr)

/-- **Added code** that is straight and confined, and assigns the counterparts of the registers
`T`. -/
structure Adds (env : WidenEnv) (L M T : List Reg) (σ σ' : WidenState) (js : List Instr) :
    Prop where
  code_eq : σ'.code = σ.code ++ js
  straight : ∀ j ∈ js, j.isStraight
  confined : Confined M js
  assigns : Assigns σ σ' T js
  extend : Extends σ σ'
  orderly : Orderly env σ'
  apart : NumbersApart σ'

/-- After added code, what it assigned is carried. -/
lemma Adds.ready (h : Adds env L M T σ σ' js) (hr : Ready env σ L M) :
    Ready env σ' L (live M js) :=
  ⟨h.orderly, h.apart, hr.carries.mono h.extend (subset_live h.straight)⟩

/-- Code is added twice. -/
lemma Adds.trans (h : Adds env L M [] σ σ' js) (h' : Adds env L (live M js) T σ' σ'' ks) :
    Adds env L M T σ σ'' (js ++ ks) where
  code_eq := by rw [h'.code_eq, h.code_eq, List.append_assoc]
  straight := List.forall_mem_append.2 ⟨h.straight, h'.straight⟩
  confined := confined_append.2 ⟨h.confined, h'.confined⟩
  assigns := h.assigns.trans h'.assigns h.extend h'.extend h'.apart (List.disjoint_nil_left T)
  extend := h.extend.trans h'.extend
  orderly := h'.orderly
  apart := h'.apart

/-- **Computations that keep packed code confined**: if they succeed where scalar code assigned the
registers `L` and packed code the registers `M` in their last block, they add confined code, and the
result satisfies `R`. -/
structure Confines {α : Type} (env : WidenEnv) (L M T : List Reg) (σ : WidenState) (m : Widen α)
    (R : WidenState → List Reg → α → Prop) : Prop where
  of_makes : ∀ a σ', Makes env m σ a σ' → Ready env σ L M →
    ∃ js, Adds env L M T σ σ' js ∧ R σ' (live M js) a

section Confines

variable {α β γ : Type} {m : Widen α} {f : α → Widen β} {R : WidenState → List Reg → α → Prop}
  {Q : WidenState → List Reg → β → Prop}

/-- A computation without effects adds nothing. -/
lemma Confines.pure {a : α} (h : R σ M a) : Confines env L M [] σ (pure a) R where
  of_makes a' σ' hm hr := by
    obtain ⟨rfl, rfl⟩ := makes_pure.1 hm
    exact ⟨[], ⟨by simp, List.forall_mem_nil _, trivial, .nil _ _, .refl σ, hr.orderly, hr.apart⟩,
      h⟩

/-- Confined computations in sequence. -/
lemma Confines.bind (hm : Confines env L M [] σ m R)
    (hf : ∀ σ' M' a, Extends σ σ' → M ⊆ M' → R σ' M' a → Confines env L M' T σ' (f a) Q) :
    Confines env L M T σ (m >>= f) Q where
  of_makes c σ'' h hr := by
    obtain ⟨a, σ', hm', hf'⟩ := makes_bind.1 h
    obtain ⟨js, hjs, hR⟩ := hm.of_makes a σ' hm' hr
    obtain ⟨ks, hks, hQ⟩ :=
      (hf σ' _ a hjs.extend (subset_live hjs.straight) hR).of_makes c σ'' hf' (hjs.ready hr)
    exact ⟨js ++ ks, hjs.trans hks, by rwa [live_append]⟩

/-- What is refused adds nothing. -/
lemma Confines.refuse {x : Obstacle} : Confines env L M T σ (refuse x : Widen α) R :=
  ⟨fun _ _ h => (makes_refuse h).elim⟩

/-- What is refused does not go on. -/
lemma Confines.refused {x : Obstacle} :
    Confines env L M T σ ((Packing.refuse x : Widen α) >>= f) Q :=
  .bind (R := fun _ _ _ => False) .refuse fun _ _ _ _ _ h => h.elim

/-- What fails adds nothing. -/
lemma Confines.throw {x : Stop} : Confines env L M T σ (throw x : Widen α) R :=
  ⟨fun _ _ h => (makes_throw h).elim⟩

/-- The environment is read. -/
lemma Confines.read {g : WidenEnv → Widen β} (h : Confines env L M T σ (g env) Q) :
    Confines env L M T σ (read >>= g) Q where
  of_makes a σ' hm hr := by
    obtain ⟨_, _, hread, hg⟩ := makes_bind.1 hm
    obtain ⟨rfl, rfl⟩ := makes_read.1 hread
    exact h.of_makes a σ' hg hr

/-- The lanes of an operand are looked up. -/
lemma Confines.laneOf {g : LaneKind → Widen β}
    (h : Confines env L M T σ (g (env.lanes.get o)) Q) :
    Confines env L M T σ (laneOf o >>= g) Q where
  of_makes a σ' hm hr := by
    obtain ⟨_, _, hread, hg⟩ := makes_bind.1 hm
    obtain ⟨rfl, rfl⟩ := makes_laneOf.1 hread
    exact h.of_makes a σ' hg hr

/-! ### Operands -/

/-- The counterpart of an operand that may be used may be used. -/
lemma assigned_of_lookup (hr : Ready env σ L M) (ho : Assigned L o)
    (h : σ.operands.lookup o = some n) : Assigned M n := by
  rintro r rfl
  have hc := hr.orderly.counterpart o _ h
  cases o with
  | reg s =>
    obtain ⟨r', hr', hl⟩ := hr.carries s (ho s rfl)
    exact Operand.reg.inj (Option.some.inj (hl.symm.trans h)) ▸ hr'
  | const c => cases hc
  | var | slot | absent => exact hc.elim

/-- No code was added. -/
lemma Adds.nil (hr : Orderly env σ') (hn : NumbersApart σ') (he : Extends σ σ')
    (hc : σ'.code = σ.code) : Adds env L M [] σ σ' [] :=
  ⟨by simp [hc], List.forall_mem_nil _, trivial, .nil _ _, he, hr, hn⟩

/-- An operand has a counterpart, which may be used if the operand may. -/
lemma operand_confines (o : Operand) : Confines env L M [] σ (operand o) fun σ' M' n =>
    σ'.operands.lookup o = some n ∧ (Assigned L o → Assigned M' n) where
  of_makes n σ' h hr := by
    obtain ⟨hσ', he, hc, hl⟩ := operand_spec h hr.orderly
    have hadds : Adds env L M [] σ σ' [] :=
      .nil hσ' (operand_numbersApart h hr.orderly hr.apart) he hc
    exact ⟨[], hadds, hl, fun ho => assigned_of_lookup (hadds.ready hr) ho hl⟩

/-- Operands have counterparts, which may be used if the operands may. -/
lemma operands_confines : ∀ (os : List Operand) {σ : WidenState} {M : List Reg},
    Confines env L M [] σ (operands os) fun σ' M' ns =>
      List.Forall₂ (fun o n => σ'.operands.lookup o = some n) os ns ∧
        ((∀ o ∈ os, Assigned L o) → ∀ n ∈ ns, Assigned M' n)
  | [], _, _ => .pure ⟨.nil, fun _ => List.forall_mem_nil _⟩
  | o :: os, _, _ => by
    refine .bind (operand_confines o) fun σ₁ M₁ n _ _ hn =>
      .bind (operands_confines os) fun σ₂ M₂ ns he hM hns =>
      .pure ⟨.cons (he.operands _ _ hn.1) hns.1,
        fun ho => ?_⟩
    obtain ⟨ho, hos⟩ := List.forall_mem_cons.1 ho
    exact List.forall_mem_cons.2 ⟨fun r hr => hM (hn.2 ho r hr), hns.2 hos⟩

/-- **Code for counterparts**: an instruction assigns the counterparts of different operands. -/
lemma Confines.emit {j : Instr} {ds ns : List Operand} (hj : j.isStraight)
    (hu : ∀ o ∈ j.uses, Assigned M o)
    (hd : List.Forall₂ (fun d n => σ.operands.lookup d = some n) ds ns)
    (hdef : j.defines = ns.filterMap Operand.reg?) (hn : (ds.filterMap Operand.reg?).Nodup) :
    Confines env L M (ds.filterMap Operand.reg?) σ (emit j) fun _ _ _ => True where
  of_makes a σ' h hr := by
    obtain rfl := makes_emit.1 h
    -- The registers that are assigned are the counterparts of those in `ds`, in order.
    have hregs : List.Forall₂ (fun s r => σ.operands.lookup (.reg s) = some (.reg r))
        (ds.filterMap Operand.reg?) j.defines := by
      rw [hdef]
      clear hdef hn
      induction hd with
      | nil => exact .nil
      | @cons d n ds ns hl _ ih =>
        have hc := hr.orderly.counterpart d n hl
        cases d <;> cases n <;> first | exact ih | exact .cons hl ih | exact hc.elim | cases hc
    refine ⟨[j], ⟨rfl, by simpa using hj, confined_singleton.2 fun r hr => hu _ hr r rfl,
      ⟨fun s hs => ?_, fun r hr => ?_, ?_⟩, (Extends.refl σ).code _, hr.orderly.code _,
      hr.apart.congr rfl rfl⟩, trivial⟩
    · simp only [List.flatMap_singleton]
      exact exists_of_forall₂ hregs hs
    · simp only [List.flatMap_singleton] at hr
      exact .inl (exists_of_forall₂ hregs.flip hr)
    · simp only [List.flatMap_singleton]
      exact hr.apart.nodup_ids hregs hn

/-- **Code for spare registers**: a register is made, which an instruction assigns after other
code. -/
lemma Confines.spare {t : VType} {k : Widen γ} {P : WidenState → List Reg → γ → Prop}
    {i : Operand → γ → Instr} {g : Operand → γ → Widen β}
    (hk : ∀ σ₁, Confines env L M [] σ₁ k P)
    (hi : ∀ r σ₁ M₁ a, P σ₁ M₁ a → (i (.reg r) a).isStraight ∧ (i (.reg r) a).defines = [r] ∧
      ∀ o ∈ (i (.reg r) a).uses, Assigned M₁ o)
    (hg : ∀ r σ₁ M₁ a, M ⊆ M₁ → r ∈ M₁ → Confines env L M₁ T σ₁ (g (.reg r) a) Q) :
    Confines env L M T σ (do
      let r ← newReg t
      let a ← k
      Packing.emit (i r a)
      g r a) Q where
  of_makes b σ'' h hr := by
    obtain ⟨_, σ₁, hreg, hrest⟩ := makes_bind.1 h
    obtain ⟨a, σ₂, hk', hrest'⟩ := makes_bind.1 hrest
    obtain ⟨_, σ₃, hemit, hg'⟩ := makes_bind.1 hrest'
    obtain rfl := makes_emit.1 hemit
    have hold : ∀ o r', σ.operands.lookup o = some (.reg r') → r'.id ≤ σ.regs := fun o r' ho =>
      hr.orderly.within o (.reg r') ho
    obtain ⟨h₁, he₁, hc₁, -⟩ := newReg_spec hreg hr.orderly
    simp only [newReg, makes_modifyGet, Prod.mk.injEq] at hreg
    obtain ⟨rfl, rfl⟩ := hreg
    have hready : Ready env { σ with regs := σ.regs + 1 } L M :=
      ⟨h₁, hr.apart.congr rfl rfl, hr.carries.mono he₁ (List.Subset.refl M)⟩
    obtain ⟨js, hjs, hP⟩ := (hk _).of_makes a σ₂ hk' hready
    obtain ⟨hstraight, hdef, huses⟩ := hi ⟨σ.regs + 1, t⟩ σ₂ _ a hP
    -- What was emitted besides has larger numbers.
    have larger : ∀ r ∈ js.flatMap Instr.defines, σ.regs + 1 < r.id := fun r hr' => by
      obtain ⟨s, hs, -⟩ | hspare := hjs.assigns.origin r hr'
      · cases hs
      · exact hspare.lt
    have hspare : Spare σ σ₂ ⟨σ.regs + 1, t⟩ :=
      ⟨Nat.lt_succ_self _, hjs.extend.regs_le, fun o r' ho heq => by
        have hle := hold o r' (hjs.extend.old o r' ho (Nat.le_of_eq heq))
        rw [heq] at hle
        exact Nat.not_succ_le_self _ hle⟩
    have hadds : Adds env L M [] σ
        { σ₂ with code := σ₂.code ++ [i (.reg ⟨σ.regs + 1, t⟩) a] }
        (js ++ [i (.reg ⟨σ.regs + 1, t⟩) a]) := by
      refine ⟨?_, List.forall_mem_append.2 ⟨hjs.straight, by simpa using hstraight⟩,
        confined_append.2 ⟨hjs.confined, confined_singleton.2 fun r hr => huses _ hr r rfl⟩,
        ⟨nofun, fun r hr' => .inr ?_, ?_⟩, (he₁.trans hjs.extend).code _, hjs.orderly.code _,
        hjs.apart.congr rfl rfl⟩
      · show σ₂.code ++ _ = _
        rw [hjs.code_eq, List.append_assoc]
      · rw [List.flatMap_append, List.flatMap_singleton, hdef] at hr'
        obtain hr' | hr' := List.mem_append.1 hr'
        · obtain ⟨s, hs, -⟩ | hother := hjs.assigns.origin r hr'
          · cases hs
          · exact ⟨Nat.lt_of_succ_lt hother.lt, hother.le, hother.ne⟩
        · obtain rfl := List.mem_singleton.1 hr'
          exact ⟨hspare.lt, hspare.le, hspare.ne⟩
      · rw [List.flatMap_append, List.flatMap_singleton, hdef, List.map_append,
          List.nodup_append']
        refine ⟨hjs.assigns.nodup, List.nodup_singleton _, fun n hn hn' => ?_⟩
        obtain ⟨r, hr', rfl⟩ := List.mem_map.1 hn
        exact absurd (List.mem_singleton.1 hn') (Nat.ne_of_gt (larger r hr'))
    have hmem : (⟨σ.regs + 1, t⟩ : Reg) ∈ live M (js ++ [i (.reg ⟨σ.regs + 1, t⟩) a]) := by
      refine (mem_live_iff hadds.straight).2 (.inl ?_)
      rw [List.flatMap_append, List.flatMap_singleton, hdef]
      exact List.mem_append_right _ List.mem_cons_self
    obtain ⟨ks, hks, hQ⟩ :=
      (hg _ _ _ a (subset_live hadds.straight) hmem).of_makes b σ'' hg' (hadds.ready hr)
    exact ⟨_, hadds.trans hks, by rwa [live_append]⟩

/-- A register is made and assigned at once. -/
lemma Confines.spareNow {t : VType} {i : Operand → Instr} {g : Operand → Widen β}
    (hi : ∀ r, (i (.reg r)).isStraight ∧ (i (.reg r)).defines = [r] ∧
      ∀ o ∈ (i (.reg r)).uses, Assigned M o)
    (hg : ∀ r σ₁ M₁, M ⊆ M₁ → r ∈ M₁ → Confines env L M₁ T σ₁ (g (.reg r)) Q) :
    Confines env L M T σ (do
      let r ← newReg t
      Packing.emit (i r)
      g r) Q :=
  Confines.spare (k := Pure.pure ()) (P := fun _ M' _ => M ⊆ M') (i := fun r _ => i r)
    (g := fun r _ => g r) (fun _ => .pure (List.Subset.refl M))
    (fun r _ _ _ hM => ⟨(hi r).1, (hi r).2.1, fun o ho s hs => hM ((hi r).2.2 o ho s hs)⟩)
    fun r σ₁ M₁ _ => hg r σ₁ M₁

/-- Registers that are assigned. -/
lemma assigned_reg {r : Reg} (h : r ∈ M) : Assigned M (.reg r) := fun _ hr =>
  Operand.reg.inj hr ▸ h

/-- Constants need not be assigned. -/
lemma assigned_const (c : Const) : Assigned M (.const c) := nofun

/-- More registers may be assigned. -/
lemma assigned_mono (h : Assigned L o) (hM : L ⊆ M) : Assigned M o := fun r hr => hM (h r hr)

/-- A vector may be used if its operand may. -/
lemma vector_confines (ho : Assigned L o) :
    Confines env L M [] σ (vector o) fun _ M' n => Assigned M' n := by
  refine .bind (operand_confines o) fun σ₁ M₁ n _ _ hn => ?_
  have hn := hn.2 ho
  split
  · exact .pure hn
  · exact .read (.spareNow (i := fun r => .assign .splat r [n])
      (fun r => ⟨rfl, rfl, List.forall_mem_singleton.2 hn⟩)
      fun r _ _ _ hr => .pure (assigned_reg hr))

/-- Vectors may be used if their operands may. -/
lemma vectors_confines : ∀ {os : List Operand} {M : List Reg} {σ : WidenState},
    (∀ o ∈ os, Assigned L o) →
    Confines env L M [] σ (vectors os) fun _ M' ns => ∀ n ∈ ns, Assigned M' n
  | [], _, _, _ => .pure (List.forall_mem_nil _)
  | o :: os, _, _, h => by
    obtain ⟨ho, hos⟩ := List.forall_mem_cons.1 h
    exact .bind (vector_confines ho) fun _ _ n _ _ hn => .bind (vectors_confines hos)
      fun _ _ ns _ hM hns => .pure (List.forall_mem_cons.2 ⟨assigned_mono hn hM, hns⟩)

/-! ### Instructions -/

variable {d p a : Operand} {args ins outs : List Operand} {off : Option Offset}

/-- The destination of an instruction is assigned. -/
lemma emit_confines {j : Instr} (hj : j.isStraight) (hu : ∀ o ∈ j.uses, Assigned M o)
    (hd : σ.operands.lookup d = some n) (hdef : j.defines = n.reg?.toList) :
    Confines env L M d.reg?.toList σ (emit j) fun _ _ _ => True := by
  have h : Confines env L M ([d].filterMap Operand.reg?) σ (emit j) fun _ _ _ => True :=
    Confines.emit hj hu (.cons hd .nil) (by rw [hdef]; cases n <;> rfl)
      (by cases d <;> first | exact List.nodup_nil | exact List.nodup_singleton _)
  have heq : [d].filterMap Operand.reg? = d.reg?.toList := by cases d <;> rfl
  exact heq ▸ h

/-- Nothing is assigned. -/
lemma emit_confines_nil {j : Instr} (hj : j.isStraight) (hu : ∀ o ∈ j.uses, Assigned M o)
    (hdef : j.defines = []) : Confines env L M [] σ (emit j) fun _ _ _ => True :=
  Confines.emit hj hu (.nil : List.Forall₂ _ [] []) hdef List.nodup_nil

/-- An assignment assigns the counterpart of its destination. -/
lemma assign_confines {kind : AssignKind} (hargs : ∀ a ∈ args, Assigned L a) :
    Confines env L M d.reg?.toList σ (assign kind d args) fun _ _ _ => True := by
  have rest : Confines env L M d.reg?.toList σ (do
      let dst ← operand d
      let args ← if dst.type.isVector then vectors args else operands args
      Packing.emit (.assign kind dst args)) fun _ _ _ => True := by
    refine .bind (operand_confines d) fun σ₁ M₁ n _ _ hn => ?_
    have emits : ∀ {σ₂ : WidenState} {M₂ : List Reg} {ns : List Operand}, Extends σ₁ σ₂ →
        (∀ n ∈ ns, Assigned M₂ n) → Confines env L M₂ d.reg?.toList σ₂
          (Packing.emit (.assign kind n ns)) fun _ _ _ => True := fun he hns =>
      emit_confines rfl hns (he.operands _ _ hn.1) (by cases n <;> rfl)
    dsimp only
    split
    · exact .bind (vectors_confines hargs) fun _ _ _ he _ hns => emits he hns
    · exact .bind (operands_confines args) fun _ _ _ he _ hns => emits he (hns.2 hargs)
  refine .read ?_
  dsimp only
  split
  · exact .refused
  · exact rest

/-- Packing an offset adds nothing. -/
lemma packedOffset_confines :
    Confines env L M [] σ (packedOffset off) fun _ _ _ => True := by
  refine .read ?_
  split
  · exact .pure trivial
  · exact .refuse

/-- A load assigns the counterpart of its destination. -/
lemma load_confines (hp : Assigned L p) :
    Confines env L M d.reg?.toList σ (load d p off) fun _ _ _ => True := by
  have plain : ∀ {σ₁ : WidenState} {M₁ : List Reg} (off' : Option Offset),
      Confines env L M₁ d.reg?.toList σ₁ (do
        let dst ← operand d
        Packing.emit (.load dst (← operand p) off')) fun _ _ _ => True := fun off' =>
    .bind (operand_confines d) fun σ₂ M₂ n _ _ hn => .bind (operand_confines p)
      fun σ₃ M₃ q he _ hq => emit_confines rfl (List.forall_mem_singleton.2 (hq.2 hp))
        (he.operands _ _ hn.1) (by cases n <;> rfl)
  refine .laneOf ?_
  split
  · exact plain off
  · refine .bind packedOffset_confines fun σ₁ M₁ x _ _ _ => ?_
    dsimp only
    split
    · refine .spare (k := operand p) (i := fun r q => .load r q (some x.1))
        (P := fun σ' M' q => Assigned M' q)
        (fun σ₂ => ⟨fun q σ' hm hr => ?_⟩)
        (fun r _ _ q hq => ⟨rfl, rfl, List.forall_mem_singleton.2 hq⟩)
        fun r σ₂ M₂ q _ hr => .bind (operand_confines d) fun σ₃ M₃ n _ hM hn =>
          emit_confines rfl ?_ hn.1 (by cases n <;> rfl)
      · obtain ⟨js, hjs, hq⟩ := (operand_confines p).of_makes q σ' hm hr
        exact ⟨js, hjs, hq.2 hp⟩
      · exact List.forall_mem_cons.2 ⟨assigned_mono (assigned_reg hr) hM,
          List.forall_mem_singleton.2 (assigned_const _)⟩
    · exact plain (some x.1)

/-- A store assigns no counterpart. -/
lemma store_confines (hp : Assigned L p) (ha : Assigned L a) :
    Confines env L M [] σ (store p off a) fun _ _ _ => True := by
  have plain : ∀ {σ₁ : WidenState} {M₁ : List Reg} (off' : Option Offset),
      Confines env L M₁ [] σ₁ (do
        let ptr ← operand p
        Packing.emit (.store ptr off' (← operand a))) fun _ _ _ => True := fun off' =>
    .bind (operand_confines p) fun σ₂ M₂ q _ _ hq => .bind (operand_confines a)
      fun σ₃ M₃ n he hM hn => emit_confines_nil rfl (List.forall_mem_cons.2
        ⟨assigned_mono (hq.2 hp) hM, List.forall_mem_singleton.2 (hn.2 ha)⟩) rfl
  have wide : ∀ {σ₁ : WidenState} {M₁ : List Reg} (off' : Option Offset),
      Confines env L M₁ [] σ₁ (do
        let ptr ← operand p
        Packing.emit (.store ptr off' (← vector a))) fun _ _ _ => True := fun off' =>
    .bind (operand_confines p) fun σ₂ M₂ q _ _ hq => .bind (vector_confines ha)
      fun σ₃ M₃ n he hM hn => emit_confines_nil rfl (List.forall_mem_cons.2
        ⟨assigned_mono (hq.2 hp) hM, List.forall_mem_singleton.2 hn⟩) rfl
  refine .laneOf ?_
  split
  · refine .laneOf ?_
    dsimp only
    split
    · exact .refused
    · exact plain off
  · split
    · exact wide none
    · refine .bind packedOffset_confines fun σ₁ M₁ x _ _ _ => ?_
      dsimp only
      split
      · exact .spare (k := vector a) (i := fun r n => .assign .convert r [n])
          (P := fun _ M' n => Assigned M' n) (fun σ₂ => vector_confines ha)
          (fun r _ _ n hn => ⟨rfl, rfl, List.forall_mem_singleton.2 hn⟩)
          fun r σ₂ M₂ _ _ hr => .bind (operand_confines p) fun σ₃ M₃ q _ hM hq =>
            emit_confines_nil rfl (List.forall_mem_cons.2 ⟨hq.2 hp,
              List.forall_mem_singleton.2 (assigned_mono (assigned_reg hr) hM)⟩) rfl
      · split
        · exact wide (some x.1)
        · refine .laneOf ?_
          split
          · exact .refused
          · exact plain (some x.1)

/-- An address assigns the counterpart of its destination. -/
lemma lea_confines (ps rs : List Operand) (hp : Assigned L p) :
    Confines env L M d.reg?.toList σ (instr ps rs (.lea d p off)) fun _ _ _ => True := by
  have plain : ∀ {σ₁ : WidenState} {M₁ : List Reg} (off' : Option Offset),
      Confines env L M₁ d.reg?.toList σ₁ (do
        let dst ← operand d
        Packing.emit (.lea dst (← operand p) off')) fun _ _ _ => True := fun off' =>
    .bind (operand_confines d) fun σ₂ M₂ n _ _ hn => .bind (operand_confines p)
      fun σ₃ M₃ q he _ hq => emit_confines rfl (List.forall_mem_singleton.2 (hq.2 hp))
        (he.operands _ _ hn.1) (by cases n <;> rfl)
  refine .laneOf ?_
  dsimp only
  split
  · exact .bind packedOffset_confines fun _ _ x _ _ _ => plain (some x.1)
  · exact plain off

/-- Arguments assign no counterpart. -/
lemma packedArguments_confines (callee : String) (c : DeclLanes) : ∀ {os : List Operand}
    (place : Nat) (ls : List LaneKind) {M : List Reg} {σ : WidenState}, (∀ o ∈ os, Assigned L o) →
    Confines env L M [] σ (packedArguments callee c place ls os) fun _ M' ns =>
      ∀ n ∈ ns, Assigned M' n
  | [], _, _, _, _, _ => by
    unfold packedArguments
    exact .pure (List.forall_mem_nil _)
  | _ :: _, _, [], _, _, _ => .throw
  | o :: os, place, l :: ls, _, _, h => by
    obtain ⟨ho, hos⟩ := List.forall_mem_cons.1 h
    have rest : ∀ {σ₁ : WidenState} {M₁ : List Reg} {n : Operand}, Assigned M₁ n →
        Confines env L M₁ [] σ₁ (do
          return n :: (← packedArguments callee c (place + 1) ls os))
          fun _ M' ns => ∀ n ∈ ns, Assigned M' n := fun hn =>
      .bind (packedArguments_confines callee c (place + 1) ls hos) fun _ _ ns _ hM hns =>
        .pure (List.forall_mem_cons.2 ⟨assigned_mono hn hM, hns⟩)
    refine .laneOf ?_
    dsimp only
    split
    · exact .bind (vector_confines ho) fun _ _ n _ _ hn => rest hn
    · split
      · exact .refused
      · exact .bind (operand_confines o) fun _ _ n _ _ hn => rest (hn.2 ho)

/-- A call assigns the counterparts of its results. -/
lemma call_confines (callee : FuncDecl) (hins : ∀ o ∈ ins, Assigned L o)
    (hn : (outs.filterMap Operand.reg?).Nodup) :
    Confines env L M (outs.filterMap Operand.reg?) σ (call callee ins outs) fun _ _ _ => True := by
  -- The call itself, once its arguments are there.
  have emits : ∀ {σ₁ : WidenState} {M₁ : List Reg} {ns : List Operand} (c : FuncDecl),
      (∀ n ∈ ns, Assigned M₁ n) → Confines env L M₁ (outs.filterMap Operand.reg?) σ₁ (do
        Packing.emit (.call c ns (← operands outs))) fun _ _ _ => True := fun c hns =>
    .bind (operands_confines outs) fun _ _ ms _ hM hms =>
      .emit rfl (fun n hn => assigned_mono (hns n hn) hM) hms.1 rfl hn
  refine .read ?_
  split
  · dsimp only
    split
    · exact .refused
    · exact .bind (operands_confines ins) fun _ _ ns _ _ hns => emits callee (hns.2 hins)
  · exact .bind (packedArguments_confines callee.id _ 1 _ hins) fun _ _ ns _ _ hns => emits _ hns

/-- **The packed code of an instruction** between labels and jumps is confined. -/
theorem instr_confines (ps rs : List Operand) {i : Instr} (hi : i.isStraight)
    (hu : ∀ o ∈ i.uses, Assigned L o) (hn : i.defines.Nodup) :
    Confines env L M i.defines σ (instr ps rs i) fun _ _ _ => True := by
  have dst : ∀ {i : Instr} {d : Operand}, i.dst? = some d → i.defines = d.reg?.toList := by
    intro i d h
    cases i <;> cases h <;> cases d <;> rfl
  cases i with
  | label | goto | branch | params | results => cases hi
  | assign kind d args => exact dst (i := .assign kind d args) rfl ▸ assign_confines hu
  | load d p off =>
    exact dst (i := .load d p off) rfl ▸ load_confines (hu p (List.mem_singleton_self p))
  | store p off a =>
    obtain ⟨hp, ha⟩ := List.forall_mem_cons.1 hu
    exact store_confines hp (List.forall_mem_singleton.1 ha)
  | lea d p off =>
    exact dst (i := .lea d p off) rfl ▸ lea_confines ps rs (hu p (List.mem_singleton_self p))
  | alloc | memcpy => exact .refuse
  | call callee ins outs => exact call_confines callee hu hn

end Confines

/-! ## The code of a function -/

/-- **Packed code**: what has been assigned is carried through all blocks, labels are inserted for
labels, and jumps lead where the jumps of scalar code lead. -/
structure Renders (env : WidenEnv) (is : List Instr) (L M : List Reg) (σ σ' : WidenState)
    (js : List Instr) : Prop where
  code_eq : σ'.code = σ.code ++ js
  confined : Confined M js
  carries : Carries σ' (live L is) (live M js)
  assigns : Assigns σ σ' (is.flatMap Instr.defines) js
  labels : List.Forall₂ (fun l l' => σ'.labels.lookup l = some l') (is.filterMap Instr.label?)
    (js.filterMap Instr.label?)
  targets : ∀ j ∈ js, ∀ l' ∈ j.targets, ∃ i ∈ is, ∃ l ∈ i.targets, σ'.labels.lookup l = some l'
  extend : Extends σ σ'
  orderly : Orderly env σ'
  apart : NumbersApart σ'

section Renders

variable {ps rs : List Operand} {is is' : List Instr} {i : Instr}

/-- Packed code in sequence. -/
lemma Renders.trans (h : Renders env is L M σ σ' js)
    (h' : Renders env is' (live L is) (live M js) σ' σ'' ks)
    (hd : (is.flatMap Instr.defines).Disjoint (is'.flatMap Instr.defines)) :
    Renders env (is ++ is') L M σ σ'' (js ++ ks) where
  code_eq := by rw [h'.code_eq, h.code_eq, List.append_assoc]
  confined := confined_append.2 ⟨h.confined, h'.confined⟩
  carries := by
    rw [live_append, live_append]
    exact h'.carries
  assigns := by
    rw [List.flatMap_append]
    exact h.assigns.trans h'.assigns h.extend h'.extend h'.apart hd
  labels := by
    rw [List.filterMap_append, List.filterMap_append]
    exact List.rel_append (h.labels.imp fun _ _ => h'.extend.labels _ _) h'.labels
  targets j hj l' hl' := by
    obtain hj | hj := List.mem_append.1 hj
    · obtain ⟨i, hi, l, hl, hlook⟩ := h.targets j hj l' hl'
      exact ⟨i, List.mem_append_left _ hi, l, hl, h'.extend.labels _ _ hlook⟩
    · obtain ⟨i, hi, l, hl, hlook⟩ := h'.targets j hj l' hl'
      exact ⟨i, List.mem_append_right _ hi, l, hl, hlook⟩
  extend := h.extend.trans h'.extend
  orderly := h'.orderly
  apart := h'.apart

/-- Straight code is packed to straight code. -/
lemma Renders.of_adds (hi : i.isStraight) (hr : Ready env σ L M)
    (h : Adds env L M i.defines σ σ' js) : Renders env [i] L M σ σ' js where
  code_eq := h.code_eq
  confined := h.confined
  carries s hs := by
    rw [live_cons, live_nil, Instr.after_of_isStraight L hi] at hs
    obtain hs | hs := List.mem_append.1 hs
    · obtain ⟨r, hr, hl⟩ := h.assigns.defines s hs
      exact ⟨r, (mem_live_iff h.straight).2 (.inl hr), hl⟩
    · exact (h.ready hr).carries s hs
  assigns := by simpa using h.assigns
  labels := by
    rw [Lowering.filterMap_label? h.straight, Lowering.filterMap_label? (by simpa using hi)]
    exact .nil
  targets j hj l' hl' := by
    rw [Instr.targets_of_isStraight (h.straight j hj)] at hl'
    cases hl'
  extend := h.extend
  orderly := h.orderly
  apart := h.apart

/-- A label or jump is packed to one. -/
lemma Renders.of_jump {j : Instr} (hi : i.isStraight = false) (hj : j.isStraight = false)
    (hc : σ'.code = σ.code ++ [j]) (hu : ∀ r, .reg r ∈ j.uses → r ∈ M)
    (hl : List.Forall₂ (fun l l' => σ'.labels.lookup l = some l') i.label?.toList j.label?.toList)
    (ht : ∀ l' ∈ j.targets, ∃ l ∈ i.targets, σ'.labels.lookup l = some l')
    (he : Extends σ σ') (hσ' : Orderly env σ') (hn : NumbersApart σ') :
    Renders env [i] L M σ σ' [j] where
  code_eq := hc
  confined := confined_singleton.2 hu
  carries s hs := by simp [Instr.after, hi] at hs
  assigns := by
    simp only [List.flatMap_singleton, Instr.defines_of_not_isStraight hi]
    refine ⟨by simp, ?_, ?_⟩ <;> simp [Instr.defines_of_not_isStraight hj]
  labels := by
    have hone : ∀ k : Instr, [k].filterMap Instr.label? = k.label?.toList := fun k => by
      cases h : k.label? <;> simp [h]
    rwa [hone, hone]
  targets k hk l' hl' := by
    obtain rfl := List.mem_singleton.1 hk
    obtain ⟨l, hl, hlook⟩ := ht l' hl'
    exact ⟨i, List.mem_singleton_self i, l, hl, hlook⟩
  extend := he
  orderly := hσ'
  apart := hn

/-- **The packed code of an instruction**. -/
lemma instr_renders (h : Makes env (instr ps rs i) σ () σ') (hr : Ready env σ L M)
    (hu : ∀ r, .reg r ∈ i.uses → r ∈ L) (hn : i.defines.Nodup) :
    ∃ js, Renders env [i] L M σ σ' js := by
  have hassigned : ∀ o ∈ i.uses, Assigned L o := fun o ho r hr => hu r (hr ▸ ho)
  cases hi : i.isStraight with
  | true =>
    obtain ⟨js, hjs, -⟩ := (instr_confines ps rs hi hassigned hn).of_makes () σ' h hr
    exact ⟨js, .of_adds hi hr hjs⟩
  | false =>
    -- The other instructions are labels and jumps; those of the frame are not packed.
    cases i with
    | label l =>
      obtain ⟨l', σ₁, hl, hemit⟩ := makes_bind.1 h
      obtain rfl := makes_emit.1 hemit
      obtain ⟨h₁, he₁, hc₁, hl₁⟩ := label_spec hl hr.orderly
      obtain ⟨hn₁, -⟩ := label_numbersApart hl hr.orderly hr.apart
      exact ⟨[.label l'], .of_jump rfl rfl (by rw [← hc₁]) nofun (.cons hl₁ .nil) nofun
        (he₁.code _) (h₁.code _) (hn₁.congr rfl rfl)⟩
    | goto l =>
      obtain ⟨l', σ₁, hl, hemit⟩ := makes_bind.1 h
      obtain rfl := makes_emit.1 hemit
      obtain ⟨h₁, he₁, hc₁, hl₁⟩ := label_spec hl hr.orderly
      obtain ⟨hn₁, -⟩ := label_numbersApart hl hr.orderly hr.apart
      exact ⟨[.goto l'], .of_jump rfl rfl (by rw [← hc₁]) nofun .nil
        (List.forall_mem_singleton.2 ⟨l, List.mem_singleton_self l, hl₁⟩)
        (he₁.code _) (h₁.code _) (hn₁.congr rfl rfl)⟩
    | branch c yes no =>
      simp only [instr, makes_bind, makes_laneOf] at h
      obtain ⟨_, _, ⟨rfl, rfl⟩, h⟩ := h
      split at h
      · simp at h
      · simp only [makes_bind] at h
        obtain ⟨c', σ₁, hc, yes', σ₂, hyes, no', σ₃, hno, hemit⟩ := h
        obtain rfl := makes_emit.1 hemit
        obtain ⟨h₁, he₁, hc₁, hl₁⟩ := operand_spec hc hr.orderly
        obtain ⟨h₂, he₂, hc₂, hl₂⟩ := label_spec hyes h₁
        obtain ⟨h₃, he₃, hc₃, hl₃⟩ := label_spec hno h₂
        obtain ⟨hn₂, -⟩ := label_numbersApart hyes h₁ (operand_numbersApart hc hr.orderly hr.apart)
        obtain ⟨hn₃, -⟩ := label_numbersApart hno h₂ hn₂
        have hready : Ready env σ₁ L M := ⟨h₁, operand_numbersApart hc hr.orderly hr.apart,
          hr.carries.mono he₁ (List.Subset.refl M)⟩
        have hc' := assigned_of_lookup hready (hassigned c (List.mem_singleton_self c)) hl₁
        refine ⟨[.branch c' yes' no'], .of_jump rfl rfl (by rw [← hc₁, ← hc₂, ← hc₃])
          (fun r hr' => hc' r (List.mem_singleton.1 hr').symm) .nil ?_
          ((he₁.trans (he₂.trans he₃)).code _) (h₃.code _) (hn₃.congr rfl rfl)⟩
        exact List.forall_mem_cons.2 ⟨⟨yes, by simp [Instr.targets], he₃.labels _ _ hl₂⟩,
          List.forall_mem_singleton.2 ⟨no, by simp [Instr.targets], hl₃⟩⟩
    | params | results => exact (makes_throw h).elim
    | assign | load | store | lea | alloc | memcpy | call => cases hi

/-- **The packed code of instructions**.

**Proof sketch.** By induction on the instructions: what is carried after one of them may be used by
the next. -/
theorem code_renders : ∀ {is : List Instr} {L M : List Reg} {σ σ' : WidenState},
    Makes env (code ps rs is) σ () σ' → Ready env σ L M → Confined L is →
    (is.flatMap Instr.defines).Nodup → ∃ js, Renders env is L M σ σ' js
  | [], L, M, σ, σ', h, hr, _, _ => by
    obtain ⟨-, rfl⟩ := makes_pure.1 h
    exact ⟨[], by simp, trivial, hr.carries, .nil σ σ, .nil, List.forall_mem_nil _,
      .refl σ, hr.orderly, hr.apart⟩
  | i :: is, L, M, σ, σ'', h, hr, hc, hn => by
    obtain ⟨_, σ', hi, his⟩ := makes_bind.1 h
    rw [List.flatMap_cons, List.nodup_append'] at hn
    obtain ⟨js, hjs⟩ := instr_renders hi hr hc.1 hn.1
    obtain ⟨ks, hks⟩ := code_renders his ⟨hjs.orderly, hjs.apart, hjs.carries⟩ hc.2 hn.2.1
    exact ⟨js ++ ks, hjs.trans hks (by simpa using hn.2.2)⟩

/-- The labels that stand for different labels have different numbers. -/
lemma NumbersApart.nodup_label_ids (h : NumbersApart σ) : ∀ {ls ms : List Label},
    List.Forall₂ (fun l l' => σ.labels.lookup l = some l') ls ms → ls.Nodup →
    (ms.map Label.id).Nodup
  | [], _, .nil, _ => List.nodup_nil
  | l :: ls, _, .cons hl hrest, hn => by
    obtain ⟨hnot, hls⟩ := List.nodup_cons.1 hn
    refine List.nodup_cons.2 ⟨fun hmem => ?_, h.nodup_label_ids hrest hls⟩
    obtain ⟨m', hm', heq⟩ := List.mem_map.1 hmem
    obtain ⟨m, hm, hlook⟩ := exists_of_forall₂ hrest.flip hm'
    exact hnot (h.labels _ _ _ _ hlook hl heq ▸ hm)

/-- **Packed code is tidy** if the scalar code is. -/
theorem isTidy_of_makes (hs : IsTidy is) (hr : Ready env σ [] []) (he : Extends {} σ)
    (hempty : σ.code = []) (h : Makes env (code ps rs is) σ () σ') : IsTidy σ'.code := by
  obtain ⟨js, hjs⟩ := code_renders h hr hs.confined hs.numbers_nodup.of_map
  have hcode : σ'.code = js := by rw [hjs.code_eq, hempty, List.nil_append]
  have hends := he.trans hjs.extend
  have hentry : σ'.labels.lookup .entry = some .entry := hends.labels _ _ rfl
  have hepilogue : σ'.labels.lookup .epilogue = some .epilogue := hends.labels _ _ rfl
  rw [hcode]
  refine ⟨hjs.confined, hjs.assigns.nodup, hjs.apart.nodup_label_ids hjs.labels
    hs.labels_nodup.of_map, fun l' hl' => ?_, fun j hj l' hl' => ?_⟩
  · obtain ⟨l, hl, hlook⟩ := exists_of_forall₂ hjs.labels.flip hl'
    obtain ⟨h₁, h₂⟩ := hs.labels_new l hl
    exact ⟨fun he => h₁ (congrArg _ (hjs.apart.labels _ _ _ _ hlook hentry he)),
      fun he => h₂ (congrArg _ (hjs.apart.labels _ _ _ _ hlook hepilogue he))⟩
  · obtain ⟨i, hi, l, hl, hlook⟩ := hjs.targets j hj l' hl'
    have hmem := hs.targets_mem i hi l hl
    simp only [Function.frame, List.mem_append, List.mem_cons, List.not_mem_nil, or_false,
      Instr.label.injEq, reduceCtorEq] at hmem ⊢
    obtain (rfl | hmem) | rfl := hmem
    · exact .inl (.inl (Option.some.inj (hlook.symm.trans hentry)))
    · obtain ⟨m, hm, hlook'⟩ :=
        exists_of_forall₂ hjs.labels (List.mem_filterMap.2 ⟨.label l, hmem, rfl⟩)
      obtain rfl := Option.some.inj (hlook'.symm.trans hlook)
      obtain ⟨k, hk, hkl⟩ := List.mem_filterMap.1 hm
      cases k <;> cases hkl
      exact .inl (.inr hk)
    · exact .inr (Option.some.inj (hlook.symm.trans hepilogue))

/-- Operands that are bound are counterparts, and no code is added. -/
lemma operands_ready {os ns : List Operand} (h : Makes env (operands os) σ ns σ')
    (hr : Ready env σ [] []) (hc : σ.code = []) : Ready env σ' [] [] ∧ Extends σ σ' ∧
      σ'.code = [] ∧ ((∀ r, .reg r ∉ os) → ∀ r, .reg r ∉ ns) := by
  obtain ⟨h', he, hcode, hns⟩ := operands_spec h hr.orderly
  obtain ⟨js, hjs, -⟩ := (operands_confines os).of_makes ns σ' h hr
  refine ⟨⟨h', hjs.apart, nofun⟩, he, hcode.trans hc, fun hos r hmem => ?_⟩
  obtain ⟨o, ho, hl⟩ := exists_of_forall₂ hns.flip hmem
  have hcounter := h'.counterpart o _ hl
  cases o with
  | reg s => exact hos s ho
  | const => cases hcounter
  | var | slot | absent => exact hcounter.elim

/-- **A packed version is tidy** if the function is, and it binds no registers if the function binds
none. -/
theorem isTidy_of_builds {fn : Function} {qs ts : List Operand} {σ₁ σ₂ σ₃ : WidenState}
    (hf : IsTidy fn.instrs) (hps : Makes env (operands fn.params) {} qs σ₁)
    (hrs : Makes env (operands fn.results) σ₁ ts σ₂)
    (hcode : Makes env (code ps rs fn.instrs) σ₂ () σ₃) :
    IsTidy σ₃.code ∧
      ((∀ r, .reg r ∉ fn.params ++ fn.results) → ∀ r, .reg r ∉ qs ++ ts) := by
  have hr₀ : Ready env {} [] [] := ⟨orderly_empty env, numbersApart_empty, nofun⟩
  obtain ⟨hr₁, he₁, hc₁, hqs⟩ := operands_ready hps hr₀ rfl
  obtain ⟨hr₂, he₂, hc₂, hts⟩ := operands_ready hrs hr₁ hc₁
  refine ⟨isTidy_of_makes hf hr₂ (he₁.trans he₂) hc₂ hcode, fun hbound r hmem => ?_⟩
  obtain hmem | hmem := List.mem_append.1 hmem
  · exact hqs (fun s hs => hbound s (List.mem_append_left _ hs)) r hmem
  · exact hts (fun s hs => hbound s (List.mem_append_right _ hs)) r hmem

end Renders

end Lane.Packing

namespace Lane.Packing

open Code

/-- The functions that are added are packed versions of tasks. -/
lemma of_mem_packFunctions (env : PackEnv) {g : Function} : ∀ {ts : List Task}
    {r : PackedFunctions}, g ∈ (packFunctions env ts r).functions →
    g ∈ r.functions ∨ ∃ t ∈ ts, ∃ d, packFunction env d t.scalar = .ok g
  | [], _, h => .inl h
  | t :: ts, r, h => by
    unfold packFunctions at h
    split at h
    · exact .inl h
    · rename_i d _
      split at h
      · rename_i f hf
        obtain hg | ⟨t', ht', hg⟩ := of_mem_packFunctions env h
        · obtain hg | hg := List.mem_append.1 hg
          · exact .inl hg
          · exact .inr ⟨t, List.mem_cons_self, d, List.mem_singleton.1 hg ▸ hf⟩
        · exact .inr ⟨t', List.mem_cons_of_mem _ ht', hg⟩
      · obtain hg | ⟨t', ht', hg⟩ := of_mem_packFunctions env h
        · exact .inl hg
        · exact .inr ⟨t', List.mem_cons_of_mem _ ht', hg⟩
      · exact .inl h

/-- The functions of a packed program are the scalar ones and packed versions of tasks. -/
lemma of_mem_pack {e : Elaborated} {p : LoweredProgram} {ds : Diagnostics} {q : PackedProgram}
    {g : Function} (h : (p.pack e ds).2 = .ok q) (hg : g ∈ q.module.functions) :
    g ∈ p.module.functions ∨ ∃ t ∈ tasks e p (layoutsOf e p ds), ∃ env d,
      packFunction env d t.scalar = .ok g := by
  unfold LoweredProgram.pack at h
  extract_lets l ts at h
  split at h
  · cases h
  · simp only at h
    split at h
    · cases h
    · obtain rfl := Except.ok.inj h
      obtain hg | hg := List.mem_append.1 hg
      · exact .inl hg
      · obtain hg | ⟨t, ht, hg⟩ := of_mem_packFunctions _ hg
        · cases hg
        · exact .inr ⟨t, ht, _, hg⟩

/-- A program that is refused has no tasks, as it declares nothing. -/
lemma isOk_of_mem_tasks {e : Elaborated} {name : String} {width : Int} {ds : Diagnostics}
    {p : LoweredProgram} (hp : (e.lower name width ds).2 = .ok p) {l : PackedLayouts}
    {t : Task} (ht : t ∈ tasks e p l) : p.isOk := by
  by_contra hok
  obtain ⟨f, -, hf⟩ := List.mem_filterMap.1 ht
  split at hf
  · simp [(Lowering.of_lower_not_isOk hp (Bool.eq_false_iff.2 hok)).2] at hf
  · cases hf

end Lane.Packing

namespace Lane.Elaborated.Typed

open Code Lowering Packing

variable {name : String} {e : Elaborated} {width : Int} {ds : Diagnostics} {p : LoweredProgram}

/-- The code of a task is tidy. -/
lemma isTidy_of_mem_tasks (h : e.Typed) (hp : (e.lower name width ds).2 = .ok p)
    {l : PackedLayouts} {t : Task} (ht : t ∈ tasks e p l) :
    IsTidy t.scalar.instrs ∧ ∀ r, .reg r ∉ t.scalar.params ++ t.scalar.results := by
  have hok := isOk_of_mem_tasks hp ht
  obtain ⟨hl, hlayouts, -⟩ := h.of_lower_isOk hp hok
  obtain ⟨n, hn⟩ := h.isTask_of_mem hp hok ht
  have hcode : IsCodeOf e p.layouts p.width t.fn t.scalar := ⟨n, hn.function_eq⟩
  obtain ⟨code, hbody, htidy⟩ := hcode.exists_isTidy h (hlayouts ▸ h.complete hl)
    (mem_memberFuncs.1 (List.mem_of_getElem? hn.getElem?_eq)) hn.clean
  exact ⟨htidy.instrs_eq hbody ▸ htidy, hcode.bound⟩

end Lane.Elaborated.Typed

namespace Lane.Accepted

open Code Lowering Packing

variable {file name : String} {text : List Rune} {e : Elaborated} {width : Int}
  {ds ds' : Diagnostics} {p : LoweredProgram} {q : PackedProgram}

/-- **The functions of a packed program**, scalar and packed, have well-formed registers and
labels. -/
theorem packed_wellFormed (h : Accepted file text e) (hp : (e.lower name width ds).2 = .ok p)
    (hq : (p.pack e ds').2 = .ok q) : ∀ fn ∈ q.module.functions, fn.WellFormed := by
  intro fn hfn
  obtain hfn | ⟨t, ht, env, d, hpack⟩ := of_mem_pack hq hfn
  · exact h.lowered_wellFormed hp fn hfn
  · obtain ⟨htidy, hbound⟩ := h.typed.isTidy_of_mem_tasks hp ht
    obtain ⟨σ₁, σ₂, σ₃, hps, hrs, hcode, heq⟩ := of_packFunction_eq_ok hpack
    obtain ⟨htidy', hbound'⟩ := isTidy_of_builds htidy hps hrs hcode
    exact htidy'.wellFormed (congrArg Function.body heq) (hbound' hbound)

end Lane.Accepted
