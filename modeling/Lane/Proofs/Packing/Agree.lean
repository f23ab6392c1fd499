import Lane.Proofs.Code.Lockstep
import Lane.Proofs.Packing.Lanes
import Lane.Proofs.Packing.Widen

set_option relaxedAutoImplicit false
set_option autoImplicit false

/-!
# Packed code agrees with scalar code

Packed code does in each lane what scalar code does in one of several runs. The states agree if
every operand that varies has the values of the runs in its lanes, if all other operands have the
one value that they have in all runs, and if each cell of packed memory holds the values that are in
memory in the runs. Every instruction keeps this up.

## Main definitions

* `Lane.Packing.Cell`: a scalar in memory and the lanes that hold it in packed memory.
* `Lane.Packing.Agree`: states that agree.
* `Lane.Packing.IsPlain`: instructions on scalars and cells.

## Main results

* `Lane.Packing.instr_mirrors`: the packed code of an instruction keeps states in agreement.
* `Lane.Packing.packFunction_mirrors`: the packed version of a function runs in lockstep with it.
-/

namespace Lane.Code.Memory

/-- What is read depends on the size of the lanes only. -/
lemma read_congr_size (m : Memory) {t u : VType} (h : t.kind.size = u.kind.size) (a : Word) :
    m.read t a = m.read u a := by
  unfold read scalar
  rw [h]

/-- What is written depends on the size and the number of the lanes. -/
lemma write_congr_size (m : Memory) {t u : VType} (h : t.kind.size = u.kind.size)
    (hw : t.width = u.width) (a : Word) (v : Value) : m.write t a v = m.write u a v := by
  unfold write VType.bytes
  rw [h, hw]

/-- A number is not larger than its bytes allow. -/
lemma number_lt (m : Memory) (a : Word) : ∀ n, m.number a n < 1 <<< (8 * n)
  | 0 => by simp [number]
  | n + 1 => by
    have hrest := number_lt m (a + 1) n
    have hfirst := (m a).toNat_lt
    rw [Nat.one_shiftLeft] at hrest ⊢
    rw [number, Nat.shiftLeft_eq, show 8 * (n + 1) = 8 * n + 8 by omega, Nat.pow_add]
    omega

/-- Integers are made of all their bits. -/
lemma read_eq_of_cut_eq {m m' : Memory} {k : Kind} (hk : k.bits = 8 * k.size) {t t' : VType}
    (ht : t.kind = k) (ht' : t'.kind = k) {a a' : Word} {i i' : Nat}
    (h : k.cut (m.read t a i) = k.cut (m'.read t' a' i')) : m.read t a i = m'.read t' a' i' := by
  have hall : ∀ {m : Memory} {t : VType} {a : Word} {i : Nat}, t.kind = k →
      k.cut (m.read t a i) = m.read t a i := by
    intro m t a i ht
    have hlt := m.number_lt (a + .ofNat (i * t.kind.size)) k.size
    refine UInt64.toNat_inj.1 ?_
    rw [Kind.toNat_cut, Nat.mod_eq_of_lt]
    have hle : (m.read t a i).toNat ≤ m.number (a + .ofNat (i * t.kind.size)) k.size := by
      rw [read, scalar, ht]
      exact Nat.mod_le _ _
    rw [hk]
    exact Nat.lt_of_le_of_lt hle hlt
  rw [← hall ht, ← hall ht', h]

end Lane.Code.Memory

namespace Lane.Packing

open Lane.Code
open Lane.Code.Wide (exec? execAll? Follows Mirrors MirrorsAll OneForOne)

/-- **Masks keep truth values**: a truth value that was converted to an integer is set if and only
if the integer is not zero. -/
def KeepsMasks (I : Operators) : Prop :=
  ∀ (k : Kind) (w : Word), k.isInteger → Kind.i1.cut (I.binary .ne (.scalar k)
    (k.cut (I.convert .bool (.scalar k) (Kind.i1.cut w))) 0) = Kind.i1.cut w

/-! ## Cells -/

/-- **Cells**: a scalar at a distance from a base, and where packed memory has it: lane by lane, or
once for all instances. -/
structure Cell where
  base : Operand
  offset : Option Offset
  kind : Kind
  packed : Option Offset
  /-- The kind of the lanes: for truth values that of the mask. -/
  inner : Kind
  isMask : Bool
  /-- Whether there is one value for all instances. -/
  isShared : Bool

namespace Cell

variable (I : Operators) (W : Nat) (A : Nat → Operand → Word) (B : Operand → Word) (c c' : Cell)

/-- What packed memory holds. -/
def type : VType := ⟨c.inner, if c.isShared then 1 else W⟩

/-- The lane that holds the scalar of a run. -/
def laneOf (i : Nat) : Nat := if c.isShared then 0 else i

/-- **Cells of packed layouts**. -/
structure Fits (env : WidenEnv) : Prop where
  base_packed : env.lanes.get c.base = .packed
  member : ∃ p x, env.layouts.offset? c.offset = some (p, x) ∧ c.packed = some p ∧
    x.isMask = c.isMask ∧ x.member.type? = some ⟨c.inner, env.width⟩
  isShared_eq : c.isShared = false
  kind_ne : c.kind ≠ .ptr
  mask : c.isMask = true → c.kind = .i1 ∧ c.inner.isInteger
  no_mask : c.isMask = false → c.inner = c.kind

/-- **Cells that keep their place**: members of an instance that all runs share, and spilled
scalars, which have a slot of their own. The bytes of a slot are seen as an integer. -/
structure Kept (env : WidenEnv) : Prop where
  offset_none : env.lanes.get c.base = .packed → c.offset = none
  packed_eq : c.packed = c.offset
  inner_eq : c.inner = c.kind
  bits_eq : c.offset = none → c.kind.bits = 8 * c.kind.size
  isMask_eq : c.isMask = false
  isShared_iff : c.isShared = true ↔ env.lanes.get c.base ≠ .packed

/-- Where a scalar is in one of the runs; the bases are at the addresses `A`. -/
def scalarAt (i : Nat) : Word := A i c.base + Offset.word c.offset

/-- Where the lanes are; the bases are at the addresses `B`. -/
def packedAt : Word := B c.base + Offset.word c.packed

/-- The scalar for which a lane stands. -/
def shown (w : Word) : Word :=
  if c.isMask then Kind.i1.cut (I.binary .ne (.scalar c.inner) (c.inner.cut w) 0)
  else c.kind.cut w

/-- **Cells that hold** the scalars of all runs. -/
def Holds (s : Nat → Wide.State) (t : Wide.State) : Prop :=
  ∀ i < W, c.shown I (t.mem.read (c.type W) (c.packedAt B) (c.laneOf i)) =
    c.kind.cut ((s i).mem.read (.scalar c.kind) (c.scalarAt A i) 0)

/-- One cell by two names. -/
structure Same : Prop where
  kind_eq : c.kind = c'.kind
  inner_eq : c.inner = c'.inner
  isMask_eq : c.isMask = c'.isMask
  isShared_eq : c.isShared = c'.isShared
  scalarAt_eq : ∀ i < W, c.scalarAt A i = c'.scalarAt A i
  packedAt_eq : c.packedAt B = c'.packedAt B

/-- Cells in different places. -/
structure Apart : Prop where
  scalar : ∀ i < W, Code.Apart (c.scalarAt A i) (VType.scalar c.kind).bytes
    (c'.scalarAt A i) (VType.scalar c'.kind).bytes
  packed : Code.Apart (c.packedAt B) (c.type W).bytes (c'.packedAt B) (c'.type W).bytes

/-- Scalars that a cell is for. What was spilled may be of any kind of the same size. -/
def Takes (t : VType) : Prop :=
  ∃ k, t = .scalar k ∧ k ≠ .ptr ∧ (k = c.kind ∨ c.offset = none ∧ k.size = c.kind.size)

end Cell

/-! ## Agreement -/

/-- **Plain operands**: scalars that are no addresses. -/
def IsPlainOperand (o : Operand) : Prop := ∃ k, k ≠ Kind.ptr ∧ o.type = .scalar k

/-- A plain operand is no address. -/
lemma IsPlainOperand.kind_ne {o : Operand} (h : IsPlainOperand o) : o.type.kind ≠ .ptr := by
  obtain ⟨k, hk, ht⟩ := h
  rw [ht]
  exact hk

/-- The lane in which an operand has the value of a run: a scalar has a single lane for all runs. -/
def laneAt (n : Operand) (i : Nat) : Nat := if n.type.isVector then i else 0

/-- **States that agree**: `A` and `B` are the addresses of the bases. -/
structure Agree (I : Operators) (env : WidenEnv) (F : WidenState) (C : Cell → Prop)
    (A : Nat → Operand → Word) (B : Operand → Word) (s : Nat → Wide.State) (t : Wide.State) :
    Prop where
  values : ∀ o n, F.operands.lookup o = some n → IsPlainOperand o →
    ∀ i < env.width, t.lane n (laneAt n i) = (s i).lane o 0
  bases : ∀ c, C c → ∀ n, F.operands.lookup c.base = some n →
    t.lane n 0 = B c.base ∧ ∀ i < env.width, (s i).lane c.base 0 = A i c.base
  cells : ∀ c, C c → c.Holds I env.width A B s t

/-- Every type has at least one lane. -/
lemma width_pos (t : VType) : 0 < t.width := by
  unfold VType.width VType.isVector
  split
  · rename_i h
    exact Nat.lt_trans Nat.one_pos (of_decide_eq_true h)
  · exact Nat.one_pos

/-- The width of a vector type is its number of lanes. -/
lemma width_eq {k : Kind} {W : Nat} (hW : 0 < W) : (⟨k, W⟩ : VType).width = W := by
  unfold VType.width VType.isVector
  simp only [decide_eq_true_eq]
  split <;> omega

/-- The lane of an operand is one that its type has. -/
lemma laneAt_lt {n : Operand} {W i : Nat} (hn : n.type.isVector → n.type.lanes = W)
    (hi : i < W) : laneAt n i < n.type.width := by
  unfold laneAt VType.width
  split
  · rename_i hv
    exact hn hv ▸ hi
  · exact Nat.one_pos

section Agree

variable {I : Operators} {env : WidenEnv} {F : WidenState} {C : Cell → Prop}
  {A : Nat → Operand → Word} {B : Operand → Word} {s s' : Nat → Wide.State} {t t' : Wide.State}
  {d n : Operand}

/-- An operand that is no base and its counterpart are assigned. -/
lemma Agree.put (h : Agree I env F C A B s t) (hfin : Orderly env F)
    (hd : F.operands.lookup d = some n) (hb : ∀ c, C c → c.base ≠ d) {v : Nat → Value} {w : Value}
    (hs : ∀ i < env.width, (s i).put? d (v i) = some (s' i)) (ht : t.put? n w = some t')
    (hw : IsPlainOperand d → n.type.kind = d.type.kind ∧
      (n.type.isVector → n.type.lanes = env.width) ∧
      ∀ i < env.width, d.type.kind.cut (w (laneAt n i)) = d.type.kind.cut (v i 0)) :
    Agree I env F C A B s' t' where
  values o n' ho hop i hi := by
    by_cases he : o = d
    · subst he
      obtain rfl := Option.some.inj (hd.symm.trans ho)
      obtain ⟨hk, hv, hw⟩ := hw hop
      rw [Wide.State.lane_of_put? ht (laneAt_lt hv hi), hk, hw i hi,
        Wide.State.lane_of_put? (hs i hi)]
      exact width_pos _
    · have hne : n' ≠ n := fun h => he (hfin.inj o d n (h ▸ ho) hd)
      rw [Wide.State.lane_of_put?_of_ne ht hne, Wide.State.lane_of_put?_of_ne (hs i hi) he]
      exact h.values o n' ho hop i hi
  bases c hc n' ho := by
    have he := hb c hc
    have hne : n' ≠ n := fun h => he (hfin.inj c.base d n (h ▸ ho) hd)
    rw [Wide.State.lane_of_put?_of_ne ht hne]
    refine ⟨(h.bases c hc n' ho).1, fun i hi => ?_⟩
    rw [Wide.State.lane_of_put?_of_ne (hs i hi) he]
    exact (h.bases c hc n' ho).2 i hi
  cells c hc i hi := by
    rw [(Wide.State.held_of_put? ht).2.2, (Wide.State.held_of_put? (hs i hi)).2.2]
    exact h.cells c hc i hi

/-- A register of packed code's own is assigned. -/
lemma Agree.put_own (h : Agree I env F C A B s t) {r : Reg}
    (hr : ∀ o, F.operands.lookup o ≠ some (.reg r)) {w : Value}
    (ht : t.put? (.reg r) w = some t') : Agree I env F C A B s t' where
  values o n ho hop i hi := by
    rw [Wide.State.lane_of_put?_of_ne ht fun he => hr o (he ▸ ho)]
    exact h.values o n ho hop i hi
  bases c hc n ho := by
    rw [Wide.State.lane_of_put?_of_ne ht fun he => hr c.base (he ▸ ho)]
    exact h.bases c hc n ho
  cells c hc i hi := by
    rw [(Wide.State.held_of_put? ht).2.2]
    exact h.cells c hc i hi

/-- **Cells do not overlap**: two of them are one, or in different places. -/
def Separate (W : Nat) (A : Nat → Operand → Word) (B : Operand → Word) (C : Cell → Prop) : Prop :=
  ∀ c c', C c → C c' → c.Same W A B c' ∨ c.Apart W A B c'

/-- Cells that code knows: those of packed layouts, and those that keep their place. -/
def Cell.Known (c : Cell) (env : WidenEnv) : Prop := c.Fits env ∨ c.Kept env

/-- What is no mask is stored as it is. -/
lemma Cell.Known.no_mask {c : Cell} (hc : c.Known env) (h : c.isMask = false) : c.inner = c.kind :=
  hc.elim (fun h' => h'.no_mask h) Cell.Kept.inner_eq

/-- All that is seen of a scalar or lane is as many bits as it has. -/
lemma Cell.shown_cut (I : Operators) {c : Cell} (hc : c.Known env) {w w' : Word}
    (h : c.inner.cut w = c.inner.cut w') : c.shown I w = c.shown I w' := by
  unfold shown
  split
  · rw [h]
  · rename_i hm
    rw [← hc.no_mask (Bool.eq_false_iff.2 hm)]
    exact h

/-- The lane of a cell is one that its type has. -/
lemma Cell.laneOf_lt (c : Cell) {W : Nat} (hW : 0 < W) {i : Nat} (hi : i < W) :
    c.laneOf i < (c.type W).width := by
  unfold laneOf type
  split
  · exact width_pos _
  · rwa [width_eq hW]

/-- **A store** to a cell: the scalars of all runs, and the lanes that stand for them. -/
lemma Agree.store (h : Agree I env F C A B s t) (hsep : Separate env.width A B C) {c : Cell}
    (hc : C c) (hknown : c.Known env) (hW : 0 < env.width)
    (hbytes : (c.type env.width).bytes ≤ UInt64.size) {v : Nat → Value} {w : Value}
    (hv : ∀ i < env.width, c.shown I (w (c.laneOf i)) = c.kind.cut (v i 0)) :
    Agree I env F C A B
      (fun i => { s i with mem := (s i).mem.write (.scalar c.kind) (c.scalarAt A i) (v i) })
      { t with mem := t.mem.write (c.type env.width) (c.packedAt B) w } where
  values := h.values
  bases := h.bases
  cells c' hc' i hi := by
    have hbits : (VType.scalar c.kind).bytes ≤ UInt64.size := by cases c.kind <;> decide
    obtain hsame | hapart := hsep c c' hc hc'
    · have hscalar := Memory.cut_read_write (m := (s i).mem) (a := c.scalarAt A i) (v := v i)
        (width_pos (.scalar c.kind)) hbits
      have hlane := Memory.cut_read_write (m := t.mem) (a := c.packedAt B) (v := w)
        (c.laneOf_lt hW hi) hbytes
      have hshown : c'.shown I = c.shown I := by
        funext x
        unfold Cell.shown
        rw [hsame.isMask_eq, hsame.inner_eq, hsame.kind_eq]
      have htype : c'.type env.width = c.type env.width := by
        rw [Cell.type, Cell.type, hsame.inner_eq, hsame.isShared_eq]
      have hlaneOf : c'.laneOf i = c.laneOf i := by
        rw [Cell.laneOf, Cell.laneOf, hsame.isShared_eq]
      rw [hshown, htype, hlaneOf, ← hsame.kind_eq, ← hsame.scalarAt_eq i hi, ← hsame.packedAt_eq]
      exact (Cell.shown_cut I hknown hlane).trans ((hv i hi).trans hscalar.symm)
    · have hscalar := Memory.read_write_of_apart (m := (s i).mem) (v := v i) (t := .scalar c.kind)
        (u := .scalar c'.kind) (hapart.scalar i hi).symm (width_pos _)
      have hlane := Memory.read_write_of_apart (m := t.mem) (v := w) (t := c.type env.width)
        (u := c'.type env.width) hapart.packed.symm (c'.laneOf_lt hW hi)
      show c'.shown I ((t.mem.write _ _ w).read _ _ (c'.laneOf i)) =
        c'.kind.cut (((s i).mem.write _ _ (v i)).read _ _ 0)
      rw [hlane, hscalar]
      exact h.cells c' hc' i hi

end Agree

/-! ## Plain code -/

/-- **Plain instructions** compute with scalars that are no addresses, and read and write cells. An
address may be copied to a register. -/
def IsPlain (C : Cell → Prop) : Instr → Prop
  | .label _ | .goto _ => True
  | .branch c _ _ => IsPlainOperand c
  | .assign kind d args => d.IsTarget ∧ IsPlainOperand d ∧ (∀ a ∈ args, IsPlainOperand a) ∧
      kind ≠ .splat ∧ kind ≠ .ptrAdd ∧ (kind = .move → ∃ a, args = [a]) ∨
    kind = .move ∧ ∃ r a, d = .reg r ∧ r.type = .ptr ∧ args = [a]
  | .load d p o => d.IsTarget ∧ ∃ c, C c ∧ c.base = p ∧ c.offset = o ∧ c.Takes d.type
  | .store p o a => ∃ c, C c ∧ c.base = p ∧ c.offset = o ∧ c.Takes a.type
  | _ => False

/-- **Bases**: addresses that are in no register. -/
def IsBase (o : Operand) : Prop := o.type.kind = .ptr ∧ ∀ r, o ≠ .reg r

/-- An address is no plain operand. -/
lemma IsBase.ne_of_isPlain {b d : Operand} (hb : IsBase b) (hd : IsPlainOperand d) : b ≠ d :=
  fun he => hd.kind_ne (he ▸ hb.1)

/-- **What is known about the lanes** of the operands of plain code. -/
structure LanesFit (env : WidenEnv) (code : List Instr) : Prop where
  settled : env.lanes.Settled env.toPackEnv code
  const_ne : ∀ c, env.lanes.get (.const c) ≠ .varying
  plain_ne : ∀ o, IsPlainOperand o → env.lanes.get o ≠ .packed
  pointer_ne : ∀ o, o.type = .ptr → env.lanes.get o ≠ .varying
  shared_load : ∀ d p o, .load d p o ∈ code → env.lanes.get p ≠ .packed →
    env.lanes.get d ≠ .varying

section Plain

variable {env : WidenEnv} {F : WidenState} {code : List Instr} {o n d : Operand}

/-- The counterpart of a scalar is a vector if the scalar varies, and of its type otherwise. -/
lemma IsCounterpart.type_eq (h : IsCounterpart env o n) (hl : LanesFit env code)
    (ho : IsPlainOperand o) : n.type = (env.lanes.get o).type env.width o.type := by
  cases o with
  | const c =>
    obtain rfl : n = .const c := h
    rw [LaneKind.type, if_neg (hl.const_ne c)]
  | reg r => cases n <;> first | exact h | exact h.elim
  | var v => cases n <;> first | exact h | exact h.elim
  | slot x =>
    obtain ⟨k, hk, ht⟩ := ho
    exact (hk (congrArg VType.kind ht).symm).elim
  | absent => exact h.elim

/-- The counterpart of a plain operand is of its kind. -/
lemma IsCounterpart.kind_eq (h : IsCounterpart env o n) (hl : LanesFit env code)
    (ho : IsPlainOperand o) : n.type.kind = o.type.kind := by
  rw [h.type_eq hl ho, LaneKind.type]
  split <;> rfl

/-- The counterpart of an operand is a vector where that varies and the width is above one. -/
lemma IsCounterpart.isVector_iff (h : IsCounterpart env o n) (hl : LanesFit env code)
    (ho : IsPlainOperand o) :
    n.type.isVector ↔ env.lanes.get o = .varying ∧ 1 < env.width := by
  obtain ⟨k, hk, ht⟩ := ho
  rw [h.type_eq hl ⟨k, hk, ht⟩, LaneKind.type]
  split
  · simp [VType.isVector, VType.vector, *]
  · simp [VType.isVector, VType.scalar, *]

/-- The counterpart of an operand that varies has as many lanes as the width. -/
lemma IsCounterpart.lanes_eq (h : IsCounterpart env o n) (hl : LanesFit env code)
    (ho : IsPlainOperand o) (hv : n.type.isVector) : n.type.lanes = env.width := by
  rw [h.type_eq hl ho, LaneKind.type, if_pos ((h.isVector_iff hl ho).1 hv).1]
  rfl

/-- An operand has the value of each run in its own lane, if it varies or if there is one run. -/
lemma IsCounterpart.laneAt_eq (h : IsCounterpart env o n) (hl : LanesFit env code)
    (ho : IsPlainOperand o) (hv : 1 < env.width → env.lanes.get o = .varying) {i : Nat}
    (hi : i < env.width) : laneAt n i = i := by
  unfold laneAt
  split
  · rfl
  · rename_i hn
    by_contra hne
    exact hn ((h.isVector_iff hl ho).2 ⟨hv (by omega), by omega⟩)

/-- An operand that is raised to vary does. -/
lemma LanesFit.varying_of_raised (hl : LanesFit env code) {i : Instr} (hi : i ∈ code)
    (hd : d.IsTarget) (h : (d, .varying) ∈ env.lanes.raised env.toPackEnv i) :
    env.lanes.get d = .varying := by
  have hnot := hl.settled i hi _ h
  have hcan : Lanes.canRise d := by cases d <;> first | rfl | exact hd.elim
  have hrank : ¬(env.lanes.get d).rank < LaneKind.varying.rank := fun hlt => hnot ⟨hcan, hlt⟩
  cases hg : env.lanes.get d with
  | varying => rfl
  | uniform | packed => exact absurd (by rw [hg]; decide) hrank

/-- What is computed from something that varies varies. -/
lemma LanesFit.varying_of_arg (h : LanesFit env code) {kind : AssignKind} {args : List Operand}
    (hi : .assign kind d args ∈ code) (hd : d.IsTarget) (hadd : kind ≠ .ptrAdd)
    (hmove : kind = .move → ∃ a, args = [a]) {a : Operand} (ha : a ∈ args)
    (hv : env.lanes.get a = .varying) : env.lanes.get d = .varying := by
  have hcomputed : env.lanes.computed kind args = .varying := by
    unfold Lanes.computed
    split
    · obtain ⟨b, rfl⟩ := hmove rfl
      obtain rfl := List.mem_singleton.1 ha
      exact hv
    · exact absurd rfl hadd
    · exact if_pos (List.any_eq_true.2 ⟨a, ha, by simp [hv]⟩)
  refine h.varying_of_raised hi hd (List.mem_singleton.2 ?_)
  rw [hcomputed]

end Plain

/-! ## Emitted code -/

/-- Labels and their counterparts. -/
def LabelsOf (F : WidenState) (l l' : Label) : Prop := F.labels.lookup l = some l'

/-- Registers that were made before are kept. -/
def KeepsRegs (k : Nat) (t t' : Wide.State) : Prop := ∀ r : Reg, r.id ≤ k → t'.regs r = t.regs r

section Emitted

variable {I : Operators} {env : WidenEnv} {F : WidenState} {C : Cell → Prop}
  {A : Nat → Operand → Word} {B : Operand → Word} {code : List Instr} {σ σ' : WidenState}
  {d o n : Operand} {os ns : List Operand}

/-- Registers that are kept have the values they had. -/
lemma KeepsRegs.lane_eq {k : Nat} {t t' : Wide.State} (h : KeepsRegs k t t') {r : Reg}
    (hr : r.id ≤ k) : t'.lane (.reg r) = t.lane (.reg r) :=
  Wide.State.lane_congr (h r hr)

/-- **Packed code keeps step** with an instruction: straight code is emitted, and it keeps states in
agreement, whatever `F` is emitted in the end. -/
def KeepsStep (I : Operators) (env : WidenEnv) (F : WidenState) (C : Cell → Prop)
    (A : Nat → Operand → Word) (B : Operand → Word) (σ σ' : WidenState) (i : Instr) : Prop :=
  Orderly env σ' ∧ Extends σ σ' ∧ ∃ js, σ'.code = σ.code ++ js ∧ (∀ j ∈ js, j.isStraight) ∧
    js ≠ [] ∧ (Extends σ' F → Orderly env F →
      Follows I env.width (Agree I env F C A B) i js)

/-- Code that keeps step mirrors its instruction. -/
lemma KeepsStep.mirrors {i : Instr} (h : KeepsStep I env F C A B σ σ' i) (hi : i.isStraight) :
    Orderly env σ' ∧ Extends σ σ' ∧ ∃ js, σ'.code = σ.code ++ js ∧
      (Extends σ' F → Orderly env F →
        Mirrors I env.width (Agree I env F C A B) (LabelsOf F) i js) := by
  obtain ⟨hσ', he, js, hcode, hjs, hne, hfollows⟩ := h
  exact ⟨hσ', he, js, hcode, fun hfin hord => .straight hi hjs hne (hfollows hfin hord)⟩

/-- **Spread values**: the lanes of a vector have the value of an operand in all runs. -/
def Spread (W : Nat) (s : Nat → Wide.State) (t : Wide.State) (o n : Operand) : Prop :=
  n.type.kind = o.type.kind ∧ ∀ i < W, t.lane n i = (s i).lane o 0

/-- **The code of a vector** runs, and spreads the value, which is not changed by code that keeps
states in agreement. -/
lemma vector_runs (hl : LanesFit env code) (hW : 0 < env.width) (ho : IsPlainOperand o)
    (h : Makes env (vector o) σ n σ') (hσ : Orderly env σ) :
    Orderly env σ' ∧ Extends σ σ' ∧ ∃ js, σ'.code = σ.code ++ js ∧ (∀ j ∈ js, j.isStraight) ∧
      n.type = o.type.vector env.width ∧
      (Extends σ' F → Orderly env F → ∀ s t, Agree I env F C A B s t →
        ∃ t', execAll? I t js = some t' ∧ Agree I env F C A B s t' ∧ KeepsRegs σ.regs t t' ∧
          ∀ t'', Agree I env F C A B s t'' → KeepsRegs σ'.regs t' t'' →
            Spread env.width s t'' o n) := by
  obtain ⟨hσ', he, n₀, hn₀, ⟨hv, rfl, hcode⟩ | ⟨hv, hcode, r, rfl, hr, hown⟩⟩ := vector_spec h hσ
  · have hcp := hσ'.counterpart o n hn₀
    -- A vector already has the lanes of the operand.
    refine ⟨hσ', he, [], by simp [hcode], by simp, ?_, fun hfin _ s t hR =>
      ⟨t, rfl, hR, fun _ _ => rfl, fun t'' hR' _ => ⟨hcp.kind_eq hl ho, fun i hi => ?_⟩⟩⟩
    · rw [hcp.type_eq hl ho, LaneKind.type, if_pos ((hcp.isVector_iff hl ho).1 hv).1]
    · have hval := hR'.values o n (hfin.operands o n hn₀) ho i hi
      rwa [laneAt, if_pos hv] at hval
  · -- Otherwise it is spread to a register of its own, which no counterpart has.
    have hcp := hσ'.counterpart o n₀ hn₀
    have hkind := hcp.kind_eq hl ho
    refine ⟨hσ', he, [.assign .splat (.reg r) [n₀]], hcode, by simp [Instr.isStraight], ?_,
      fun hfin hord s t hR => ?_⟩
    · show r.type = _
      rw [hr]
      simp [VType.vector, hkind]
    obtain ⟨t', ht'⟩ := t.exists_put? (d := .reg r) trivial
      (Wide.compute I .splat r.type [(n₀.type, t.lane n₀)])
    have hnew := hown.mono hfin
    refine ⟨t', (Wide.execAll?_singleton I t _).trans ht', hR.put_own hnew.ne ht',
      fun r' hr' => ?_, fun t'' _ hkeeps => ⟨?_, fun i hi => ?_⟩⟩
    · have hne : Operand.reg r' ≠ .reg r := fun h => by
        have := Operand.reg.inj h ▸ hown.lt
        omega
      exact (Wide.State.held_of_put? ht').2.1 (.reg r') hne
    · show r.type.kind = _
      rw [hr]
      exact hkind
    · have hlt : i < (Operand.reg r).type.width := by
        show i < r.type.width
        rw [hr, VType.vector, width_eq hW]
        exact hi
      have hval := hR.values o n₀ (hfin.operands o n₀ hn₀) ho i hi
      rw [laneAt, hv, if_neg Bool.false_ne_true] at hval
      rw [hkeeps.lane_eq hown.le, Wide.State.lane_of_put? ht' hlt]
      show r.type.kind.cut (t.lane n₀ 0) = _
      rw [hr, VType.vector, hkind, hval, Wide.State.cut_lane]

/-- **The code of vectors** runs, and spreads the values.

**Proof sketch.** By induction on the operands. A value that was spread stays, since the code of the
others assigns new registers only. -/
lemma vectors_runs (hl : LanesFit env code) (hW : 0 < env.width) :
    ∀ {os ns : List Operand} {σ σ' : WidenState}, (∀ o ∈ os, IsPlainOperand o) →
    Makes env (vectors os) σ ns σ' → Orderly env σ →
    Orderly env σ' ∧ Extends σ σ' ∧ ∃ js, σ'.code = σ.code ++ js ∧ (∀ j ∈ js, j.isStraight) ∧
      (Extends σ' F → Orderly env F → ∀ s t, Agree I env F C A B s t →
        ∃ t', execAll? I t js = some t' ∧ Agree I env F C A B s t' ∧ KeepsRegs σ.regs t t' ∧
          List.Forall₂ (Spread env.width s t') os ns)
  | [], _, _, _, _, h, hσ => by
    obtain ⟨rfl, rfl⟩ := makes_pure.1 h
    exact ⟨hσ, .refl _, [], by simp, by simp,
      fun _ _ s t hR => ⟨t, rfl, hR, fun _ _ => rfl, .nil⟩⟩
  | o :: os, _, σ, _, hos, h, hσ => by
    obtain ⟨ho, hos⟩ := List.forall_mem_cons.1 hos
    simp only [vectors, makes_bind, makes_pure] at h
    obtain ⟨n, σ₁, hn, ns, σ₂, hns, rfl, rfl⟩ := h
    obtain ⟨h₁, he₁, js, hcode, hjs, -, hrun⟩ :=
      vector_runs (I := I) (F := F) (C := C) (A := A) (B := B) hl hW ho hn hσ
    obtain ⟨h₂, he₂, ks, hcode', hks, hrun'⟩ := vectors_runs hl hW hos hns h₁
    refine ⟨h₂, he₁.trans he₂, js ++ ks, by rw [hcode', hcode, List.append_assoc],
      fun j hj => (List.mem_append.1 hj).elim (hjs j) (hks j), fun hfin hord s t hR => ?_⟩
    obtain ⟨t₁, hall, hR₁, hkeeps, hspread⟩ := hrun (he₂.trans hfin) hord s t hR
    obtain ⟨t₂, hall', hR₂, hkeeps', hspreads⟩ := hrun' hfin hord s t₁ hR₁
    refine ⟨t₂, by rw [Wide.execAll?_append, hall]; exact hall', hR₂, fun r hr => ?_,
      .cons (hspread t₂ hR₂ hkeeps') hspreads⟩
    exact (hkeeps' r (Nat.le_trans hr he₁.regs_le)).trans (hkeeps r hr)

/-- The counterpart of a target is a target. -/
lemma IsCounterpart.isTarget (h : IsCounterpart env d n) (hd : d.IsTarget) : n.IsTarget := by
  cases d with
  | reg | var => cases n <;> trivial
  | _ => exact hd.elim

/-- The lanes of an assigned operand follow from those of its arguments. -/
lemma compute_eq {kind : AssignKind} (hkind : kind ≠ .splat) {t u : VType} (ht : t.kind = u.kind)
    {s t' : Wide.State} {i : Nat}
    (h : List.Forall₂ (fun o n => n.type.kind = o.type.kind ∧ t'.lane n i = s.lane o 0) os ns) :
    Wide.compute I kind t (ns.map fun n => (n.type, t'.lane n)) i =
      Wide.compute I kind u (os.map fun o => (o.type, s.lane o)) 0 := by
  have hargs : ns.map (fun n => (n.type.elem, t'.lane n i)) =
      os.map fun o => (o.type.elem, s.lane o 0) := by
    induction h with
    | nil => rfl
    | cons h _ ih =>
      rw [List.map_cons, List.map_cons, ih, h.2, VType.elem, h.1]
      rfl
  rw [Wide.compute_of_ne_splat hkind, Wide.compute_of_ne_splat hkind]
  simp only [List.map_map, Function.comp_def]
  rw [hargs, VType.elem, ht]
  rfl

/-- **Computations** keep states in agreement. -/
lemma assign_follows (hl : LanesFit env code) (hW : 0 < env.width)
    (hbases : ∀ c, C c → IsBase c.base)
    {kind : AssignKind} (hi : .assign kind d os ∈ code) (hd : d.IsTarget) (hdp : IsPlainOperand d)
    (hos : ∀ o ∈ os, IsPlainOperand o) (hsplat : kind ≠ .splat) (hadd : kind ≠ .ptrAdd)
    (hmove : kind = .move → ∃ a, os = [a]) (h : Makes env (assign kind d os) σ () σ')
    (hσ : Orderly env σ) :
    KeepsStep I env F C A B σ σ' (.assign kind d os) := by
  have hadd' : (kind == .ptrAdd) = false := beq_eq_false_iff_ne.2 hadd
  simp only [assign, makes_bind, makes_read, hadd', Bool.false_and, Bool.false_eq_true,
    if_false] at h
  obtain ⟨_, _, ⟨rfl, rfl⟩, n, σ₁, hn, h⟩ := h
  obtain ⟨h₁, he₁, hcode₁, hlook⟩ := operand_spec hn hσ
  have hcp := h₁.counterpart d n hlook
  have hkind := hcp.kind_eq hl hdp
  have htarget := hcp.isTarget hd
  -- Whatever the arguments are, the value is put in the counterpart of the destination.
  have finish : ∀ {ns : List Operand} {σ₂ : WidenState} {js : List Instr}, Orderly env σ₂ →
      Extends σ₁ σ₂ → σ₂.code = σ₁.code ++ js → (∀ j ∈ js, j.isStraight) →
      (Extends σ₂ F → Orderly env F → ∀ s t, Agree I env F C A B s t →
        ∃ t', execAll? I t js = some t' ∧ Agree I env F C A B s t' ∧
          ∀ i < env.width, List.Forall₂ (fun o m => m.type.kind = o.type.kind ∧
            t'.lane m (laneAt n i) = (s i).lane o 0) os ns) →
      KeepsStep I env F C A B σ { σ₂ with code := σ₂.code ++ [.assign kind n ns] }
        (.assign kind d os) := by
    intro ns σ₂ js h₂ he₂ hcode₂ hjs hrun
    refine ⟨h₂.code _, (he₁.trans he₂).code _, js ++ [.assign kind n ns],
      by rw [hcode₂, hcode₁, List.append_assoc], fun j hj => ?_, by simp,
      fun hfin hord s t hR => ?_⟩
    · obtain hj | hj := List.mem_append.1 hj
      · exact hjs j hj
      · exact List.mem_singleton.1 hj ▸ rfl
    have hfin₂ := hfin.of_code
    obtain ⟨t₁, hall, hR₁, hargs⟩ := hrun hfin₂ hord s t hR
    choose s' hs' using fun i => (s i).exists_put? hd
      (Wide.compute I kind d.type (os.map fun a => (a.type, (s i).lane a)))
    obtain ⟨t', ht'⟩ := t₁.exists_put? htarget
      (Wide.compute I kind n.type (ns.map fun a => (a.type, t₁.lane a)))
    refine ⟨s', t', fun i _ => hs' i, ?_, ?_⟩
    · rw [Wide.execAll?_append, hall]
      exact (Wide.execAll?_singleton I t₁ _).trans ht'
    · refine hR₁.put hord (hfin₂.operands d n (he₂.operands d n hlook))
        (fun c hc => (hbases c hc).ne_of_isPlain hdp) (fun i _ => hs' i) ht' fun _ =>
          ⟨hkind, hcp.lanes_eq hl hdp, fun i hi' => ?_⟩
      exact congrArg _ (compute_eq hsplat hkind (hargs i hi'))
  split at h
  · rename_i hv
    simp only [makes_bind, makes_emit] at h
    obtain ⟨ns, σ₂, hns, rfl⟩ := h
    obtain ⟨h₂, he₂, js, hcode₂, hjs, hrun⟩ := vectors_runs (I := I) (F := F) (C := C) (A := A)
      (B := B) hl hW hos hns h₁
    refine finish h₂ he₂ hcode₂ hjs fun hfin hord s t hR => ?_
    obtain ⟨t', hall, hR', -, hspread⟩ := hrun hfin hord s t hR
    refine ⟨t', hall, hR', fun i hi' => hspread.imp fun o m hm => ⟨hm.1, ?_⟩⟩
    rw [laneAt, if_pos hv]
    exact hm.2 i hi'
  · rename_i hv
    simp only [makes_bind, makes_emit] at h
    obtain ⟨ns, σ₂, hns, rfl⟩ := h
    obtain ⟨h₂, he₂, hcode₂, hlooks⟩ := operands_spec hns h₁
    refine @finish _ _ [] h₂ he₂ (by simp [hcode₂]) (by simp) fun hfin hord s t hR =>
      ⟨t, rfl, hR, fun i hi' => ?_⟩
    refine ((List.forall₂_and_left (p := (· ∈ os)) _ _).2 ⟨fun _ => id, hlooks⟩).imp
      fun o m hm => ?_
    have hcp' := h₂.counterpart o m hm.2
    have ho := hos o hm.1
    refine ⟨hcp'.kind_eq hl ho, ?_⟩
    have hm' : m.type.isVector = false := by
      rw [Bool.eq_false_iff]
      intro hmv
      obtain ⟨hvar, hlt⟩ := (hcp'.isVector_iff hl ho).1 hmv
      exact hv ((hcp.isVector_iff hl hdp).2 ⟨hl.varying_of_arg hi hd hadd hmove hm.1 hvar, hlt⟩)
    have hval := hR.values o m (hfin.operands o m hm.2) ho i hi'
    rw [laneAt, if_neg (by simpa using hm')] at hval
    rw [laneAt, if_neg hv]
    exact hval

/-- **Copies of addresses** keep states in agreement. -/
lemma pointer_follows (hl : LanesFit env code) (hbases : ∀ c, C c → IsBase c.base) {r : Reg}
    (hr : r.type = .ptr) (h : Makes env (assign .move (.reg r) [o]) σ () σ') (hσ : Orderly env σ) :
    KeepsStep I env F C A B σ σ' (.assign .move (.reg r) [o]) := by
  simp only [assign, makes_bind, makes_read, show (AssignKind.move == .ptrAdd) = false from rfl,
    Bool.false_and, Bool.false_eq_true, if_false] at h
  obtain ⟨_, _, ⟨rfl, rfl⟩, n, σ₁, hn, h⟩ := h
  obtain ⟨h₁, he₁, hcode₁, hlook⟩ := operand_spec hn hσ
  obtain ⟨r', rfl, hr'⟩ : ∃ r', n = .reg r' ∧ r'.type = .ptr := by
    have hcp := h₁.counterpart (.reg r) n hlook
    cases n with
    | reg r' =>
      refine ⟨r', rfl, Eq.trans (show r'.type = _ from hcp) ?_⟩
      rw [LaneKind.type, if_neg (hl.pointer_ne (.reg r) hr), hr]
    | _ => exact hcp.elim
  rw [if_neg (by
    show ¬r'.type.isVector = true
    rw [hr']
    decide)] at h
  simp only [makes_bind, makes_emit] at h
  obtain ⟨ns, σ₂, hns, rfl⟩ := h
  obtain ⟨h₂, he₂, hcode₂, -⟩ := operands_spec hns h₁
  refine ⟨h₂.code _, (he₁.trans he₂).code _, [.assign .move (.reg r') ns], by rw [hcode₂, hcode₁],
    by simp [Instr.isStraight], by simp, fun hfin hord s t hR => ?_⟩
  have hfin₂ := hfin.of_code
  choose s' hs' using fun i => (s i).exists_put? (d := .reg r) trivial
    (Wide.compute I .move r.type ([o].map fun a => (a.type, (s i).lane a)))
  obtain ⟨t', ht'⟩ := t.exists_put? (d := .reg r') trivial
    (Wide.compute I .move r'.type (ns.map fun a => (a.type, t.lane a)))
  refine ⟨s', t', fun i _ => hs' i, (Wide.execAll?_singleton I t _).trans ht', ?_⟩
  refine hR.put hord (hfin₂.operands _ _ (he₂.operands _ _ hlook)) (fun c hc => (hbases c hc).2 r)
    (fun i _ => hs' i) ht' fun hp => absurd ?_ hp.kind_ne
  show r.type.kind = .ptr
  rw [hr]
  rfl

/-- The path of a cell has steps. -/
lemma Cell.Fits.isTrivial_eq {c : Cell} (hc : c.Fits env) : Offset.isTrivial c.offset = false := by
  obtain ⟨p, x, h, -⟩ := hc.member
  cases ho : c.offset with
  | none => simp [ho, PackedLayouts.offset?] at h
  | some o =>
    cases hpath : o.path with
    | nil => simp [ho, PackedLayouts.offset?, hpath] at h
    | cons => simp [Offset.isTrivial, hpath]

/-- The type of a cell that fits has a lane for each index. -/
lemma Cell.Fits.type_eq {c : Cell} (hc : c.Fits env) :
    c.type env.width = ⟨c.inner, env.width⟩ := by
  rw [Cell.type, hc.isShared_eq]
  rfl

/-- Each lane of a cell that fits has its own index. -/
lemma Cell.Fits.laneOf_eq {c : Cell} (hc : c.Fits env) (i : Nat) : c.laneOf i = i := by
  rw [Cell.laneOf, hc.isShared_eq]
  rfl

/-- Only a scalar of its kind is taken by a cell of a packed layout. -/
lemma Cell.Fits.of_takes {c : Cell} (hc : c.Fits env) {t : VType} (h : c.Takes t) :
    t = .scalar c.kind := by
  obtain ⟨k, rfl, -, rfl | ⟨ho, -⟩⟩ := h
  · rfl
  · have htriv := hc.isTrivial_eq
    rw [ho] at htriv
    cases htriv

/-- Packing an offset makes nothing. -/
lemma packedOffset_iff {q q' : Offset × PackedMember} {p : Option Offset}
    (hq : env.layouts.offset? p = some q) :
    Makes env (packedOffset p) σ q' σ' ↔ q = q' ∧ σ = σ' := by
  simp only [packedOffset, makes_bind, makes_read]
  constructor
  · rintro ⟨_, _, ⟨rfl, rfl⟩, h⟩
    rw [hq] at h
    exact makes_pure.1 h
  · rintro ⟨rfl, rfl⟩
    refine ⟨env, σ, ⟨rfl, rfl⟩, ?_⟩
    rw [hq]
    exact makes_pure.2 ⟨rfl, rfl⟩

/-- A packed member is a vector if there are several instances. -/
lemma isVector_eq {k : Kind} {x : PackedMember} (h : x.member.type? = some ⟨k, env.width⟩) :
    x.member.isVector = decide (1 < env.width) := by
  simp [StructMember.isVector, h, VType.isVector]

/-- The address of a cell in packed memory. -/
lemma Agree.address_eq {s : Nat → Wide.State} {t : Wide.State} (hR : Agree I env F C A B s t)
    {c : Cell} (hC : C c) (hn : F.operands.lookup c.base = some n) :
    t.address n c.packed = c.packedAt B := by
  rw [Wide.State.address, (hR.bases c hC n hn).1, Cell.packedAt]

/-- The address of a cell in the memory of a run. -/
lemma Agree.scalar_address_eq {s : Nat → Wide.State} {t : Wide.State}
    (hR : Agree I env F C A B s t) {c : Cell} (hC : C c)
    (hn : F.operands.lookup c.base = some n) {i : Nat} (hi : i < env.width) :
    (s i).address c.base c.offset = c.scalarAt A i := by
  rw [Wide.State.address, (hR.bases c hC n hn).2 i hi, Cell.scalarAt]

/-- What is loaded from a cell of a packed layout varies. -/
lemma LanesFit.varying_of_load (hl : LanesFit env code) {c : Cell} (hc : c.Fits env)
    (hi : .load d c.base c.offset ∈ code) (hd : d.IsTarget) (hW : 1 < env.width) :
    env.lanes.get d = .varying := by
  obtain ⟨p, x, hoff, -, -, htype⟩ := hc.member
  refine hl.varying_of_raised hi hd (List.mem_singleton.2 ?_)
  simp [Lanes.loaded, hc.base_packed, hc.isTrivial_eq, hoff, isVector_eq htype, hW]

/-- Zero has all its lanes zero. -/
lemma lane_zero (t : Wide.State) (k : Kind) (W i : Nat) :
    t.lane (.const (.zero ⟨k, W⟩)) i = 0 := by
  have hword : (Const.zero ⟨k, W⟩).word = 0 := by
    cases k <;> rfl
  unfold Wide.State.lane
  split
  · show k.cut (Const.zero ⟨k, W⟩).word = 0
    rw [hword]
    cases k <;> rfl
  · rfl

/-- **Loads of masks** keep states in agreement: the mask is compared with zero. -/
lemma load_mask_follows (hl : LanesFit env code) (hW : 0 < env.width)
    (hbases : ∀ c, C c → IsBase c.base) {c : Cell} (hC : C c) (hc : c.Fits env)
    (hi : .load d c.base c.offset ∈ code) (hd : d.IsTarget) (hdt : d.type = .scalar c.kind)
    {q : Offset} (hq : c.packed = some q) (hmask : c.isMask = true) (h : Makes env (do
      let raw ← newReg ⟨c.inner, env.width⟩
      emit (.load raw (← operand c.base) (some q))
      emit (.assign .ne (← operand d) [raw, .const (.zero ⟨c.inner, env.width⟩)])) σ () σ')
    (hσ : Orderly env σ) : KeepsStep I env F C A B σ σ' (.load d c.base c.offset) := by
  have hdp : IsPlainOperand d := ⟨c.kind, hc.kind_ne, hdt⟩
  have hother : ∀ c, C c → c.base ≠ d := fun c hc => (hbases c hc).ne_of_isPlain hdp
  -- The code loads the raw lanes to a register of its own, and compares them with zero.
  simp only [makes_bind, makes_emit] at h
  obtain ⟨raw, σ₁, hraw, p, σ₂, hp, _, _, rfl, n, σ₃, hn, rfl⟩ := h
  obtain ⟨h₁, he₁, hcode₁, r, rfl, hr, hown⟩ := newReg_spec hraw hσ
  obtain ⟨h₂, he₂, hcode₂, hlookp⟩ := operand_spec hp h₁
  obtain ⟨h₃, he₃, hcode₃, hlook⟩ := operand_spec hn (h₂.code _)
  have he₃' := he₃.of_code
  have hcp := h₃.counterpart d n hlook
  have hkind := hcp.kind_eq hl hdp
  obtain ⟨hbool, -⟩ := hc.mask hmask
  refine ⟨h₃.code _, (he₁.trans (he₂.trans he₃')).code _,
    [.load (.reg r) p (some q), .assign .ne n [.reg r, .const (.zero ⟨c.inner, env.width⟩)]],
    by simp [hcode₃, hcode₂, hcode₁], by simp [Instr.isStraight], by simp,
    fun hfin hord s t hR => ?_⟩
  have hfin₃ := hfin.of_code
  have hfin₂ := he₃'.trans hfin₃
  have hbase := hfin₂.operands _ p hlookp
  have hnew := hown.mono (he₂.trans hfin₂)
  have haddr : t.address p (some q) = c.packedAt B := hq ▸ hR.address_eq hC hbase
  choose s' hs' using fun i => (s i).exists_put? hd
    ((s i).mem.read d.type ((s i).address c.base c.offset))
  obtain ⟨t₁, ht₁⟩ := t.exists_put? (d := .reg r) trivial
    (t.mem.read r.type (t.address p (some q)))
  have hR₁ := hR.put_own hnew.ne ht₁
  let args : List Operand := [.reg r, .const (.zero ⟨c.inner, env.width⟩)]
  obtain ⟨t', ht'⟩ := t₁.exists_put? (hcp.isTarget hd)
    (Wide.compute I .ne n.type (args.map fun a => (a.type, t₁.lane a)))
  refine ⟨s', t', fun i _ => hs' i, ?_, ?_⟩
  · show (exec? I t (.load (.reg r) p (some q))).bind _ = _
    rw [show exec? I t (.load (.reg r) p (some q)) = some t₁ from ht₁]
    exact (Wide.execAll?_singleton I t₁ _).trans ht'
  · refine hR₁.put hord (hfin₃.operands d n hlook) hother (fun i _ => hs' i) ht' fun _ =>
      ⟨hkind, hcp.lanes_eq hl hdp, fun i hi' => ?_⟩
    have hcell := hR.cells c hC i hi'
    rw [Cell.shown, if_pos hmask, hc.type_eq, hc.laneOf_eq] at hcell
    have hat := hcp.laneAt_eq hl hdp (hl.varying_of_load hc hi hd) hi'
    have hlt : i < (Operand.reg r).type.width := by
      show i < r.type.width
      rw [hr, width_eq hW]
      exact hi'
    have hraw : t₁.lane (.reg r) i =
        c.inner.cut (t.mem.read ⟨c.inner, env.width⟩ (c.packedAt B) i) := by
      rw [Wide.State.lane_of_put? ht₁ hlt, haddr]
      show r.type.kind.cut _ = _
      rw [hr]
    rw [hR.scalar_address_eq hC hbase hi', hat, hdt, Wide.compute_of_ne_splat (by decide)]
    show Kind.cut c.kind (I.binary .ne r.type.elem (t₁.lane (.reg r) i)
      (t₁.lane (.const (.zero ⟨c.inner, env.width⟩)) i)) = _
    rw [hraw, lane_zero, hr, hbool]
    rw [hbool] at hcell
    exact hcell

/-- **Loads of other members** keep states in agreement: the lanes are read as they are. -/
lemma load_lanes_follows (hl : LanesFit env code) (hbases : ∀ c, C c → IsBase c.base) {c : Cell}
    (hC : C c) (hc : c.Fits env) (hi : .load d c.base c.offset ∈ code) (hd : d.IsTarget)
    (hdt : d.type = .scalar c.kind) {q : Offset} (hq : c.packed = some q)
    (hmask : c.isMask = false) (h : Makes env (do
      let dst ← operand d
      emit (.load dst (← operand c.base) (some q))) σ () σ')
    (hσ : Orderly env σ) : KeepsStep I env F C A B σ σ' (.load d c.base c.offset) := by
  have hdp : IsPlainOperand d := ⟨c.kind, hc.kind_ne, hdt⟩
  simp only [makes_bind, makes_emit] at h
  obtain ⟨n, σ₁, hn, p, σ₂, hp, rfl⟩ := h
  obtain ⟨h₁, he₁, hcode₁, hlook⟩ := operand_spec hn hσ
  obtain ⟨h₂, he₂, hcode₂, hlookp⟩ := operand_spec hp h₁
  have hcp := h₁.counterpart d n hlook
  have hkind := hcp.kind_eq hl hdp
  refine ⟨h₂.code _, (he₁.trans he₂).code _, [.load n p (some q)],
    by rw [hcode₂, hcode₁], by simp [Instr.isStraight], by simp, fun hfin hord s t hR => ?_⟩
  have hfin₂ := hfin.of_code
  have hbase := hfin₂.operands _ p hlookp
  have haddr : t.address p (some q) = c.packedAt B := hq ▸ hR.address_eq hC hbase
  choose s' hs' using fun i => (s i).exists_put? hd
    ((s i).mem.read d.type ((s i).address c.base c.offset))
  obtain ⟨t', ht'⟩ := t.exists_put? (hcp.isTarget hd)
    (t.mem.read n.type (t.address p (some q)))
  refine ⟨s', t', fun i _ => hs' i, (Wide.execAll?_singleton I t _).trans ht', ?_⟩
  refine hR.put hord (hfin₂.operands d n (he₂.operands d n hlook))
    (fun c hc => (hbases c hc).ne_of_isPlain hdp) (fun i _ => hs' i) ht'
    fun _ => ⟨hkind, hcp.lanes_eq hl hdp, fun i hi' => ?_⟩
  have hcell := hR.cells c hC i hi'
  have hat := hcp.laneAt_eq hl hdp (hl.varying_of_load hc hi hd) hi'
  have hinner := hc.no_mask hmask
  rw [Cell.shown, if_neg (by simp [hmask]), hc.type_eq, hc.laneOf_eq] at hcell
  rw [haddr, hR.scalar_address_eq hC hbase hi', hat, hdt,
    Memory.read_congr t.mem (u := ⟨c.inner, env.width⟩) (by rw [hkind, hdt, hinner]; rfl)]
  exact hcell

/-- **Loads** keep states in agreement. -/
lemma load_follows (hl : LanesFit env code) (hW : 0 < env.width) (hbases : ∀ c, C c → IsBase c.base)
    {c : Cell} (hC : C c) (hc : c.Fits env) (hi : .load d c.base c.offset ∈ code)
    (hd : d.IsTarget) (hdt : d.type = .scalar c.kind)
    (h : Makes env (load d c.base c.offset) σ () σ') (hσ : Orderly env σ) :
    KeepsStep I env F C A B σ σ' (.load d c.base c.offset) := by
  obtain ⟨q, x, hoff, hq, hisMask, htype⟩ := hc.member
  simp only [load, makes_bind, makes_laneOf] at h
  obtain ⟨_, _, ⟨rfl, rfl⟩, h⟩ := h
  rw [if_neg (by simp [hc.base_packed, hc.isTrivial_eq])] at h
  obtain ⟨_, _, hoff', h⟩ := makes_bind.1 h
  obtain ⟨rfl, rfl⟩ := (packedOffset_iff hoff).1 hoff'
  simp only [hisMask, htype, Option.getD_some] at h
  split at h
  · rename_i hmask
    exact load_mask_follows hl hW hbases hC hc hi hd hdt hq hmask h hσ
  · rename_i hmask
    exact load_lanes_follows hl hbases hC hc hi hd hdt hq (Bool.eq_false_iff.2 hmask) h hσ

/-- A cell that keeps its place is read as any scalar that it is for. -/
lemma Agree.read_kept {s : Nat → Wide.State} {t : Wide.State} (hR : Agree I env F C A B s t)
    {c : Cell} (hC : C c) (hc : c.Kept env) {k : Kind} (hk : c.Takes (.scalar k))
    {u : VType} (hu : u.kind = k) {i : Nat} (hi : i < env.width) :
    k.cut (t.mem.read u (c.packedAt B) (c.laneOf i)) =
      k.cut ((s i).mem.read (.scalar k) (c.scalarAt A i) 0) := by
  have hcell := hR.cells c hC i hi
  rw [Cell.shown, if_neg (by simp [hc.isMask_eq])] at hcell
  obtain ⟨k', he, -, hk⟩ := hk
  obtain rfl : k = k' := congrArg VType.kind he
  have hsize : k.size = c.kind.size := hk.elim (congrArg _) And.right
  rw [Memory.read_congr_size t.mem (u := c.type env.width) (by
      rw [hu, hsize, ← hc.inner_eq]
      rfl),
    Memory.read_congr_size (s i).mem (t := .scalar k) (u := .scalar c.kind) hsize]
  obtain rfl | ⟨ho, -⟩ := hk
  · exact hcell
  · exact congrArg _ (Memory.read_eq_of_cut_eq (hc.bits_eq ho) hc.inner_eq rfl hcell)

/-- A base that has no members in packed memory of its own is accessed as in scalar code. -/
lemma Cell.Kept.isTrivial_or {c : Cell} (hc : c.Kept env) :
    env.lanes.get c.base ≠ .packed ∨ Offset.isTrivial c.offset = true := by
  by_cases h : env.lanes.get c.base = .packed
  · exact .inr (by rw [hc.offset_none h]; rfl)
  · exact .inl h

/-- **Loads from cells that keep their place** keep states in agreement. -/
lemma kept_load_follows (hl : LanesFit env code) (hbases : ∀ c, C c → IsBase c.base) {c : Cell}
    (hC : C c) (hc : c.Kept env) (hi : .load d c.base c.offset ∈ code) (hd : d.IsTarget)
    (hdt : c.Takes d.type) (h : Makes env (load d c.base c.offset) σ () σ') (hσ : Orderly env σ) :
    KeepsStep I env F C A B σ σ' (.load d c.base c.offset) := by
  have htakes := hdt
  obtain ⟨k, hdt, hk, -⟩ := hdt
  have hdp : IsPlainOperand d := ⟨k, hk, hdt⟩
  simp only [load, makes_bind, makes_laneOf] at h
  obtain ⟨_, _, ⟨rfl, rfl⟩, h⟩ := h
  rw [if_pos (by simpa using hc.isTrivial_or)] at h
  simp only [makes_bind, makes_emit] at h
  obtain ⟨n, σ₁, hn, p, σ₂, hp, rfl⟩ := h
  obtain ⟨h₁, he₁, hcode₁, hlook⟩ := operand_spec hn hσ
  obtain ⟨h₂, he₂, hcode₂, hlookp⟩ := operand_spec hp h₁
  have hcp := h₁.counterpart d n hlook
  have hkind := hcp.kind_eq hl hdp
  -- What is loaded varies if and only if the cell has a lane for each instance.
  have hlane : ∀ i < env.width, laneAt n i = c.laneOf i := by
    intro i hi'
    by_cases hshared : c.isShared = true
    · have hnot : ¬n.type.isVector = true := fun hv => hl.shared_load d c.base _ hi
        (hc.isShared_iff.1 hshared) ((hcp.isVector_iff hl hdp).1 hv).1
      rw [laneAt, if_neg hnot, Cell.laneOf, if_pos hshared]
    · have hpacked : env.lanes.get c.base = .packed := by
        by_contra hne
        exact hshared (hc.isShared_iff.2 hne)
      rw [Cell.laneOf, if_neg hshared]
      refine hcp.laneAt_eq hl hdp (fun _ => hl.varying_of_raised hi hd ?_) hi'
      refine List.mem_singleton.2 ?_
      simp [Lanes.loaded, hpacked, hc.offset_none hpacked, Offset.isTrivial]
  refine ⟨h₂.code _, (he₁.trans he₂).code _, [.load n p c.offset], by rw [hcode₂, hcode₁],
    by simp [Instr.isStraight], by simp, fun hfin hord s t hR => ?_⟩
  have hfin₂ := hfin.of_code
  have hbase := hfin₂.operands _ p hlookp
  have haddr : t.address p c.offset = c.packedAt B := by
    rw [← hc.packed_eq]
    exact hR.address_eq hC hbase
  choose s' hs' using fun i => (s i).exists_put? hd
    ((s i).mem.read d.type ((s i).address c.base c.offset))
  obtain ⟨t', ht'⟩ := t.exists_put? (hcp.isTarget hd) (t.mem.read n.type (t.address p c.offset))
  refine ⟨s', t', fun i _ => hs' i, (Wide.execAll?_singleton I t _).trans ht', ?_⟩
  refine hR.put hord (hfin₂.operands d n (he₂.operands d n hlook))
    (fun c hc => (hbases c hc).ne_of_isPlain hdp) (fun i _ => hs' i) ht'
    fun _ => ⟨hkind, hcp.lanes_eq hl hdp, fun i hi' => ?_⟩
  rw [haddr, hR.scalar_address_eq hC hbase hi', hlane i hi', hdt]
  exact hR.read_kept hC hc (hdt ▸ htakes) (hkind.trans (congrArg _ hdt)) hi'

/-- **A scalar is stored** by all runs, and lanes that stand for it by packed code. -/
lemma Agree.exists_store {s : Nat → Wide.State} {t : Wide.State} {p : Operand}
    (hR : Agree I env F C A B s t) (hsep : Separate env.width A B C) {c : Cell} (hC : C c)
    (hc : c.Known env) (hW : 0 < env.width)
    (hbytes : (c.type env.width).bytes ≤ UInt64.size)
    (hp : F.operands.lookup c.base = some p) {k : Kind} (ho : o.type = .scalar k)
    (hk : k.size = c.kind.size) (hn : n.type.kind.size = c.inner.size)
    (hw : n.type.width = (c.type env.width).width)
    (hshown : ∀ i < env.width, c.shown I (t.lane n (c.laneOf i)) = c.kind.cut ((s i).lane o 0)) :
    ∃ s' t', (∀ i < env.width, exec? I (s i) (.store c.base c.offset o) = some (s' i)) ∧
      exec? I t (.store p c.packed n) = some t' ∧ Agree I env F C A B s' t' := by
  refine ⟨fun i => { s i with
      mem := (s i).mem.write (.scalar c.kind) (c.scalarAt A i) ((s i).lane o) },
    { t with mem := t.mem.write n.type (t.address p c.packed) (t.lane n) },
    fun i hi' => ?_, rfl, ?_⟩
  · rw [exec?, hR.scalar_address_eq hC hp hi', ho,
      Memory.write_congr_size (s i).mem (t := .scalar k) (u := .scalar c.kind) hk rfl]
  · rw [hR.address_eq hC hp,
      Memory.write_congr_size t.mem (u := c.type env.width) (by rw [hn]; rfl) hw]
    exact hR.store hsep hC hc hW hbytes hshown

/-- **A member of a packed layout is stored** by all runs, and lanes that stand for it by packed
code. -/
lemma Agree.exists_store_member {s : Nat → Wide.State} {t : Wide.State} {p : Operand}
    (hR : Agree I env F C A B s t) (hsep : Separate env.width A B C) {c : Cell} (hC : C c)
    (hc : c.Fits env) (hW : 0 < env.width) (hbytes : (c.type env.width).bytes ≤ UInt64.size)
    (hot : o.type = .scalar c.kind) (hp : F.operands.lookup c.base = some p)
    (hkind : n.type.kind = c.inner) (hwidth : n.type.width = env.width)
    (hshown : ∀ i < env.width, c.shown I (t.lane n i) = (s i).lane o 0) :
    ∃ s' t', (∀ i < env.width, exec? I (s i) (.store c.base c.offset o) = some (s' i)) ∧
      exec? I t (.store p c.packed n) = some t' ∧ Agree I env F C A B s' t' := by
  refine hR.exists_store hsep hC (.inl hc) hW hbytes hp hot rfl (congrArg _ hkind)
    (by rw [hwidth, hc.type_eq, width_eq hW]) fun i hi => ?_
  have hcut := Wide.State.cut_lane (s i) o 0
  rw [hot] at hcut
  rw [hc.laneOf_eq, hshown i hi]
  exact hcut.symm

/-- **A scalar is stored** by all runs, where packed code keeps its place, and lanes that stand for
it by packed code. -/
lemma Agree.exists_store_kept {s : Nat → Wide.State} {t : Wide.State} {p : Operand}
    (hR : Agree I env F C A B s t) (hsep : Separate env.width A B C) {c : Cell} (hC : C c)
    (hc : c.Kept env) (hW : 0 < env.width) (hbytes : (c.type env.width).bytes ≤ UInt64.size)
    (hot : c.Takes o.type) (hp : F.operands.lookup c.base = some p)
    (hkind : n.type.kind = o.type.kind) (hwidth : n.type.width = (c.type env.width).width)
    (hlane : ∀ i < env.width, t.lane n (c.laneOf i) = (s i).lane o 0) :
    ∃ s' t', (∀ i < env.width, exec? I (s i) (.store c.base c.offset o) = some (s' i)) ∧
      exec? I t (.store p c.packed n) = some t' ∧ Agree I env F C A B s' t' := by
  obtain ⟨k, hot, -, hsize⟩ := hot
  have hsize : k.size = c.kind.size := hsize.elim (congrArg _) And.right
  refine hR.exists_store hsep hC (.inr hc) hW hbytes hp hot hsize
    (by rw [hkind, hot, hc.inner_eq]; exact hsize) hwidth fun i hi => ?_
  rw [Cell.shown, if_neg (by simp [hc.isMask_eq]), hlane i hi]

/-- **Stores of truth values** keep states in agreement: they become masks. -/
lemma store_mask_follows (hI : KeepsMasks I) (hl : LanesFit env code) (hW : 0 < env.width)
    (hsep : Separate env.width A B C) {c : Cell} (hC : C c) (hc : c.Fits env)
    (hbytes : (c.type env.width).bytes ≤ UInt64.size) (hot : o.type = .scalar c.kind) {q : Offset}
    (hq : c.packed = some q) (hmask : c.isMask = true) (h : Makes env (do
      let raw ← newReg ⟨c.inner, env.width⟩
      emit (.assign .convert raw [← vector o])
      emit (.store (← operand c.base) (some q) raw)) σ () σ') (hσ : Orderly env σ) :
    KeepsStep I env F C A B σ σ' (.store c.base c.offset o) := by
  have hop : IsPlainOperand o := ⟨c.kind, hc.kind_ne, hot⟩
  simp only [makes_bind, makes_emit] at h
  obtain ⟨raw, σ₁, hraw, n, σ₂, hn, _, _, rfl, p, σ₃, hp, rfl⟩ := h
  obtain ⟨h₁, he₁, hcode₁, r, rfl, hr, hown⟩ := newReg_spec hraw hσ
  obtain ⟨h₂, he₂, js, hcode₂, hjs, hnt, hrun⟩ :=
    vector_runs (I := I) (F := F) (C := C) (A := A) (B := B) hl hW hop hn h₁
  obtain ⟨h₃, he₃, hcode₃, hlookp⟩ := operand_spec hp (h₂.code _)
  have he₃' := he₃.of_code
  obtain ⟨hbool, hint⟩ := hc.mask hmask
  refine ⟨h₃.code _, (he₁.trans (he₂.trans he₃')).code _,
    js ++ [.assign .convert (.reg r) [n], .store p (some q) (.reg r)],
    by simp [hcode₃, hcode₂, hcode₁], fun j hj => ?_, by simp, fun hfin hord s t hR => ?_⟩
  · simp only [List.mem_append, List.mem_cons, List.not_mem_nil, or_false] at hj
    obtain hj | rfl | rfl := hj
    · exact hjs j hj
    · rfl
    · rfl
  have hfin₃ := hfin.of_code
  obtain ⟨t₁, hall, hR₁, -, hspread⟩ := hrun (he₃'.trans hfin₃) hord s t hR
  obtain ⟨hnk, hlane⟩ := hspread t₁ hR₁ fun _ _ => rfl
  obtain ⟨t₂, ht₂⟩ := t₁.exists_put? (d := .reg r) trivial
    (Wide.compute I .convert r.type [(n.type, t₁.lane n)])
  have hR₂ := hR₁.put_own (hown.mono (he₂.trans (he₃'.trans hfin₃))).ne ht₂
  have hwidth : (Operand.reg r).type.width = env.width := by
    show r.type.width = _
    rw [hr, width_eq hW]
  -- The mask of the truth value is set if and only if the truth value is.
  have hshown : ∀ i < env.width, c.shown I (t₂.lane (.reg r) i) = (s i).lane o 0 := by
    intro i hi'
    have hbit := Wide.State.cut_lane (s i) o 0
    rw [hot, hbool] at hbit
    have hraw : t₂.lane (.reg r) i =
        c.inner.cut (I.convert .bool (.scalar c.inner) ((s i).lane o 0)) := by
      rw [Wide.State.lane_of_put? ht₂ (hwidth ▸ hi'), Wide.compute_of_ne_splat (by decide)]
      show r.type.kind.cut (I.convert n.type.elem r.type.elem (t₁.lane n i)) = _
      rw [hlane i hi', hr, VType.elem, hnk, hot, hbool]
      rfl
    have hlaw := hI c.inner ((s i).lane o 0) hint
    erw [hbit] at hlaw
    rw [Cell.shown, if_pos hmask, hraw, Kind.cut_cut]
    exact hlaw
  have hkind : (Operand.reg r).type.kind = c.inner := congrArg VType.kind hr
  obtain ⟨s', t', hs', ht', hR'⟩ := hR₂.exists_store_member hsep hC hc hW hbytes hot
    (hfin₃.operands _ p hlookp) hkind hwidth hshown
  refine ⟨s', t', hs', ?_, hR'⟩
  rw [Wide.execAll?_append, hall, Option.bind_some]
  show (exec? I t₁ (.assign .convert (.reg r) [n])).bind _ = _
  rw [show exec? I t₁ (.assign .convert (.reg r) [n]) = some t₂ from ht₂, ← hq]
  exact (Wide.execAll?_singleton I t₂ _).trans ht'

/-- **A vector is stored**: code for the base and the lanes of an operand comes before a store. It
keeps states in agreement if the store does wherever the lanes have the values of the operand. -/
lemma KeepsStep.of_vector (hl : LanesFit env code) (hW : 0 < env.width) {base : Operand}
    {off off' : Option Offset} (hop : IsPlainOperand o) (h : Makes env (do
      let ptr ← operand base
      emit (.store ptr off' (← vector o))) σ () σ') (hσ : Orderly env σ)
    (hstore : ∀ (s : Nat → Wide.State) (t : Wide.State) (p n : Operand),
      Agree I env F C A B s t → F.operands.lookup base = some p → n.type.kind = o.type.kind →
      n.type.width = env.width → (∀ i < env.width, t.lane n i = (s i).lane o 0) →
      ∃ s' t', (∀ i < env.width, exec? I (s i) (.store base off o) = some (s' i)) ∧
        exec? I t (.store p off' n) = some t' ∧ Agree I env F C A B s' t') :
    KeepsStep I env F C A B σ σ' (.store base off o) := by
  simp only [makes_bind, makes_emit] at h
  obtain ⟨p, σ₁, hp, n, σ₂, hn, rfl⟩ := h
  obtain ⟨h₁, he₁, hcode₁, hlookp⟩ := operand_spec hp hσ
  obtain ⟨h₂, he₂, js, hcode₂, hjs, hnt, hrun⟩ :=
    vector_runs (I := I) (F := F) (C := C) (A := A) (B := B) hl hW hop hn h₁
  refine ⟨h₂.code _, (he₁.trans he₂).code _, js ++ [.store p off' n],
    by simp [hcode₂, hcode₁], fun j hj => ?_, by simp, fun hfin hord s t hR => ?_⟩
  · obtain hj | hj := List.mem_append.1 hj
    · exact hjs j hj
    · exact List.mem_singleton.1 hj ▸ rfl
  have hfin₂ := hfin.of_code
  obtain ⟨t₁, hall, hR₁, -, hspread⟩ := hrun hfin₂ hord s t hR
  obtain ⟨hnk, hlane⟩ := hspread t₁ hR₁ fun _ _ => rfl
  obtain ⟨s', t', hs', ht', hR'⟩ := hstore s t₁ p n hR₁
    (hfin₂.operands _ p (he₂.operands _ _ hlookp)) hnk
    (by rw [hnt, VType.vector, width_eq hW]) hlane
  refine ⟨s', t', hs', ?_, hR'⟩
  rw [Wide.execAll?_append, hall]
  exact (Wide.execAll?_singleton I t₁ _).trans ht'

/-- **A single value is stored**, of an operand that does not vary: code for the base and the
operand comes before a store. It keeps states in agreement if the store does wherever the value is
that of the operand. -/
lemma KeepsStep.of_operand (hl : LanesFit env code) {base : Operand} {off off' : Option Offset}
    (hop : IsPlainOperand o) (hvary : env.lanes.get o ≠ .varying) (h : Makes env (do
      let ptr ← operand base
      emit (.store ptr off' (← operand o))) σ () σ') (hσ : Orderly env σ)
    (hstore : ∀ (s : Nat → Wide.State) (t : Wide.State) (p n : Operand),
      Agree I env F C A B s t → F.operands.lookup base = some p → n.type = o.type →
      (∀ i < env.width, t.lane n 0 = (s i).lane o 0) →
      ∃ s' t', (∀ i < env.width, exec? I (s i) (.store base off o) = some (s' i)) ∧
        exec? I t (.store p off' n) = some t' ∧ Agree I env F C A B s' t') :
    KeepsStep I env F C A B σ σ' (.store base off o) := by
  simp only [makes_bind, makes_emit] at h
  obtain ⟨p, σ₁, hp, n, σ₂, hn, rfl⟩ := h
  obtain ⟨h₁, he₁, hcode₁, hlookp⟩ := operand_spec hp hσ
  obtain ⟨h₂, he₂, hcode₂, hlook⟩ := operand_spec hn h₁
  have hcp := h₂.counterpart o n hlook
  have hnt : n.type = o.type := by rw [hcp.type_eq hl hop, LaneKind.type, if_neg hvary]
  refine ⟨h₂.code _, (he₁.trans he₂).code _, [.store p off' n],
    by simp [hcode₂, hcode₁], by simp [Instr.isStraight], by simp, fun hfin hord s t hR => ?_⟩
  have hfin₂ := hfin.of_code
  obtain ⟨s', t', hs', ht', hR'⟩ := hstore s t p n hR
    (hfin₂.operands _ p (he₂.operands _ _ hlookp)) hnt fun i hi' => by
      have hval := hR.values o n (hfin₂.operands o n hlook) hop i hi'
      obtain ⟨k, -, hot⟩ := hop
      rwa [laneAt, hnt, hot, if_neg (by simp [VType.isVector, VType.scalar])] at hval
  exact ⟨s', t', hs', (Wide.execAll?_singleton I t _).trans ht', hR'⟩

/-- **Stores of lanes** keep states in agreement. -/
lemma store_lanes_follows (hl : LanesFit env code) (hW : 0 < env.width)
    (hsep : Separate env.width A B C) {c : Cell} (hC : C c) (hc : c.Fits env)
    (hbytes : (c.type env.width).bytes ≤ UInt64.size) (hot : o.type = .scalar c.kind) {q : Offset}
    (hq : c.packed = some q) (hmask : c.isMask = false) (h : Makes env (do
      let ptr ← operand c.base
      emit (.store ptr (some q) (← vector o))) σ () σ') (hσ : Orderly env σ) :
    KeepsStep I env F C A B σ σ' (.store c.base c.offset o) := by
  refine .of_vector hl hW ⟨c.kind, hc.kind_ne, hot⟩ h hσ fun s t p n hR hp hnk hwidth hlane => ?_
  rw [← hq]
  refine hR.exists_store_member hsep hC hc hW hbytes hot hp
    (by rw [hnk, hot, hc.no_mask hmask]; rfl) hwidth fun i hi' => ?_
  have hcut := Wide.State.cut_lane (s i) o 0
  rw [hot] at hcut
  rw [Cell.shown, if_neg (by simp [hmask]), hlane i hi']
  exact hcut

/-- **Stores of what all instances share** keep states in agreement. They go to a member that is no
vector only if there is a single instance. -/
lemma store_single_follows (hl : LanesFit env code) (hsep : Separate env.width A B C) {c : Cell}
    (hC : C c) (hc : c.Fits env) (hbytes : (c.type env.width).bytes ≤ UInt64.size)
    (hot : o.type = .scalar c.kind) {q : Offset} (hq : c.packed = some q) (hmask : c.isMask = false)
    (hwidth : env.width = 1) (hvary : env.lanes.get o ≠ .varying) (h : Makes env (do
      let ptr ← operand c.base
      emit (.store ptr (some q) (← operand o))) σ () σ') (hσ : Orderly env σ) :
    KeepsStep I env F C A B σ σ' (.store c.base c.offset o) := by
  refine .of_operand hl ⟨c.kind, hc.kind_ne, hot⟩ hvary h hσ fun s t p n hR hp hnt hlane => ?_
  rw [← hq]
  refine hR.exists_store_member hsep hC hc (by omega) hbytes hot hp
    (by rw [hnt, hot, hc.no_mask hmask]; rfl) (by rw [hnt, hot, hwidth]; rfl) fun i hi' => ?_
  obtain rfl : i = 0 := by omega
  have hcut := Wide.State.cut_lane (s 0) o 0
  rw [hot] at hcut
  rw [Cell.shown, if_neg (by simp [hmask]), hlane 0 hi']
  exact hcut

/-- **Stores** keep states in agreement. -/
lemma store_follows (hI : KeepsMasks I) (hl : LanesFit env code) (hW : 0 < env.width)
    (hsep : Separate env.width A B C) {c : Cell} (hC : C c) (hc : c.Fits env)
    (hbytes : (c.type env.width).bytes ≤ UInt64.size)
    (hot : o.type = .scalar c.kind) (h : Makes env (store c.base c.offset o) σ () σ')
    (hσ : Orderly env σ) :
    KeepsStep I env F C A B σ σ' (.store c.base c.offset o) := by
  obtain ⟨q, x, hoff, hq, hisMask, htype⟩ := hc.member
  simp only [store, makes_bind, makes_laneOf] at h
  obtain ⟨_, _, ⟨rfl, rfl⟩, h⟩ := h
  rw [if_neg (by simp [hc.base_packed]), if_neg (by simp [hc.isTrivial_eq])] at h
  obtain ⟨_, _, hoff', h⟩ := makes_bind.1 h
  obtain ⟨rfl, rfl⟩ := (packedOffset_iff hoff).1 hoff'
  simp only [hisMask, htype, Option.getD_some] at h
  split at h
  · rename_i hmask
    exact store_mask_follows hI hl hW hsep hC hc hbytes hot hq hmask h hσ
  · rename_i hmask
    have hmask := Bool.eq_false_iff.2 hmask
    split at h
    · exact store_lanes_follows hl hW hsep hC hc hbytes hot hq hmask h hσ
    · rename_i hvec
      have hwidth : env.width = 1 := by
        rw [isVector_eq htype] at hvec
        have := of_decide_eq_false (Bool.eq_false_iff.2 hvec)
        omega
      simp only [makes_bind, makes_laneOf] at h
      obtain ⟨_, _, ⟨rfl, rfl⟩, h⟩ := h
      split at h
      · simp at h
      · rename_i hvary
        exact store_single_follows hl hsep hC hc hbytes hot hq hmask hwidth hvary
          (by simpa only [makes_bind] using h) hσ

/-- **Stores to cells that keep their place** keep states in agreement. A cell of a packed instance
has lanes, and any other is shared by all instances. -/
lemma kept_store_follows (hl : LanesFit env code) (hW : 0 < env.width)
    (hsep : Separate env.width A B C) {c : Cell} (hC : C c) (hc : c.Kept env)
    (hbytes : (c.type env.width).bytes ≤ UInt64.size)
    (hot : c.Takes o.type) (h : Makes env (store c.base c.offset o) σ () σ')
    (hσ : Orderly env σ) :
    KeepsStep I env F C A B σ σ' (.store c.base c.offset o) := by
  obtain ⟨k, hot, hk, hsize⟩ := hot
  have hop : IsPlainOperand o := ⟨k, hk, hot⟩
  simp only [store, makes_bind, makes_laneOf] at h
  obtain ⟨_, _, ⟨rfl, rfl⟩, h⟩ := h
  by_cases hpacked : env.lanes.get c.base = .packed
  · have hshared : c.isShared = false := by
      rw [Bool.eq_false_iff]
      exact fun hs => hc.isShared_iff.1 hs hpacked
    have hnone := hc.offset_none hpacked
    rw [if_neg (by simp [hpacked]), if_pos (by simp [hnone, Offset.isTrivial])] at h
    refine .of_vector hl hW hop (by simpa only [makes_bind] using h) hσ
      fun s t p n hR hp hnk hwidth hlane => ?_
    rw [← hc.packed_eq.trans hnone]
    refine hR.exists_store_kept hsep hC hc hW hbytes ⟨k, hot, hk, hsize⟩ hp hnk
      (by rw [hwidth, Cell.type, hshared]; exact (width_eq hW).symm) fun i hi' => ?_
    rw [Cell.laneOf, hshared]
    exact hlane i hi'
  · have hshared : c.isShared = true := hc.isShared_iff.2 hpacked
    rw [if_pos hpacked] at h
    simp only [makes_bind, makes_laneOf] at h
    obtain ⟨_, _, ⟨rfl, rfl⟩, h⟩ := h
    split at h
    · simp at h
    · rename_i hvary
      refine .of_operand hl hop hvary (by simpa only [makes_bind] using h) hσ
        fun s t p n hR hp hnt hlane => ?_
      have hrun := hR.exists_store_kept hsep hC hc hW hbytes ⟨k, hot, hk, hsize⟩ hp (by rw [hnt])
        (by rw [hnt, hot, Cell.type, hshared]; rfl) fun i hi' => by
          rw [Cell.laneOf, if_pos hshared]
          exact hlane i hi'
      rwa [hc.packed_eq] at hrun

end Emitted

/-! ## Functions -/

/-- **What lockstep rests on**: lanes that are settled, and cells that do not overlap. -/
structure Sound (I : Operators) (env : WidenEnv) (code : List Instr) (C : Cell → Prop)
    (A : Nat → Operand → Word) (B : Operand → Word) : Prop where
  masks : KeepsMasks I
  lanes : LanesFit env code
  width_pos : 0 < env.width
  bytes_le : ∀ c, C c → (c.type env.width).bytes ≤ UInt64.size
  cells : ∀ c, C c → c.Known env ∧ IsBase c.base
  separate : Separate env.width A B C

/-- An orderly run turns labels into labels, one for one. -/
lemma Orderly.oneForOne {env : WidenEnv} {F : WidenState} (h : Orderly env F) :
    OneForOne (LabelsOf F) := by
  intro l l' m m' hl hm
  constructor
  · rintro rfl
    exact Option.some.inj (hl.symm.trans hm)
  · rintro rfl
    exact h.label_inj l m l' hl hm

section Functions

variable {I : Operators} {env : WidenEnv} {F : WidenState} {C : Cell → Prop}
  {A : Nat → Operand → Word} {B : Operand → Word} {code : List Instr} {σ σ' : WidenState}
  {ps rs : List Operand} {i : Instr} {is : List Instr}

/-- **The packed code of an instruction** keeps states in agreement. -/
theorem instr_mirrors (hs : Sound I env code C A B) (hi : i ∈ code) (hp : IsPlain C i)
    (h : Makes env (instr ps rs i) σ () σ') (hσ : Orderly env σ) :
    Orderly env σ' ∧ Extends σ σ' ∧ ∃ js, σ'.code = σ.code ++ js ∧
      (Extends σ' F → Orderly env F →
        Mirrors I env.width (Agree I env F C A B) (LabelsOf F) i js) := by
  have hbases : ∀ c, C c → IsBase c.base := fun c hc => (hs.cells c hc).2
  cases i with
  | label l =>
    simp only [instr, makes_bind, makes_emit] at h
    obtain ⟨l', σ₁, hl, rfl⟩ := h
    obtain ⟨h₁, he₁, hcode₁, hlook⟩ := label_spec hl hσ
    exact ⟨h₁.code _, he₁.code _, [.label l'], by rw [hcode₁],
      fun hfin _ => .label (hfin.labels l l' hlook)⟩
  | goto l =>
    simp only [instr, makes_bind, makes_emit] at h
    obtain ⟨l', σ₁, hl, rfl⟩ := h
    obtain ⟨h₁, he₁, hcode₁, hlook⟩ := label_spec hl hσ
    exact ⟨h₁.code _, he₁.code _, [.goto l'], by rw [hcode₁],
      fun hfin _ => .goto (hfin.labels l l' hlook)⟩
  | branch c yes no =>
    simp only [instr, makes_bind, makes_laneOf] at h
    obtain ⟨_, _, ⟨rfl, rfl⟩, h⟩ := h
    split at h
    · simp at h
    · rename_i hvary
      simp only [makes_bind, makes_emit] at h
      obtain ⟨c', σ₁, hc, yes', σ₂, hyes, no', σ₃, hno, rfl⟩ := h
      obtain ⟨h₁, he₁, hcode₁, hlook⟩ := operand_spec hc hσ
      obtain ⟨h₂, he₂, hcode₂, hlook₂⟩ := label_spec hyes h₁
      obtain ⟨h₃, he₃, hcode₃, hlook₃⟩ := label_spec hno h₂
      refine ⟨h₃.code _, (he₁.trans (he₂.trans he₃)).code _, [.branch c' yes' no'],
        by rw [hcode₃, hcode₂, hcode₁], fun hfin hord => ?_⟩
      have hfin₃ := hfin.of_code
      refine .branch (fun s t hR k hk => ?_) (hfin₃.labels _ _ (he₃.labels _ _ hlook₂))
        (hfin₃.labels _ _ hlook₃)
      have hcp := h₁.counterpart c c' hlook
      have hv : c'.type.isVector = false := by
        rw [Bool.eq_false_iff]
        exact fun hv => hvary ((hcp.isVector_iff hs.lanes hp).1 hv).1
      have hval := hR.values c c' (hfin₃.operands _ _ (he₃.operands _ _ (he₂.operands _ _ hlook)))
        hp k hk
      rw [laneAt, hv, if_neg Bool.false_ne_true] at hval
      exact hval.symm
  | assign kind d args =>
    obtain ⟨hd, hdp, hargs, hsplat, hadd, hmove⟩ | ⟨rfl, r, a, rfl, hr, rfl⟩ := hp
    · exact (assign_follows hs.lanes hs.width_pos hbases hi hd hdp hargs hsplat hadd hmove h
        hσ).mirrors rfl
    · exact (pointer_follows hs.lanes hbases hr h hσ).mirrors rfl
  | load d p o =>
    obtain ⟨hd, c, hc, rfl, rfl, hdt⟩ := hp
    obtain hfits | hkept := (hs.cells c hc).1
    · exact (load_follows hs.lanes hs.width_pos hbases hc hfits hi hd (hfits.of_takes hdt) h
        hσ).mirrors rfl
    · exact (kept_load_follows hs.lanes hbases hc hkept hi hd hdt h hσ).mirrors rfl
  | store p o a =>
    obtain ⟨c, hc, rfl, rfl, hat⟩ := hp
    obtain hfits | hkept := (hs.cells c hc).1
    · exact (store_follows hs.masks hs.lanes hs.width_pos hs.separate hc hfits (hs.bytes_le c hc)
        (hfits.of_takes hat) h hσ).mirrors rfl
    · exact (kept_store_follows hs.lanes hs.width_pos hs.separate hc hkept (hs.bytes_le c hc) hat h
        hσ).mirrors rfl
  | lea | alloc | memcpy | call | params | results => exact hp.elim

/-- **The packed code of instructions** runs in lockstep with them. -/
theorem code_mirrors (hs : Sound I env code C A B) : ∀ {is : List Instr} {σ : WidenState},
    (∀ i ∈ is, i ∈ code ∧ IsPlain C i) → Makes env (Packing.code ps rs is) σ () σ' →
    Orderly env σ → Orderly env σ' ∧ Extends σ σ' ∧ ∃ js, σ'.code = σ.code ++ js ∧
      (Extends σ' F → Orderly env F →
        MirrorsAll I env.width (Agree I env F C A B) (LabelsOf F) is js)
  | [], _, _, h, hσ => by
    obtain ⟨-, rfl⟩ := makes_pure.1 h
    exact ⟨hσ, .refl _, [], by simp, fun _ _ => .nil⟩
  | i :: is, _, his, h, hσ => by
    obtain ⟨⟨hi, hp⟩, his⟩ := List.forall_mem_cons.1 his
    simp only [Packing.code, makes_bind] at h
    obtain ⟨_, σ₁, hinstr, hcode⟩ := h
    obtain ⟨h₁, he₁, js, hcode₁, hmirrors⟩ := instr_mirrors (F := F) hs hi hp hinstr hσ
    obtain ⟨h₂, he₂, ks, hcode₂, hall⟩ := code_mirrors hs his hcode h₁
    exact ⟨h₂, he₁.trans he₂, js ++ ks, by rw [hcode₂, hcode₁, List.append_assoc],
      fun hfin hord => .cons (hmirrors (he₂.trans hfin) hord) (hall hfin hord)⟩

end Functions

/-- **The packed version of a function** runs in lockstep with it, if its code is plain. Parameters
and results become their counterparts. -/
theorem packFunction_mirrors {env : PackEnv} {d : DeclLanes} {f g : Function} {σ₁ σ₂ F : WidenState}
    (hps : Makes ⟨env, Lanes.ofFunction env d f⟩ (operands f.params) {} g.params σ₁)
    (hrs : Makes ⟨env, Lanes.ofFunction env d f⟩ (operands f.results) σ₁ g.results σ₂)
    (hcode : Makes ⟨env, Lanes.ofFunction env d f⟩ (Packing.code f.params f.results f.instrs) σ₂
      () F)
    (hg : g.body = Function.frame F.code) (hf : f.body = Function.frame f.instrs) {I : Operators}
    {C : Cell → Prop} {A : Nat → Operand → Word} {B : Operand → Word}
    (hs : Sound I ⟨env, Lanes.ofFunction env d f⟩ f.instrs C A B)
    (hp : ∀ i ∈ f.instrs, IsPlain C i) :
    Orderly ⟨env, Lanes.ofFunction env d f⟩ F ∧
      List.Forall₂ (fun o n => F.operands.lookup o = some n) f.params g.params ∧
      List.Forall₂ (fun o n => F.operands.lookup o = some n) f.results g.results ∧
      MirrorsAll I env.width (Agree I ⟨env, Lanes.ofFunction env d f⟩ F C A B)
        (LabelsOf F) f.body g.body := by
  obtain ⟨h₁, he₁, hc₁, hlook₁⟩ := operands_spec hps (orderly_empty _)
  obtain ⟨h₂, he₂, hc₂, hlook₂⟩ := operands_spec hrs h₁
  obtain ⟨h₃, he₃, js, hc₃, hmirrors⟩ :=
    code_mirrors (F := F) hs (fun i hi => ⟨hi, hp i hi⟩) hcode h₂
  have hall := hmirrors (.refl F) h₃
  have hlabels := (he₁.trans (he₂.trans he₃)).labels
  refine ⟨h₃, hlook₁.imp fun o n hn => he₃.operands _ _ (he₂.operands _ _ hn),
    hlook₂.imp fun o n hn => he₃.operands _ _ hn, ?_⟩
  have hbody : g.body = Function.frame js := by
    rw [hg, hc₃, hc₂, hc₁]
    rfl
  -- The labels and marks around the code mirror themselves.
  have around : ∀ {l : Label} {i : Instr}, F.labels.lookup l = some l →
      Mirrors I env.width (Agree I ⟨env, Lanes.ofFunction env d f⟩ F C A B) (LabelsOf F) i [i] →
      MirrorsAll I env.width (Agree I ⟨env, Lanes.ofFunction env d f⟩ F C A B) (LabelsOf F)
        ([.label l] ++ [i]) ([.label l] ++ [i]) := fun hl hi =>
    .append (.singleton (.label hl)) (.singleton hi)
  rw [hf, hbody]
  exact .append (.append (around (hlabels .entry .entry rfl) .params) hall)
    (around (hlabels .epilogue .epilogue rfl) .results)

end Lane.Packing
