import Lane.Proofs.Code.Machine
import Lane.Proofs.Code.Alignment

set_option relaxedAutoImplicit false
set_option autoImplicit false

/-!
# Allocation

The machine for straight-line code, with allocations and copies. An allocation obtains a block of as
many bytes as it is given; where the block starts is up to the allocator.

## Main definitions

* `Lane.Code.MemoryBlock`, `Lane.Code.Heap`: blocks of memory, and states with the blocks obtained
  so far.
* `Lane.Code.Instr.heapStep?`, `Lane.Code.runHeap?`: execution.
* `Lane.Code.Operators.AreModular`: indices are added, scaled and masked as words.
* `Lane.Code.Memory.HasHeader`: a container header in memory.

## Main results

* `Lane.Code.runHeap?_of_run?`: straight-line code runs as before.
* `Lane.Code.Memory.hasHeader_write`: a header that was written is there.
* `Lane.Code.toNat_rounded`: what masking gives for the words that cannot be rounded up.
-/

namespace Lane.Code

/-! ## Execution -/

/-- **Blocks of memory**: the first address and the number of bytes. -/
structure MemoryBlock where
  start : Word
  size : Word
  deriving DecidableEq, Repr

/-- **Bytes inside of a block**: `n` of them, from the address `a`. -/
def MemoryBlock.Contains (b : MemoryBlock) (a : Word) (n : Nat) : Prop :=
  (a - b.start).toNat + n ≤ b.size.toNat

/-- **A state with the blocks** that were obtained, the latest first. -/
structure Heap extends State where
  blocks : List MemoryBlock

/-- **Allocators** choose where a block of some bytes starts. -/
abbrev Allocator := Heap → Word → Word

/-- Copy `n` bytes from the address `s` to the address `d`. -/
def Memory.copy (m : Memory) (d s n : Word) : Memory :=
  fun x => if x - d < n then m (s + (x - d)) else m x

variable {I : Operators} {A : Allocator} {is js : List Instr} {h h' : Heap} {s t : State}

/-- **One instruction**, which may allocate or copy. -/
def Instr.heapStep? (I : Operators) (A : Allocator) (h : Heap) : Instr → Option Heap
  | .alloc d n =>
    let b : MemoryBlock := ⟨A h (h.value n), h.value n⟩
    (h.put? d b.start).map (⟨·, b :: h.blocks⟩)
  | .memcpy d s n => some { h with mem := h.mem.copy (h.value d) (h.value s) (h.value n) }
  | i => (i.step? I h.toState).map (⟨·, h.blocks⟩)

/-- **Code with allocations**: one instruction after the other. -/
def runHeap? (I : Operators) (A : Allocator) : List Instr → Heap → Option Heap
  | [], h => some h
  | i :: is, h => (i.heapStep? I A h).bind (runHeap? I A is)

/-- Two parts of code run one after the other. -/
lemma runHeap?_append :
    runHeap? I A (is ++ js) h = (runHeap? I A is h).bind (runHeap? I A js) := by
  induction is generalizing h with
  | nil => rfl
  | cons i is ih =>
    simp only [List.cons_append, runHeap?, Option.bind_assoc]
    exact congrArg _ (funext fun _ => ih)

/-- **Straight-line code runs as before**, and allocates nothing. -/
theorem runHeap?_of_run? (hrun : run? I is h.toState = some t) :
    runHeap? I A is h = some ⟨t, h.blocks⟩ := by
  induction is generalizing h with
  | nil =>
    obtain rfl := Option.some.inj hrun
    rfl
  | cons i is ih =>
    obtain ⟨u, hu, hrun⟩ := Option.bind_eq_some_iff.1 hrun
    have hstep : i.heapStep? I A h = some ⟨u, h.blocks⟩ := by
      cases i with
      | alloc | memcpy => simp [Instr.step?, Instr.result?] at hu
      | _ => simp only [Instr.heapStep?, hu, Option.map_some]
    simp only [runHeap?, hstep, Option.bind_some]
    exact ih hrun

/-! ## Headers of containers -/

/-- **A container header** at an address: the start of the data, and the number of elements. -/
structure Memory.HasHeader (m : Memory) (a data n : Word) : Prop where
  data_eq : m.scalar .ptr a = data
  len_eq : m.scalar .u64 (a + 8) = n

/-- A value as wide as a word is not cut. -/
lemma Kind.cut_of_bits {k : Kind} (hk : k.bits = 64) (w : Word) : k.cut w = w := by
  have hlt : w.toNat < 1 <<< 64 := w.toNat_lt
  unfold cut
  rw [hk, Nat.mod_eq_of_lt hlt, UInt64.ofNat_toNat]

/-- A word that was written is read. -/
lemma Memory.scalar_write {m : Memory} {t : VType} (hw : t.width = 1) (hk : t.kind.bits = 64)
    (ht : t.bytes ≤ UInt64.size) (a : Word) (v : Value) :
    (m.write t a v).scalar t.kind a = v 0 := by
  have h := cut_read_write (m := m) (t := t) (a := a) (v := v) (i := 0) (by omega) ht
  rw [Kind.cut_of_bits hk, Kind.cut_of_bits hk] at h
  simpa [read] using h

/-- **A header that was written is there**: its two words do not overlap. -/
lemma Memory.hasHeader_write (m : Memory) (a data n : Word) :
    ((m.write .ptr a fun _ => data).write .index (a + 8) fun _ => n).HasHeader a data n where
  data_eq := by
    have hapart : Apart a Kind.ptr.size (a + 8) VType.index.bytes := by
      intro i hi j hj he
      have hi : i < 8 := hi
      have hj : j < 8 := hj
      rw [UInt64.add_assoc, UInt64.add_right_inj] at he
      have := congrArg UInt64.toNat he
      rw [UInt64.toNat_add, UInt64.toNat_ofNat_of_lt' (by simp only [UInt64.size]; omega),
        UInt64.toNat_ofNat_of_lt' (by simp only [UInt64.size]; omega)] at this
      have h8 : UInt64.toNat 8 = 8 := rfl
      omega
    have hscalar := congrArg UInt64.ofNat (number_write_of_apart
      (m := m.write .ptr a fun _ => data) (v := fun _ => n) hapart)
    exact hscalar.trans (scalar_write (t := .ptr) rfl rfl (by decide) a _)
  len_eq := scalar_write (t := .index) rfl rfl (by decide) (a + 8) _

/-! ## Masked words -/

/-- **Operators that compute indices as words**: sums and products wrap around, masks are taken bit
by bit. -/
structure Operators.AreModular (I : Operators) : Prop where
  mul_index : I.ScalesIndices
  add_index : ∀ a b, I.binary .add .index a b = a + b
  and_index : ∀ a b, I.binary .and .index a b = a &&& b

/-- **Rounding up by masking** gives zero for the words above the last multiple. -/
theorem toNat_rounded {k : Nat} (hk : k < 64) (n : Word) :
    ((n + (.ofNat (2 ^ k) - 1)) &&& ~~~(.ofNat (2 ^ k) - 1)).toNat =
      if roundUp n.toNat (2 ^ k) < 2 ^ 64 then roundUp n.toNat (2 ^ k) else 0 := by
  have hpos : 0 < 2 ^ k := Nat.two_pow_pos k
  have hlt : 2 ^ k < 2 ^ 64 := Nat.pow_lt_pow_right (by decide) hk
  have hw : (UInt64.ofNat (2 ^ k)).toNat = 2 ^ k := UInt64.toNat_ofNat_of_lt' hlt
  have hmask : (UInt64.ofNat (2 ^ k) - 1).toNat = 2 ^ k - 1 := by
    rw [UInt64.toNat_sub_of_le, hw]
    · rfl
    · rw [UInt64.le_iff_toNat_le, hw]
      exact hpos
  have hand : ∀ x : Word, (x &&& ~~~(.ofNat (2 ^ k) - 1)).toNat = x.toNat / 2 ^ k * 2 ^ k :=
    fun x => toNat_and_not_mask x.toBitVec (b := (UInt64.ofNat (2 ^ k) - 1).toBitVec) hmask
  rw [hand, UInt64.toNat_add, hmask, roundUp_eq]
  have hn := n.toNat_lt
  obtain ⟨c, hc⟩ : 2 ^ k ∣ 2 ^ 64 := Nat.pow_dvd_pow 2 hk.le
  split
  · rename_i hround
    -- a multiple below 2 ^ 64 leaves room for what is added before the low bits are cut off
    have hfit : n.toNat + 2 ^ k - 1 < 2 ^ 64 := by
      by_contra hge
      have : 2 ^ 64 / 2 ^ k ≤ (n.toNat + 2 ^ k - 1) / 2 ^ k := Nat.div_le_div_right (by omega)
      have := Nat.mul_le_mul_right (2 ^ k) this
      rw [Nat.div_mul_cancel ⟨c, hc⟩] at this
      omega
    rw [Nat.mod_eq_of_lt (by omega), Nat.add_sub_assoc hpos]
  · rename_i hround
    have hover : 2 ^ 64 ≤ n.toNat + (2 ^ k - 1) := by
      by_contra hlt'
      have := Nat.div_mul_le_self (n.toNat + 2 ^ k - 1) (2 ^ k)
      omega
    have hmod : (n.toNat + (2 ^ k - 1)) % 2 ^ 64 = n.toNat + (2 ^ k - 1) - 2 ^ 64 := by
      rw [Nat.mod_eq_sub_mod hover, Nat.mod_eq_of_lt (by omega)]
    rw [hmod, Nat.div_eq_of_lt (by omega), Nat.zero_mul]

end Lane.Code
