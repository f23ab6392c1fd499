import Lane.Proofs.Code.Places
import Mathlib.Algebra.Order.Floor.Div

set_option relaxedAutoImplicit false
set_option autoImplicit false

/-!
# Sound structs

The place of a member is computed with words and a mask of bits. Counted in natural numbers, without
any bound, it is the least multiple of the alignment behind the member before it; and as long as the
whole struct takes less than `2 ^ 63` bytes, the words and the numbers are the same. So the members
of a struct are aligned, do not overlap, and lie inside of it, however deep structs are nested.

## Main definitions

* `Lane.Code.roundUp`: the next multiple of a number.
* `Lane.Code.Struct.extent`: the number of bytes of a struct, counted without a bound.
* `Lane.Code.Struct.IsSound`: structs with aligned members that do not overlap.
* `Lane.Code.Struct.IsFinished`: structs that are made of values, container headers and such
  structs.

## Main results

* `Lane.Code.toInt_alignUp`: masking bits rounds up to the next multiple of a power of two.
* `Lane.Code.Struct.IsStacked.isSound`: members that are placed one after the other make a sound
  struct.
* `Lane.Code.Struct.IsFinished.isSound`: finished structs are sound.
-/

namespace Lane.Code

/-! ## Multiples -/

/-- The least multiple of `a` that is not below `n`. -/
def roundUp (n a : Nat) : Nat := a * (n ⌈/⌉ a)

section RoundUp

variable {n m a k : Nat}

/-- **Rounding up** gives the least multiple that is not below. -/
theorem isLeast_roundUp (ha : 0 < a) : IsLeast {k | a ∣ k ∧ n ≤ k} (roundUp n a) := by
  refine ⟨⟨Nat.dvd_mul_right .., (ceilDiv_le_iff_le_mul ha).1 le_rfl⟩, ?_⟩
  rintro _ ⟨⟨c, rfl⟩, hc⟩
  exact Nat.mul_le_mul_left a ((ceilDiv_le_iff_le_mul ha).2 hc)

/-- Rounding up makes a number no smaller. -/
lemma le_roundUp (ha : 0 < a) : n ≤ roundUp n a := (isLeast_roundUp ha).1.2

/-- A number that was rounded up is a multiple. -/
lemma dvd_roundUp : a ∣ roundUp n a := Nat.dvd_mul_right ..

/-- A multiple above `n` is at least a whole step above what is rounded up to less than it. -/
lemma roundUp_add_le (h : roundUp n a < k) (hk : a ∣ k) : roundUp n a + a ≤ k := by
  obtain ⟨c, rfl⟩ := hk
  have hlt : n ⌈/⌉ a < c := Nat.lt_of_mul_lt_mul_left h
  calc roundUp n a + a = a * (n ⌈/⌉ a + 1) := (Nat.mul_succ ..).symm
    _ ≤ a * c := Nat.mul_le_mul_left a hlt

/-- Rounding up is adding and cutting off. -/
lemma roundUp_eq : roundUp n a = (n + a - 1) / a * a := by
  rw [roundUp, Nat.ceilDiv_eq_add_pred_div, Nat.mul_comm]

end RoundUp

/-! ## Words -/

/-- Clearing the low bits of a word cuts off what is left of a division. -/
lemma toNat_and_not_mask (x : BitVec 64) {b : BitVec 64} {k : Nat} (hb : b.toNat = 2 ^ k - 1) :
    (x &&& ~~~b).toNat = x.toNat / 2 ^ k * 2 ^ k := by
  have hsum := congrArg BitVec.toNat (and_add_and_not x b)
  have hlow : (x &&& b).toNat = x.toNat % 2 ^ k := by
    rw [BitVec.toNat_and, hb, Nat.and_two_pow_sub_one_eq_mod]
  have hle : (x &&& ~~~b).toNat ≤ x.toNat := by
    rw [BitVec.toNat_and]
    exact Nat.and_le_left
  have hdiv := Nat.div_add_mod' x.toNat (2 ^ k)
  have hlt := x.isLt
  rw [BitVec.toNat_add, hlow] at hsum
  omega

/-- **Masking bits rounds up** to the next multiple of a power of two, as long as that is no
negative word. -/
theorem toInt_alignUp {n a : Int64} {x k : Nat} (hn : n.toInt = x) (ha : a.toInt = (2 ^ k : Nat))
    (h : roundUp x (2 ^ k) < 2 ^ 63) : (alignUp n a).toInt = roundUp x (2 ^ k) := by
  have hpos : 0 < 2 ^ k := Nat.two_pow_pos k
  unfold alignUp
  split
  · -- What is below two aligns nothing, and one is the only power of two there.
    rename_i hle
    have hone : a.toInt ≤ 1 := Int64.le_iff_toInt_le.1 hle
    have hk : 2 ^ k = 1 := by omega
    rw [hn, hk, roundUp_eq]
    simp
  · rename_i hle
    have hgt : 1 < 2 ^ k := by
      have hone : (1 : Int64).toInt = 1 := rfl
      rw [Int64.le_iff_toInt_le, hone, ha] at hle
      omega
    have hk63 : 2 ^ k < 2 ^ 63 := by
      have := a.toInt_lt
      rw [ha] at this
      exact_mod_cast this
    have hdvd : (2 : Nat) ^ k ∣ 2 ^ 63 :=
      Nat.pow_dvd_pow 2 (Nat.le_of_lt ((Nat.pow_lt_pow_iff_right (by omega)).1 hk63))
    -- A multiple of `2 ^ k` below `2 ^ 63` leaves room for one more, so the sum is no negative
    -- word.
    have hsum : x + 2 ^ k ≤ 2 ^ 63 :=
      (Nat.add_le_add_right (le_roundUp hpos) _).trans (roundUp_add_le h hdvd)
    -- On words that are not negative, numbers with and without a sign are the same.
    have hn' : n.toBitVec.toNat = x := by
      have := toInt_eq_of_nonneg (x := n.toBitVec) (by
        show 0 ≤ n.toInt
        omega)
      have hn : n.toBitVec.toInt = x := hn
      omega
    have ha' : a.toBitVec.toNat = 2 ^ k := by
      have := toInt_eq_of_nonneg (x := a.toBitVec) (by
        show 0 ≤ a.toInt
        omega)
      have ha : a.toBitVec.toInt = (2 ^ k : Nat) := ha
      omega
    have hmask : (a - 1).toBitVec.toNat = 2 ^ k - 1 := by
      rw [Int64.toBitVec_sub, BitVec.toNat_sub, ha']
      simp
      omega
    have hplus : (n + a - 1).toBitVec.toNat = x + 2 ^ k - 1 := by
      rw [Int64.toBitVec_sub, Int64.toBitVec_add, BitVec.toNat_sub, BitVec.toNat_add, hn', ha']
      simp
      omega
    have hres : ((n + a - 1) &&& ~~~(a - 1)).toBitVec.toNat = roundUp x (2 ^ k) := by
      rw [Int64.toBitVec_and, Int64.toBitVec_not, toNat_and_not_mask _ hmask, hplus, roundUp_eq]
    show ((n + a - 1) &&& ~~~(a - 1)).toBitVec.toInt = _
    rw [BitVec.toInt_eq_toNat_of_lt (by omega), hres]

/-! ## Values -/

namespace VType

/-- The number of bytes of a type, counted without a bound. -/
def extent (t : VType) : Nat := if t.isVector then t.kind.size * t.lanes else t.kind.size

/-- **Round types**: scalars, and vectors in which the number of lanes is a power of two. -/
def IsRound (t : VType) : Prop := t.isVector → ∃ k, t.lanes = 2 ^ k

variable {t : VType}

/-- Scalars take one, two, four or eight bytes. -/
lemma Kind.size_eq_two_pow (k : Kind) : ∃ j < 4, k.size = 2 ^ j := by
  cases k
  case i1 | i8 | u8 => exact ⟨0, by decide, rfl⟩
  case i16 | u16 => exact ⟨1, by decide, rfl⟩
  case i32 | u32 | f32 => exact ⟨2, by decide, rfl⟩
  case i64 | u64 | f64 | ptr => exact ⟨3, by decide, rfl⟩

/-- Round types take a power of two of bytes. -/
lemma IsRound.extent_eq (h : t.IsRound) : ∃ k, t.extent = 2 ^ k := by
  obtain ⟨j, -, hj⟩ := Kind.size_eq_two_pow t.kind
  unfold extent
  split
  · obtain ⟨k, hk⟩ := h ‹_›
    exact ⟨j + k, by rw [hj, hk, Nat.pow_add]⟩
  · exact ⟨j, hj⟩

/-- The word for the size of a type is its number of bytes, unless that is too large. -/
lemma toInt_size (h : t.extent < 2 ^ 63) : t.size.toInt = t.extent := by
  unfold extent at h ⊢
  unfold size
  split
  · rename_i hv
    rw [if_pos hv] at h
    rw [← Int64.ofNat_mul, Int64.toInt_ofNat_of_lt h]
  · rename_i hv
    rw [if_neg hv] at h
    rw [Int64.toInt_ofNat_of_lt h]

end VType

/-! ## Shapes -/

namespace MemberShape

/-- The alignment of a shape as a number. -/
def alignment (x : MemberShape) : Nat := x.align.toInt.toNat

/-- The number of bytes of a shape, those of a value counted without a bound. -/
def extent : MemberShape → Nat
  | .value t => t.extent
  | x => x.bytes

/-- The alignment of a shape, that of a value being its number of bytes. -/
def step : MemberShape → Nat
  | .value t => t.extent
  | x => x.alignment

/-- **Sound shapes**: the alignment is a power of two, and unless there are too many bytes, the
words for both are the numbers. -/
structure IsSound (x : MemberShape) : Prop where
  step_eq : ∃ k, x.step = 2 ^ k
  size_eq : x.extent < 2 ^ 63 → x.size.toInt = x.extent
  align_eq : x.extent < 2 ^ 63 → x.align.toInt = x.step

variable {x : MemberShape}

/-- A value with a power of two of lanes is a sound member. -/
lemma IsSound.of_value {t : VType} (h : t.IsRound) : (MemberShape.value t).IsSound :=
  ⟨h.extent_eq, VType.toInt_size, VType.toInt_size⟩

/-- The header of a container is a sound member. -/
lemma isSound_header : MemberShape.header.IsSound := ⟨⟨3, rfl⟩, fun _ => rfl, fun _ => rfl⟩

/-- Sound members are aligned to something. -/
lemma IsSound.step_pos (h : x.IsSound) : 0 < x.step := by
  obtain ⟨k, hk⟩ := h.step_eq
  exact hk ▸ Nat.two_pow_pos k

/-- The numbers that are counted without a bound are those of the words. -/
lemma IsSound.eq (h : x.IsSound) (hx : x.extent < 2 ^ 63) :
    x.bytes = x.extent ∧ x.alignment = x.step := by
  have hsize := h.size_eq hx
  have halign := h.align_eq hx
  unfold bytes alignment
  omega

end MemberShape

/-! ## Structs -/

/-- Where shapes end that are placed one after the other from a number of bytes on. -/
def stackExtent : Nat → List MemberShape → Nat
  | n, [] => n
  | n, x :: xs => stackExtent (roundUp n x.step + x.extent) xs

/-- The greatest alignment of shapes. -/
def commonStep (xs : List MemberShape) : Nat := xs.foldr (fun x a => max x.step a) 1

/-- Whether a member comes after others in natural numbers: **it is at the least multiple of its
alignment** that is not below the end of the member before it. -/
def Adjoin : Nat → List StructMember → Nat → Prop
  | n, [], n' => n' = n
  | n, m :: ms, n' =>
    IsLeast {k | m.shape.alignment ∣ k ∧ n ≤ k} m.start ∧ Adjoin m.stop ms n'

namespace Struct

/-- The shapes of the members. -/
def shapes (s : Struct) : List MemberShape := s.members.map StructMember.shape

/-- **The number of bytes of a struct**, counted without a bound. -/
def extent (s : Struct) : Nat := roundUp (stackExtent 0 s.shapes) (commonStep s.shapes)

/-- The alignment of a struct as a number. -/
def alignment (s : Struct) : Nat := s.align.toInt.toNat

/-- **Stacked structs**: members were placed one after the other, and the size was padded. -/
structure IsStacked (s : Struct) : Prop where
  stacked : ∃ n, Stacked 0 s.members n ∧ s.size = alignUp n s.align
  align_eq : s.align = s.shapes.foldl (fun a x => max a x.align) 1

/-- **Sound structs**: every member is at the least multiple of its alignment behind the member
before it. So members do not overlap and end inside of the struct, whose size is a multiple of its
alignment, a power of two that is a multiple of the alignment of every member. No word is
negative. -/
structure IsSound (s : Struct) : Prop where
  bounded : s.IsBounded
  adjoin : ∃ n ≤ s.bytes, Adjoin 0 s.members n
  apart : s.members.Pairwise fun m m' => m.stop ≤ m'.start
  stop_le : ∀ m ∈ s.members, m.stop ≤ s.bytes
  align_eq : ∃ k, s.align.toInt = (2 ^ k : Nat)
  dvd_align : ∀ m ∈ s.members, m.shape.alignment ∣ s.alignment
  dvd_size : s.alignment ∣ s.bytes

end Struct

section Stacks

variable {n n' : Nat} {xs : List MemberShape} {ms : List StructMember} {s : Struct}

/-- Placing shapes goes forward. -/
lemma le_stackExtent : ∀ {xs : List MemberShape} {n : Nat}, (∀ x ∈ xs, x.IsSound) →
    n ≤ stackExtent n xs ∧ ∀ x ∈ xs, x.extent ≤ stackExtent n xs
  | [], n, _ => ⟨le_rfl, by simp⟩
  | x :: xs, n, h => by
    obtain ⟨hx, hxs⟩ := List.forall_mem_cons.1 h
    obtain ⟨hle, hall⟩ := le_stackExtent (n := roundUp n x.step + x.extent) hxs
    have hup : n ≤ roundUp n x.step := le_roundUp hx.step_pos
    rw [stackExtent]
    exact ⟨by omega, List.forall_mem_cons.2 ⟨by omega, hall⟩⟩

/-- The greatest of powers of two is a power of two, and a multiple of the others. -/
lemma commonStep_eq : ∀ {xs : List MemberShape}, (∀ x ∈ xs, x.IsSound) →
    (∃ k, commonStep xs = 2 ^ k) ∧ ∀ x ∈ xs, x.step ∣ commonStep xs
  | [], _ => ⟨⟨0, rfl⟩, by simp⟩
  | x :: xs, h => by
    obtain ⟨hx, hxs⟩ := List.forall_mem_cons.1 h
    obtain ⟨j, hj⟩ := hx.step_eq
    obtain ⟨⟨k, hk⟩, hall⟩ := commonStep_eq hxs
    have heq : commonStep (x :: xs) = max (2 ^ j) (2 ^ k) := by
      rw [← hj, ← hk]
      rfl
    obtain hle | hle := Nat.le_total j k
    · have hpow : (2 : Nat) ^ j ≤ 2 ^ k := Nat.pow_le_pow_right (by omega) hle
      rw [heq, max_eq_right hpow]
      exact ⟨⟨k, rfl⟩, List.forall_mem_cons.2 ⟨hj ▸ Nat.pow_dvd_pow 2 hle, fun y hy =>
        hk ▸ hall y hy⟩⟩
    · have hpow : (2 : Nat) ^ k ≤ 2 ^ j := Nat.pow_le_pow_right (by omega) hle
      rw [heq, max_eq_left hpow]
      exact ⟨⟨j, rfl⟩, List.forall_mem_cons.2 ⟨hj ▸ dvd_rfl, fun y hy =>
        (hall y hy).trans (hk ▸ Nat.pow_dvd_pow 2 hle)⟩⟩

/-- The word for the greatest alignment. -/
lemma toInt_foldl_align : ∀ {xs : List MemberShape} {a : Int64} {b : Nat}, a.toInt = b → 1 ≤ b →
    (∀ x ∈ xs, x.align.toInt = x.step) →
    (xs.foldl (fun a x => max a x.align) a).toInt = (max b (commonStep xs) : Nat)
  | [], a, b, ha, hb, _ => by
    have hmax : max b (commonStep []) = b := max_eq_left hb
    rw [hmax]
    exact ha
  | x :: xs, a, b, ha, hb, h => by
    obtain ⟨hx, hxs⟩ := List.forall_mem_cons.1 h
    have hmax : (max a x.align).toInt = (max b x.step : Nat) := by
      show (if a ≤ x.align then x.align else a).toInt = _
      split <;> rename_i hle <;> rw [Int64.le_iff_toInt_le] at hle <;> omega
    have hrest := toInt_foldl_align hmax (by omega) hxs
    rw [List.foldl_cons, hrest, commonStep, commonStep, List.foldr_cons, max_assoc]

/-- **Members one after the other** in words are so in natural numbers, unless there are too many
bytes.

**Proof sketch.** By induction on the members. Each is at the next multiple of its alignment, which
is below the end of all, so that masking bits rounds up. -/
lemma Stacked.adjoin : ∀ {ms : List StructMember} {a b : Int64} {n : Nat}, Stacked a ms b →
    a.toInt = n → (∀ m ∈ ms, m.shape.IsSound) →
    stackExtent n (ms.map StructMember.shape) < 2 ^ 63 →
    b.toInt = stackExtent n (ms.map StructMember.shape) ∧ (∀ m ∈ ms, m.IsBounded) ∧
      Adjoin n ms (stackExtent n (ms.map StructMember.shape))
  | [], a, b, n, h, ha, _, _ => by
    obtain rfl : b = a := h
    exact ⟨ha, by simp, rfl⟩
  | m :: ms, a, b, n, ⟨hoff, hrest⟩, ha, hx, hlt => by
    obtain ⟨hm, hms⟩ := List.forall_mem_cons.1 hx
    rw [List.map_cons, stackExtent] at hlt ⊢
    have hle := (le_stackExtent (n := roundUp n m.shape.step + m.shape.extent)
      (List.forall_mem_map.2 hms)).1
    have hlt' : roundUp n m.shape.step + m.shape.extent < 2 ^ 63 := hle.trans_lt hlt
    obtain ⟨hbytes, hstep⟩ := hm.eq (by omega)
    obtain ⟨k, hk⟩ := hm.step_eq
    have hstart : m.offset.toInt = roundUp n m.shape.step := by
      rw [hoff, hk]
      refine toInt_alignUp ha ?_ (by rw [← hk]; omega)
      rw [hm.align_eq (by omega), hk]
    have hsize : m.shape.size.toInt = m.shape.extent := hm.size_eq (by omega)
    have hsum : (m.offset + m.shape.size).toInt =
        (roundUp n m.shape.step + m.shape.extent : Nat) := by
      rw [Int64.toInt_add, hstart, hsize, Int.bmod_eq_of_le] <;> omega
    obtain ⟨hb, hbounded, hadjoin⟩ := hrest.adjoin hsum hms hlt
    have hzero : (0 : Int64).toInt = 0 := rfl
    have hmstart : m.start = roundUp n m.shape.step := by
      unfold StructMember.start
      omega
    have hmstop : m.stop = roundUp n m.shape.step + m.shape.extent := by
      rw [StructMember.stop, hmstart, hbytes]
    refine ⟨hb, List.forall_mem_cons.2 ⟨⟨?_, ?_, ?_⟩, hbounded⟩, ?_, hmstop ▸ hadjoin⟩
    · rw [Int64.le_iff_toInt_le]
      omega
    · rw [Int64.le_iff_toInt_le]
      omega
    · rw [Int64.le_iff_toInt_le]
      omega
    · rw [hstep, hmstart]
      exact isLeast_roundUp hm.step_pos

/-- Members that follow each other do not overlap, and lie between the numbers before and after
them. -/
lemma Adjoin.spec : ∀ {ms : List StructMember} {n n' : Nat}, Adjoin n ms n' →
    n ≤ n' ∧ (∀ m ∈ ms, n ≤ m.start ∧ m.stop ≤ n') ∧ ms.Pairwise fun m m' => m.stop ≤ m'.start
  | [], n, n', h => by
    obtain rfl : n' = n := h
    exact ⟨le_rfl, by simp, .nil⟩
  | m :: ms, n, n', ⟨hm, hms⟩ => by
    obtain ⟨hle, hall, hpair⟩ := hms.spec
    have hstart : n ≤ m.start := hm.1.2
    have hstop : m.start ≤ m.stop := Nat.le_add_right ..
    refine ⟨by omega, List.forall_mem_cons.2 ⟨⟨hstart, hle⟩, fun m' hm' => ?_⟩,
      List.pairwise_cons.2 ⟨fun m' hm' => (hall m' hm').1, hpair⟩⟩
    have := hall m' hm'
    omega

/-- **Stacked structs are sound**, if their shapes are and there are not too many bytes. -/
theorem Struct.IsStacked.isSound (h : s.IsStacked) (hx : ∀ m ∈ s.members, m.shape.IsSound)
    (hlt : s.extent < 2 ^ 63) : s.IsSound := by
  obtain ⟨⟨n, hstacked, hsize⟩, halign⟩ := h
  have hxs : ∀ x ∈ s.shapes, x.IsSound := List.forall_mem_map.2 hx
  obtain ⟨⟨k, hk⟩, hdvd⟩ := commonStep_eq hxs
  have hkpos : 0 < commonStep s.shapes := hk ▸ Nat.two_pow_pos k
  have hend : stackExtent 0 s.shapes ≤ s.extent := le_roundUp hkpos
  obtain ⟨hn, hbounded, hadjoin⟩ := hstacked.adjoin rfl hx (hend.trans_lt hlt)
  have small : ∀ x ∈ s.shapes, x.extent < 2 ^ 63 := fun x hx =>
    ((le_stackExtent hxs).2 x hx).trans_lt (hend.trans_lt hlt)
  have halign' : s.align.toInt = (2 ^ k : Nat) := by
    rw [halign, toInt_foldl_align (b := 1) rfl le_rfl fun x hx =>
      (hxs x hx).align_eq (small x hx), hk, max_eq_right (Nat.one_le_two_pow)]
  have hsize' : s.size.toInt = s.extent := by
    rw [hsize, Struct.extent, hk]
    exact toInt_alignUp hn halign' (by rwa [← hk])
  have hbytes : s.bytes = s.extent := by
    unfold Struct.bytes
    omega
  have halignment : s.alignment = commonStep s.shapes := by
    unfold Struct.alignment
    omega
  obtain ⟨-, hall, hpair⟩ := hadjoin.spec
  refine ⟨⟨hbounded, ?_⟩, ⟨_, hbytes ▸ hend, hadjoin⟩, hpair, fun m hm => ?_, ⟨k, halign'⟩,
    fun m hm => ?_, ?_⟩
  · have hzero : (0 : Int64).toInt = 0 := rfl
    rw [Int64.le_iff_toInt_le]
    omega
  · exact hbytes ▸ (hall m hm).2.trans hend
  · have hmem : m.shape ∈ s.shapes := List.mem_map_of_mem hm
    rw [halignment, ((hxs _ hmem).eq (small _ hmem)).2]
    exact hdvd _ hmem
  · rw [halignment, hbytes]
    exact dvd_roundUp

/-- A sound struct is a sound shape of a member. -/
lemma Struct.IsSound.asMember (h : s.IsSound) : s.asMember.IsSound := by
  obtain ⟨k, hk⟩ := h.align_eq
  have halign : s.asMember.alignment = 2 ^ k := by
    show s.align.toInt.toNat = _
    rw [hk, Int.toNat_natCast]
  have hsize : s.asMember.size.toInt = s.asMember.bytes := by
    have hnonneg : 0 ≤ s.size.toInt := Int64.le_iff_toInt_le.1 h.bounded.2
    exact (Int.toNat_of_nonneg hnonneg).symm
  refine ⟨⟨k, halign⟩, fun _ => hsize, fun _ => ?_⟩
  show s.align.toInt = (s.asMember.alignment : Nat)
  rw [hk, halign]

end Stacks

/-! ## Structs made of parts -/

/-- **What is appended to a struct**. -/
inductive Part where
  | value (t : VType)
  | nested (s : Struct)
  | header
  deriving Repr, Inhabited

/-- The shape of a part. -/
def Part.shape : Part → MemberShape
  | .value t => .value t
  | .nested s => s.asMember
  | .header => .header

namespace Struct

/-- Append named parts one after the other. -/
def appendAll (s : Struct) (parts : List (String × Part)) : Struct :=
  parts.foldl (fun s x => s.append x.1 x.2.shape) s

/-- **Finished structs**: parts were appended to an empty struct, which was padded in the end.
Values are scalars and vectors with a power of two of lanes, the structs among the parts are
finished, and there are not too many bytes. -/
inductive IsFinished : Struct → Prop
  | mk {name : String} {parts : List (String × Part)}
      (hvalue : ∀ x ∈ parts, ∀ t, x.2 = .value t → t.IsRound)
      (hnested : ∀ x ∈ parts, ∀ s, x.2 = .nested s → s.IsFinished)
      (hlt : ((empty name).appendAll parts).finish.extent < 2 ^ 63) :
      IsFinished ((empty name).appendAll parts).finish

variable {s : Struct} {parts : List (String × Part)}

/-- What appending does: one member for each part, in order. -/
lemma appendAll_spec : ∀ (parts : List (String × Part)) (s : Struct), Stacked 0 s.members s.size →
    s.align = s.shapes.foldl (fun a x => max a x.align) 1 →
    Stacked 0 (s.appendAll parts).members (s.appendAll parts).size ∧
      (s.appendAll parts).align = (s.appendAll parts).shapes.foldl (fun a x => max a x.align) 1 ∧
      (s.appendAll parts).members.map (fun m => (m.name, m.shape)) =
        s.members.map (fun m => (m.name, m.shape)) ++ parts.map fun x => (x.1, x.2.shape)
  | [], s, h, ha => ⟨h, ha, by simp [appendAll]⟩
  | x :: parts, s, h, ha => by
    have happend := h.append
      (m := ⟨some s.name, x.1, alignUp s.size x.2.shape.align, x.2.shape⟩) rfl
    obtain ⟨hs, ha', hm⟩ := appendAll_spec parts (s.append x.1 x.2.shape) happend (by
      simp [append, shapes, ha])
    exact ⟨hs, ha', by simpa [append, appendAll] using hm⟩

/-- The members of a struct that was made of parts. -/
lemma map_members_appendAll (name : String) (parts : List (String × Part)) :
    ((empty name).appendAll parts).finish.members.map (fun m => (m.name, m.shape)) =
      parts.map fun x => (x.1, x.2.shape) :=
  (appendAll_spec parts (empty name) rfl rfl).2.2

/-- Structs that were made of parts are stacked. -/
lemma isStacked_appendAll (name : String) (parts : List (String × Part)) :
    ((empty name).appendAll parts).finish.IsStacked := by
  obtain ⟨hs, ha, -⟩ := appendAll_spec parts (empty name) rfl rfl
  exact ⟨⟨_, hs, rfl⟩, ha⟩

/-- **Finished structs are sound**.

**Proof sketch.** By induction on the nesting of structs: the structs among the parts are sound, so
that their sizes and alignments are those of a sound shape. -/
theorem IsFinished.isSound (h : s.IsFinished) : s.IsSound := by
  induction h with
  | @mk name parts hvalue hnested hlt ih =>
    refine (isStacked_appendAll name parts).isSound (fun m hm => ?_) hlt
    have hmem : (m.name, m.shape) ∈ parts.map fun x => (x.1, x.2.shape) :=
      map_members_appendAll name parts ▸ List.mem_map_of_mem hm
    obtain ⟨x, hx, heq⟩ := List.mem_map.1 hmem
    have hshape : m.shape = x.2.shape := (Prod.mk.inj heq).2.symm
    rw [hshape]
    cases hpart : x.2 with
    | value t => exact .of_value (hvalue x hx t hpart)
    | nested t => exact (ih x hx t hpart).asMember
    | header => exact MemberShape.isSound_header

end Struct

end Lane.Code
