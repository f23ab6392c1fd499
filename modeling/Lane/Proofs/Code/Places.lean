import Lane.Code.Layout
import Lane.Proofs.Code.Machine
import Mathlib.Data.List.Pairwise

set_option relaxedAutoImplicit false
set_option autoImplicit false

/-!
# Places inside structs

The members of a struct are placed one after the other. Distances are words with a sign: as long as
none of them gets so large that it turns negative, members do not overlap, and all of them lie
inside the struct.

## Main definitions

* `Lane.Code.Struct.IsBounded`: structs in which no distance is too large.
* `Lane.Code.Stacked`: members that are placed one after the other.

## Main results

* `Lane.Code.le_alignUp`: aligning a distance does not make it smaller.
* `Lane.Code.Stacked.spec`: members that are placed one after the other do not overlap.
-/

namespace Lane.Code

/-! ## Alignment -/

/-- A number that is not negative has no sign bit. -/
lemma msb_eq_false_of_nonneg {x : BitVec 64} (h : 0 ≤ x.toInt) : x.msb = false := by
  rw [Bool.eq_false_iff]
  intro hmsb
  rw [BitVec.toInt_eq_msb_cond, if_pos hmsb] at h
  have := x.isLt
  omega

/-- A word that is not negative is the number that it says. -/
lemma toInt_eq_of_nonneg {x : BitVec 64} (h : 0 ≤ x.toInt) : x.toInt = x.toNat := by
  rw [BitVec.toInt_eq_msb_cond, msb_eq_false_of_nonneg h]
  rfl

/-- A word is made of the bits of a mask and of the others. -/
lemma and_add_and_not (x b : BitVec 64) : (x &&& b) + (x &&& ~~~b) = x := by
  rw [BitVec.add_eq_or_of_and_eq_zero]
  · ext i hi
    simp only [BitVec.getElem_or, BitVec.getElem_and, BitVec.getElem_not]
    cases b[i] <;> simp
  · ext i hi
    simp only [BitVec.getElem_and, BitVec.getElem_not, BitVec.getElem_zero]
    cases b[i] <;> simp

/-- Clearing the bits of a mask takes no more away than the mask. -/
lemma le_add_and_not {n b : BitVec 64} (hn : 0 ≤ n.toInt) (hb : 0 ≤ b.toInt)
    (h : 0 ≤ ((n + b) &&& ~~~b).toInt) : n.toInt ≤ ((n + b) &&& ~~~b).toInt := by
  have hle : ((n + b) &&& b).toNat ≤ b.toNat := by
    rw [BitVec.toNat_and]
    exact Nat.and_le_right
  have hnat := congrArg BitVec.toNat (and_add_and_not (n + b) b)
  rw [BitVec.toNat_add, BitVec.toNat_add] at hnat
  have hn' := BitVec.msb_eq_false_iff_two_mul_lt.1 (msb_eq_false_of_nonneg hn)
  have hb' := BitVec.msb_eq_false_iff_two_mul_lt.1 (msb_eq_false_of_nonneg hb)
  have hc' := BitVec.msb_eq_false_iff_two_mul_lt.1 (msb_eq_false_of_nonneg h)
  rw [toInt_eq_of_nonneg hn, toInt_eq_of_nonneg h]
  omega

/-- **Aligning a distance** does not make it smaller, unless it gets too large. -/
lemma le_alignUp {n a : Int64} (hn : 0 ≤ n.toInt) (h : 0 ≤ (alignUp n a).toInt) :
    n.toInt ≤ (alignUp n a).toInt := by
  unfold alignUp at h ⊢
  split
  · exact Int.le_refl _
  · rename_i ha
    rw [if_neg ha] at h
    have hb : 0 ≤ (a - 1).toInt := by
      rw [Int64.le_iff_toInt_le] at ha
      have hone : (1 : Int64).toInt = 1 := rfl
      have hlt := a.toInt_lt
      rw [Int64.toInt_sub, hone, Int.bmod_eq_of_le] <;> omega
    have heq : n + a - 1 = n + (a - 1) := by
      rw [Int64.sub_eq_add_neg, Int64.sub_eq_add_neg, Int64.add_assoc]
    rw [heq] at h ⊢
    exact le_add_and_not hn hb h

/-! ## Members -/

/-- The distance of a member. -/
def StructMember.start (m : StructMember) : Nat := m.offset.toInt.toNat

/-- The number of bytes of a shape. -/
def MemberShape.bytes (x : MemberShape) : Nat := x.size.toInt.toNat

/-- Where the next member can be. -/
def StructMember.stop (m : StructMember) : Nat := m.start + m.shape.bytes

/-- The number of bytes of a struct. -/
def Struct.bytes (s : Struct) : Nat := s.size.toInt.toNat

/-- A member at a distance that is not too large, and neither is its end. -/
def StructMember.IsBounded (m : StructMember) : Prop :=
  0 ≤ m.offset ∧ 0 ≤ m.shape.size ∧ 0 ≤ m.offset + m.shape.size

/-- Whether a member is bounded is computed. -/
instance (m : StructMember) : Decidable m.IsBounded := inferInstanceAs (Decidable (_ ∧ _))

/-- **Structs in which no distance is too large** for a word with a sign. -/
def Struct.IsBounded (s : Struct) : Prop := (∀ m ∈ s.members, m.IsBounded) ∧ 0 ≤ s.size

/-- Whether a struct is bounded is computed. -/
instance (s : Struct) : Decidable s.IsBounded := inferInstanceAs (Decidable (_ ∧ _))

/-- The words of a bounded member are its numbers. -/
lemma StructMember.IsBounded.toInt_eq {m : StructMember} (h : m.IsBounded) :
    m.offset.toInt = m.start ∧ m.shape.size.toInt = m.shape.bytes ∧
      (m.offset + m.shape.size).toInt = m.stop := by
  obtain ⟨ho, hs, hsum⟩ := h
  rw [Int64.le_iff_toInt_le] at ho hs hsum
  have hzero : (0 : Int64).toInt = 0 := rfl
  rw [hzero] at ho hs hsum
  have hlt := m.offset.toInt_lt
  have hlt' := m.shape.size.toInt_lt
  refine ⟨(Int.toNat_of_nonneg ho).symm, (Int.toNat_of_nonneg hs).symm, ?_⟩
  -- The sum is below the modulus, and does not get negative.
  have heq : (m.offset + m.shape.size).toInt = m.offset.toInt + m.shape.size.toInt := by
    rw [Int64.toInt_add] at hsum ⊢
    generalize m.offset.toInt = a at *
    generalize m.shape.size.toInt = b at *
    rw [Int.bmod_def] at hsum ⊢
    split at hsum <;> omega
  rw [heq, stop, Int.natCast_add, start, MemberShape.bytes, Int.toNat_of_nonneg ho,
    Int.toNat_of_nonneg hs]

/-- **Members one after the other**: the first is at the next place for it after a distance, and
behind the last is another distance. -/
def Stacked : Int64 → List StructMember → Int64 → Prop
  | n, [], n' => n' = n
  | n, m :: ms, n' => m.offset = alignUp n m.shape.align ∧ Stacked (m.offset + m.shape.size) ms n'

/-- The next member is stacked on the others. -/
lemma Stacked.append {m : StructMember} : ∀ {ms : List StructMember} {n n' : Int64},
    Stacked n ms n' → m.offset = alignUp n' m.shape.align →
      Stacked n (ms ++ [m]) (m.offset + m.shape.size)
  | [], _, _, h, hm => ⟨h ▸ hm, rfl⟩
  | _ :: _, _, _, ⟨h, hms⟩, hm => ⟨h, hms.append hm⟩

/-- **Members one after the other** do not overlap, and lie between the distances before and after
them, unless they get too far away. -/
theorem Stacked.spec : ∀ {ms : List StructMember} {n n' : Int64}, Stacked n ms n' →
    0 ≤ n.toInt → (∀ m ∈ ms, m.IsBounded) → n.toInt ≤ n'.toInt ∧
      (∀ m ∈ ms, n.toInt ≤ m.start ∧ m.stop ≤ n'.toInt) ∧
      ms.Pairwise fun m m' => m.stop ≤ m'.start
  | [], n, n', h, _, _ => by
    obtain rfl : n' = n := h
    exact ⟨Int.le_refl _, by simp, .nil⟩
  | m :: ms, n, n', ⟨hm, hms⟩, hn, hb => by
    obtain ⟨hmb, hb⟩ := List.forall_mem_cons.1 hb
    obtain ⟨hstart, hsize, hstop⟩ := hmb.toInt_eq
    have hle : n.toInt ≤ m.start := by
      rw [← hstart, hm]
      refine le_alignUp hn ?_
      rw [← hm, hstart]
      exact Int.natCast_nonneg _
    obtain ⟨hend, hall, hpair⟩ := hms.spec (by rw [hstop]; exact Int.natCast_nonneg _) hb
    rw [hstop] at hend hall
    have hstop' : (m.start : Int) ≤ m.stop := by
      unfold StructMember.stop
      omega
    refine ⟨by omega, List.forall_mem_cons.2 ⟨⟨hle, hend⟩, fun m' hm' => ?_⟩,
      List.pairwise_cons.2 ⟨fun m' hm' => ?_, hpair⟩⟩
    · have := hall m' hm'
      omega
    · have := (hall m' hm').1
      omega

/-! ## Paths -/

/-- The distance of the last member on a path. -/
def distance : List StructMember → Nat
  | [] => 0
  | m :: π => m.start + distance π

/-- The distance of what is behind the last member on a path. -/
def reach : List StructMember → Nat
  | [] => 0
  | [m] => m.stop
  | m :: π => m.start + reach π

/-- A path reaches no less far than it starts. -/
lemma distance_le_reach : ∀ π : List StructMember, distance π ≤ reach π
  | [] => Nat.le_refl _
  | [m] => by
    unfold distance distance reach StructMember.stop
    omega
  | m :: m' :: π => by
    have := distance_le_reach (m' :: π)
    unfold reach
    rw [distance]
    omega

/-- The bytes of the last member lie between its distance and what is behind it. -/
lemma reach_eq {m : StructMember} : ∀ {π : List StructMember}, π.getLast? = some m →
    reach π = distance π + m.shape.bytes
  | [m'], h => by
    obtain rfl : m' = m := by simpa using h
    unfold reach distance distance StructMember.stop
    omega
  | m₁ :: m₂ :: π, h => by
    rw [List.getLast?_cons_cons] at h
    have := reach_eq h
    unfold reach
    rw [distance, this]
    omega

/-- A path adds up the distances of its members. -/
lemma word_ofPath {π : List StructMember} (h : ∀ m ∈ π, m.IsBounded) :
    Offset.word (some (.ofPath π)) = .ofNat (distance π) := by
  have fold : ∀ (π : List StructMember) (o : Offset), (∀ m ∈ π, m.IsBounded) →
      (π.foldl Offset.add o).bytes.toUInt64 = o.bytes.toUInt64 + .ofNat (distance π) := by
    intro π
    induction π with
    | nil => exact fun o _ => (UInt64.add_zero _).symm
    | cons m π ih =>
      intro o h
      obtain ⟨hm, h⟩ := List.forall_mem_cons.1 h
      have hstart : m.offset.toUInt64 = .ofNat m.start := by
        have hle : 0 ≤ m.offset.toBitVec.toInt := Int64.le_iff_toInt_le.1 hm.1
        have hnat : m.start = m.offset.toUInt64.toNat := by
          show (m.offset.toBitVec.toInt).toNat = m.offset.toBitVec.toNat
          rw [toInt_eq_of_nonneg hle, Int.toNat_natCast]
        rw [hnat, UInt64.ofNat_toNat]
      rw [List.foldl_cons, ih _ h, Offset.add, Int64.toUInt64_add, hstart, distance,
        UInt64.ofNat_add, UInt64.add_assoc]
  have hzero : Int64.toUInt64 0 = 0 := rfl
  simpa [Offset.word, Offset.value, Offset.ofPath, hzero] using fold π {} h

/-- Places one behind the other are different, if both are in memory. -/
lemma apart_of_le {a : Word} {x n y k : Nat} (h : x + n ≤ y) (hy : y + k ≤ UInt64.size) :
    Apart (a + .ofNat x) n (a + .ofNat y) k := by
  intro i hi j hj he
  rw [UInt64.add_assoc, UInt64.add_assoc, ← UInt64.ofNat_add, ← UInt64.ofNat_add] at he
  have heq := congrArg UInt64.toNat ((UInt64.add_right_inj a).1 he)
  rw [UInt64.toNat_ofNat_of_lt' (by omega), UInt64.toNat_ofNat_of_lt' (by omega)] at heq
  omega

end Lane.Code
