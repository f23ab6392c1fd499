import Lane.Code.Type
import Mathlib.Data.List.Basic
import Mathlib.Tactic.Lemma

set_option relaxedAutoImplicit false
set_option autoImplicit false

/-!
# Memory

Machine scalars and addresses are words, and memory is a map from addresses to bytes. A value has
one scalar for each of its lanes; a vector is stored lane by lane, the lowest byte of a lane first.

## Main definitions

* `Lane.Code.Kind.cut`: as many bits of a word as a machine scalar has.
* `Lane.Code.Memory.read`, `Lane.Code.Memory.write`: scalars and vectors in memory.
* `Lane.Code.Apart`: bytes at different addresses.

## Main results

* `Lane.Code.Memory.cut_read_write`: what was written is read.
* `Lane.Code.Memory.read_write_of_apart`: all else stays as it is.
-/

namespace Lane.Code

/-- Machine scalars and addresses. -/
abbrev Word := UInt64

/-- The scalars in the lanes of a value. -/
abbrev Value := Nat → Word

/-- As many bits of a word as values of a machine scalar are made of. -/
def Kind.cut (k : Kind) (w : Word) : Word := .ofNat (w.toNat % 1 <<< k.bits)

/-- The number of lanes of a value: a scalar has one. -/
def VType.width (t : VType) : Nat := if t.isVector then t.lanes else 1

/-- The size of a value in memory. -/
def VType.bytes (t : VType) : Nat := t.width * t.kind.size

/-- Scalars take at least a byte. -/
lemma Kind.size_pos (k : Kind) : 0 < k.size := by cases k <;> decide

/-- The bits of a machine scalar fit in its bytes, and these fit in a word. -/
lemma Kind.bits_le (k : Kind) : k.bits ≤ 8 * k.size ∧ 8 * k.size ≤ 64 := by cases k <;> decide

/-- Powers of two divide greater ones. -/
lemma one_shiftLeft_dvd {m n : Nat} (h : m ≤ n) : 1 <<< m ∣ 1 <<< n := by
  simpa [Nat.one_shiftLeft] using Nat.pow_dvd_pow 2 h

/-- A value is cut to its bits. -/
lemma Kind.toNat_cut (k : Kind) (w : Word) : (k.cut w).toNat = w.toNat % 1 <<< k.bits := by
  exact UInt64.toNat_ofNat_of_lt' (Nat.lt_of_le_of_lt (Nat.mod_le _ _) w.toNat_lt)

/-- Cutting a word only looks at as many bits. -/
lemma Kind.cut_eq_of_mod_eq (k : Kind) {w v : Word} {n : Nat} (hn : k.bits ≤ n)
    (h : w.toNat % 1 <<< n = v.toNat % 1 <<< n) : k.cut w = k.cut v := by
  have hdvd := one_shiftLeft_dvd hn
  unfold cut
  rw [← Nat.mod_mod_of_dvd w.toNat hdvd, h, Nat.mod_mod_of_dvd _ hdvd]

/-- A value is cut once. -/
@[simp] lemma Kind.cut_cut (k : Kind) (w : Word) : k.cut (k.cut w) = k.cut w :=
  k.cut_eq_of_mod_eq (Nat.le_refl _) (by rw [toNat_cut, Nat.mod_mod])

/-- **Memory**: the bytes at all addresses. -/
abbrev Memory := Word → UInt8

/-- Byte number `i` of a word, the lowest first. -/
def byteOf (w : Word) (i : Nat) : UInt8 := .ofNat (w.toNat >>> (8 * i))

/-- Bytes at different addresses: `n` of them from `a`, and `m` of them from `b`. -/
def Apart (a : Word) (n : Nat) (b : Word) (m : Nat) : Prop :=
  ∀ i < n, ∀ j < m, a + .ofNat i ≠ b + .ofNat j

/-- Being apart is symmetric. -/
lemma Apart.symm {a b : Word} {n m : Nat} (h : Apart a n b m) : Apart b m a n :=
  fun i hi j hj he => h j hj i hi he.symm

/-- Bytes inside of others. -/
lemma Apart.mono {a b : Word} {n m k i : Nat} (h : Apart a n b m) (hi : i + k ≤ n) :
    Apart (a + .ofNat i) k b m := fun x hx j hj => by
  rw [UInt64.add_assoc, ← UInt64.ofNat_add]
  exact h (i + x) (by omega) j hj

namespace Memory

/-- The number that `n` bytes make up. -/
def number (m : Memory) (a : Word) : Nat → Nat
  | 0 => 0
  | n + 1 => (m a).toNat + m.number (a + 1) n <<< 8

/-- A scalar in memory. -/
def scalar (m : Memory) (k : Kind) (a : Word) : Word := .ofNat (m.number a k.size)

/-- A value in memory. -/
def read (m : Memory) (t : VType) (a : Word) : Value :=
  fun i => m.scalar t.kind (a + .ofNat (i * t.kind.size))

/-- What is read does not depend on the number of lanes. -/
lemma read_congr (m : Memory) {t u : VType} (h : t.kind = u.kind) (a : Word) :
    m.read t a = m.read u a := by
  unfold read
  rw [h]

/-- Put a value in memory. -/
def write (m : Memory) (t : VType) (a : Word) (v : Value) : Memory := fun x =>
  let d := (x - a).toNat
  if d < t.bytes then byteOf (v (d / t.kind.size)) (d % t.kind.size) else m x

/-- Bytes of a word make up as many of its bits. -/
lemma number_of_bytes {m : Memory} : ∀ {n : Nat} {a : Word} {w : Nat},
    (∀ i < n, m (a + .ofNat i) = .ofNat (w >>> (8 * i))) → m.number a n = w % 1 <<< (8 * n)
  | 0, a, w, _ => by simp [number, Nat.mod_one]
  | n + 1, a, w, h => by
    have hfirst : (m a).toNat = w % 256 := by simpa using congrArg UInt8.toNat (h 0 (by omega))
    have hrest : m.number (a + 1) n = (w >>> 8) % 1 <<< (8 * n) := by
      refine number_of_bytes fun i hi => ?_
      have hnext := h (i + 1) (by omega)
      rw [Nat.add_comm i 1, UInt64.ofNat_add] at hnext
      rw [UInt64.add_assoc, ← Nat.shiftRight_add, show 8 + 8 * i = 8 * (1 + i) by omega]
      exact hnext
    rw [number, hfirst, hrest]
    simp only [Nat.shiftLeft_eq, Nat.one_mul, Nat.shiftRight_eq_div_pow]
    rw [show 8 * (n + 1) = 8 + 8 * n by omega, Nat.pow_add, Nat.mod_mul]
    omega

/-- Nothing changes where nothing is written. -/
lemma write_eq_of_ne {m : Memory} {t : VType} {a x : Word} {v : Value}
    (h : ∀ i < t.bytes, x ≠ a + .ofNat i) : m.write t a v x = m x := by
  unfold write
  refine if_neg fun hlt => h _ hlt ?_
  rw [UInt64.ofNat_toNat, UInt64.add_comm, UInt64.sub_add_cancel]

/-- What is written elsewhere does not change a number in memory. -/
lemma number_write_of_apart {m : Memory} {t : VType} {b : Word} {v : Value} :
    ∀ {n : Nat} {a : Word}, Apart a n b t.bytes → (m.write t b v).number a n = m.number a n
  | 0, _, _ => rfl
  | n + 1, a, h => by
    have hfirst : m.write t b v a = m a :=
      write_eq_of_ne fun i hi => by simpa using h 0 (by omega) i hi
    have hrest := number_write_of_apart (m := m) (v := v) (h.mono (i := 1) (k := n) (by omega))
    rw [number, number, hfirst]
    exact congrArg (fun k => (m a).toNat + k <<< 8) hrest

/-- **All else stays as it is**: a value elsewhere in memory is not changed. -/
lemma read_write_of_apart {m : Memory} {t u : VType} {a b : Word} {v : Value} {i : Nat}
    (h : Apart a u.bytes b t.bytes) (hi : i < u.width) :
    (m.write t b v).read u a i = m.read u a i := by
  have hle : i * u.kind.size + u.kind.size ≤ u.bytes := by
    rw [← Nat.succ_mul]
    exact Nat.mul_le_mul_right _ hi
  exact congrArg UInt64.ofNat (number_write_of_apart (h.mono hle))

/-- **What was written is read**, if the value is not larger than memory. -/
lemma cut_read_write {m : Memory} {t : VType} {a : Word} {v : Value} {i : Nat} (hi : i < t.width)
    (ht : t.bytes ≤ UInt64.size) : t.kind.cut ((m.write t a v).read t a i) = t.kind.cut (v i) := by
  have hpos := t.kind.size_pos
  have hnumber : (m.write t a v).number (a + .ofNat (i * t.kind.size)) t.kind.size =
      (v i).toNat % 1 <<< (8 * t.kind.size) := by
    refine number_of_bytes fun j hj => ?_
    have hlt : i * t.kind.size + j < t.bytes := by
      have : i * t.kind.size + t.kind.size ≤ t.width * t.kind.size := by
        rw [← Nat.succ_mul]
        exact Nat.mul_le_mul_right _ hi
      exact Nat.lt_of_lt_of_le (Nat.add_lt_add_left hj _) this
    have hd : (a + .ofNat (i * t.kind.size) + .ofNat j - a).toNat = i * t.kind.size + j := by
      rw [UInt64.add_assoc, ← UInt64.ofNat_add, UInt64.add_comm, UInt64.add_sub_cancel]
      exact UInt64.toNat_ofNat_of_lt' (Nat.lt_of_lt_of_le hlt ht)
    have hdiv : (i * t.kind.size + j) / t.kind.size = i := by
      rw [Nat.mul_comm, Nat.mul_add_div hpos, Nat.div_eq_of_lt hj, Nat.add_zero]
    have hmod : (i * t.kind.size + j) % t.kind.size = j := by
      rw [Nat.mul_comm, Nat.mul_add_mod, Nat.mod_eq_of_lt hj]
    simp only [write, hd, hlt, if_true, hdiv, hmod, byteOf]
  obtain ⟨hbits, hbytes⟩ := t.kind.bits_le
  refine t.kind.cut_eq_of_mod_eq hbits ?_
  have hword : (v i).toNat % 1 <<< (8 * t.kind.size) < UInt64.size :=
    Nat.lt_of_le_of_lt (Nat.mod_le _ _) (v i).toNat_lt
  rw [read, scalar, hnumber, UInt64.toNat_ofNat_of_lt' hword, Nat.mod_mod]

end Memory

end Lane.Code
