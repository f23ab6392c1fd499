import Lane.Proofs.Lowering.Rooted
import Lane.Proofs.Packing.Agree
import Lane.Proofs.Packing.Mirror

set_option relaxedAutoImplicit false
set_option autoImplicit false

/-!
# Regions of memory

A function works on instances of classes and on stack slots for scalars. Each of them is a region,
in the memory of a run and in packed memory. The scalars in a region have places of their own, and
the packed layout of a class has a place for each of them. So scalars do not overlap if regions do
not.

## Main definitions

* `Lane.Packing.Region`: instances of classes, and slots for scalars.
* `Lane.Packing.Region.Holds`: the scalars in a region, and where they are in packed memory.
* `Lane.Packing.Mirrored`: what is known about the layouts of a class.
* `Lane.Packing.Region.Together`, `Lane.Packing.Region.Disjoint`: regions in one place, and in
  different ones.

## Main results

* `Lane.Packing.Region.Holds.known`: packed code knows the scalars in a region.
* `Lane.Packing.separate_of_arePlaced`: scalars do not overlap.
* `Lane.Accepted.mirrored`: the layouts of the classes of an accepted program.
-/

namespace Lane.Packing

open Code Lowering

/-! ## Layouts of classes -/

/-- The number of bytes of a type, in two ways. -/
lemma bytes_eq_extent (t : VType) : t.bytes = t.extent := by
  unfold VType.bytes VType.width VType.extent
  split
  · exact Nat.mul_comm ..
  · exact Nat.one_mul _

/-- **The layouts of a class**: the paths to its scalars lead to places inside of its struct and of
its packed struct, and different paths to places that do not overlap. -/
structure Mirrored (p : Program) (layouts : Layouts) (l : PackedLayouts) (W : Nat) (c : ClassRef) :
    Prop where
  lands : ∀ π d v, Along p layouts.struct? c π d v → v.type.IsScalar →
    ∃ s m, layouts.struct? c = some s ∧ Lands s π m ∧ m.type? = some v.type.code ∧
      reach π = distance π + v.type.code.bytes
  apart : ∀ π d v π' d' v', Along p layouts.struct? c π d v → v.type.IsScalar →
    Along p layouts.struct? c π' d' v' → v'.type.IsScalar → π ≠ π' →
      reach π ≤ distance π' ∨ reach π' ≤ distance π
  leads : ∀ π d v, Along p layouts.struct? c π d v → v.type.IsScalar →
    ∃ t ρ x k, l.struct? c = some t ∧ LeadsTo l t π ρ x ∧ x.member.type? = some ⟨k, W⟩ ∧
      (x.isMask = true → v.type.code.kind = .i1 ∧ k.isInteger) ∧
      (x.isMask = false → k = v.type.code.kind) ∧
      reach ρ = distance ρ + (⟨k, W⟩ : VType).bytes
  packed_apart : ∀ t π d v ρ x π' d' v' ρ' x', l.struct? c = some t →
    Along p layouts.struct? c π d v → v.type.IsScalar → LeadsTo l t π ρ x →
    Along p layouts.struct? c π' d' v' → v'.type.IsScalar → LeadsTo l t π' ρ' x' → π ≠ π' →
      reach ρ ≤ distance ρ' ∨ reach ρ' ≤ distance ρ

/-- The packed form of a scalar: a vector, of masks for truth values. -/
lemma PackedForm.of_scalar {p : Program} {W : Nat} {c : ClassRef} {t : Ty} {x : PackedMember}
    (h : PackedForm p W c t x) (ht : t.IsScalar) : ∃ k, x.member.shape = .value ⟨k, W⟩ ∧
      (x.isMask = true → t.code.kind = .i1 ∧ k.isInteger) ∧
      (x.isMask = false → k = t.code.kind) := by
  obtain ⟨q, s, rfl⟩ := ht
  have plain : s ≠ .bool → x.isMask = false ∧
      x.member.shape = .value ((VType.scalar s.code).vector W) := by
    intro hs
    cases s <;> first | exact h | exact absurd rfl hs
  by_cases hs : s = .bool
  · subst hs
    obtain ⟨hmask, k, hk, -, hshape⟩ := h
    exact ⟨k, hshape, fun _ => ⟨rfl, hk⟩, fun hno => absurd (hmask.symm.trans hno) (by decide)⟩
  · obtain ⟨hno, hshape⟩ := plain hs
    refine ⟨s.code, hshape, fun hmask => ?_, fun _ => rfl⟩
    exact absurd (hno.symm.trans hmask) (by decide)

/-! ## Regions -/

/-- **Regions of memory**: instances of classes, and slots for scalars. -/
inductive Region where
  | object (o : Operand) (c : ClassRef)
  | spilled (s : Slot)

namespace Region

/-- What has the address. -/
def base : Region → Operand
  | .object o _ => o
  | .spilled s => .slot s

section Defs

variable (p : Program) (layouts : Layouts) (env : WidenEnv)

/-- The number of bytes in the memory of a run. -/
def bytes : Region → Nat
  | .object _ c => ((layouts.struct? c).map Struct.bytes).getD 0
  | .spilled s => s.size.toInt.toNat

/-- The number of bytes in packed memory: for all instances, or for one that they share. -/
def packedBytes (r : Region) : Nat :=
  if env.lanes.get r.base = .packed then
    match r with
    | .object _ c => ((env.layouts.struct? c).map Struct.bytes).getD 0
    | .spilled s => env.width * s.size.toInt.toNat
  else r.bytes layouts

/-- **The scalars in a region**, and where they are in packed memory. The bytes of a slot are seen
as an integer. -/
inductive Holds : Region → Cell → Prop
  | member {o : Operand} {c d : ClassRef} {π ρ : List StructMember} {v : MemberVar}
      {x : PackedMember} {k : Kind} (ho : env.lanes.get o = .packed)
      (h : Along p layouts.struct? c π d v) (hv : v.type.IsScalar)
      (hx : env.layouts.offset? (some (.ofPath π)) = some (.ofPath ρ, x))
      (hk : x.member.type? = some ⟨k, env.width⟩) :
      Holds (.object o c)
        ⟨o, some (.ofPath π), v.type.code.kind, some (.ofPath ρ), k, x.isMask, false⟩
  | shared {o : Operand} {c d : ClassRef} {π : List StructMember} {v : MemberVar}
      (ho : env.lanes.get o ≠ .packed) (h : Along p layouts.struct? c π d v)
      (hv : v.type.IsScalar) :
      Holds (.object o c) ⟨o, some (.ofPath π), v.type.code.kind, some (.ofPath π),
        v.type.code.kind, false, true⟩
  | spilled {s : Slot} {n : Nat} (hs : s.size = .ofNat (Kind.intOfSize n).size) :
      Holds (.spilled s) ⟨.slot s, none, .intOfSize n, none, .intOfSize n, false,
        decide (env.lanes.get (.slot s) ≠ .packed)⟩

/-- **Regions that are not too large**, in packed memory in particular. -/
def IsSmall : Region → Prop
  | .object _ c => ∀ d, Includes p c d → (∀ s, layouts.struct? d = some s → s.extent < 2 ^ 63) ∧
      ∀ t, env.layouts.struct? d = some t → t.extent < 2 ^ 63
  | .spilled s => env.lanes.get (.slot s) = .packed → env.width * s.size.toInt.toNat < 2 ^ 63

variable (A : Nat → Operand → Word) (B : Operand → Word)

/-- **Regions in one place**: instances of one class at the same address, in every run and in packed
memory. -/
def Together : Region → Region → Prop
  | .object o c, .object o' c' => c = c' ∧
      (env.lanes.get o = .packed ↔ env.lanes.get o' = .packed) ∧
      (∀ i < env.width, A i o = A i o') ∧ B o = B o'
  | .spilled s, .spilled s' => s = s'
  | _, _ => False

/-- **Regions in different places**, in every run and in packed memory. -/
structure Disjoint (r r' : Region) : Prop where
  scalar : ∀ i < env.width,
    Apart (A i r.base) (r.bytes layouts) (A i r'.base) (r'.bytes layouts)
  packed : Apart (B r.base) (r.packedBytes layouts env) (B r'.base) (r'.packedBytes layouts env)

end Defs

section Cells

variable {p : Program} {layouts : Layouts} {env : WidenEnv} {r r' : Region} {c c' : Cell}
  {A : Nat → Operand → Word} {B : Operand → Word} {s : Slot} {n : Nat}

/-- What has to be known about the layouts of the class of an instance. -/
def IsMirrored (p : Program) (layouts : Layouts) (env : WidenEnv) : Region → Prop
  | .object _ c => Mirrored p layouts env.layouts env.width c
  | .spilled _ => True

/-- A region that holds has the address it is for. -/
lemma Holds.base_eq (h : r.Holds p layouts env c) : c.base = r.base := by
  cases h <;> rfl

/-- The bits of a type of a given size. -/
lemma bits_intOfSize (n : Nat) : (Kind.intOfSize n).bits = 8 * (Kind.intOfSize n).size := by
  unfold Kind.intOfSize
  split <;> rfl

/-- The integer that is seen in a slot has the size of the slot. -/
lemma toNat_size (hs : s.size = .ofNat (Kind.intOfSize n).size) :
    s.size.toInt.toNat = (Kind.intOfSize n).size := by
  rw [hs]
  unfold Kind.intOfSize
  split <;> rfl

/-- Integers of one size are the same. -/
lemma intOfSize_injective {m : Nat} (h : (Kind.intOfSize n).size = (Kind.intOfSize m).size) :
    Kind.intOfSize n = Kind.intOfSize m := by
  unfold Kind.intOfSize at h ⊢
  split at h <;> split at h <;> first | rfl | cases h

/-- **Packed code knows the scalars** in a region. -/
theorem Holds.known (h : r.Holds p layouts env c) (hr : r.IsMirrored p layouts env) :
    c.Known env := by
  cases h with
  | @member o c d π ρ v x k ho halong hv hx hk =>
    obtain ⟨t, ρ', x', k', -, hleads, hk', hmask, hno, -⟩ := Mirrored.leads hr π d v halong hv
    obtain ⟨-, rfl⟩ := Prod.mk.inj (Option.some.inj (hleads.offset_eq.symm.trans hx))
    obtain rfl : k' = k := congrArg VType.kind (Option.some.inj (hk'.symm.trans hk))
    exact .inl ⟨ho, ⟨_, _, hx, rfl, rfl, hk⟩, rfl, hv.kind_ne, hmask, hno⟩
  | shared ho _ _ => exact .inr ⟨fun h => absurd h ho, rfl, rfl, nofun, rfl, iff_of_true rfl ho⟩
  | spilled hs =>
    exact .inr ⟨fun _ => rfl, rfl, rfl, fun _ => bits_intOfSize _, rfl, decide_eq_true_iff⟩

/-- The bytes of a scalar type. -/
lemma bytes_code {t : Ty} (ht : t.IsScalar) : (VType.scalar t.code.kind).bytes = t.code.bytes := by
  obtain ⟨q, k, rfl⟩ := ht
  rfl

/-- **Where a scalar is** in the memory of a run. -/
lemma Holds.scalar_range (h : r.Holds p layouts env c) (hr : r.IsMirrored p layouts env) :
    ∃ n, Offset.word c.offset = .ofNat n ∧ n + (VType.scalar c.kind).bytes ≤ r.bytes layouts := by
  cases h with
  | @member _ _ _ π _ _ _ _ _ halong hv | @shared _ _ _ π _ _ halong hv =>
    obtain ⟨s, m, hs, hlands, -, hreach⟩ := Mirrored.lands hr _ _ _ halong hv
    refine ⟨distance π, word_ofPath hlands.bounded, ?_⟩
    rw [bytes_code hv, ← hreach, bytes, hs]
    exact hlands.reach_le
  | spilled hs =>
    refine ⟨0, rfl, ?_⟩
    rw [bytes, toNat_size hs, Nat.zero_add]
    exact (Nat.one_mul _).le

/-- The packed struct of an instance. -/
lemma packedBytes_object {o : Operand} {k : ClassRef} (h : env.lanes.get o = .packed) :
    (object o k).packedBytes layouts env = ((env.layouts.struct? k).map Struct.bytes).getD 0 :=
  if_pos h

/-- What is not packed has the size it had. -/
lemma packedBytes_of_ne (h : env.lanes.get r.base ≠ .packed) :
    r.packedBytes layouts env = r.bytes layouts :=
  if_neg h

/-- **Where a scalar is** in packed memory. -/
lemma Holds.packed_range (hW : 0 < env.width) (h : r.Holds p layouts env c)
    (hr : r.IsMirrored p layouts env) :
    ∃ n, Offset.word c.packed = .ofNat n ∧
      n + (c.type env.width).bytes ≤ r.packedBytes layouts env := by
  cases h with
  | @member o _ _ π ρ _ _ k ho halong hv hx hk =>
    obtain ⟨t, ρ', x', k', ht, hleads, hk', -, -, hreach⟩ := Mirrored.leads hr _ _ _ halong hv
    obtain ⟨hpath, rfl⟩ := Prod.mk.inj (Option.some.inj (hleads.offset_eq.symm.trans hx))
    obtain rfl := ofPath_injective hpath
    obtain rfl : k' = k := congrArg VType.kind (Option.some.inj (hk'.symm.trans hk))
    refine ⟨distance ρ', word_ofPath hleads.lands.bounded, ?_⟩
    rw [packedBytes_object ho, ht]
    show distance ρ' + (⟨k', env.width⟩ : VType).bytes ≤ _
    rw [← hreach]
    exact hleads.lands.reach_le
  | @shared o _ _ π _ ho halong hv =>
    obtain ⟨s, m, hs, hlands, -, hreach⟩ := Mirrored.lands hr _ _ _ halong hv
    refine ⟨distance π, word_ofPath hlands.bounded, ?_⟩
    rw [packedBytes_of_ne ho, bytes, hs]
    refine Nat.le_trans (Nat.le_of_eq ?_) hlands.reach_le
    rw [hreach, ← bytes_code hv]
    rfl
  | @spilled s n hs =>
    refine ⟨0, rfl, ?_⟩
    rw [packedBytes, bytes, toNat_size hs, Nat.zero_add, Cell.type]
    show VType.bytes ⟨Kind.intOfSize n, if decide _ = true then 1 else env.width⟩ ≤
      if env.lanes.get (.slot s) = .packed then _ else _
    by_cases hp : env.lanes.get (.slot s) = .packed
    · rw [if_neg (by simpa using hp), if_pos hp, VType.bytes, width_eq hW]
    · rw [if_pos (by simpa using hp), if_neg hp, VType.bytes, width_eq Nat.one_pos, Nat.one_mul]

/-- A number of 64 bits is below two to the 63rd. -/
lemma toNat_lt (n : Int64) : n.toInt.toNat < 2 ^ 63 := by
  have := n.toInt_lt
  omega

/-- The bytes of a struct are a number of 64 bits. -/
lemma bytes_getD_lt (t : Option Struct) : (t.map Struct.bytes).getD 0 < 2 ^ 63 := by
  cases t with
  | none => exact Nat.two_pow_pos 63
  | some t => exact toNat_lt t.size

/-- Sizes are words with a sign. -/
lemma bytes_lt (layouts : Layouts) : ∀ r : Region, r.bytes layouts < 2 ^ 63
  | .object _ _ => bytes_getD_lt _
  | .spilled s => toNat_lt s.size

/-- A region that is not too large is smaller than memory. -/
lemma IsSmall.packedBytes_lt (h : r.IsSmall p layouts env) :
    r.packedBytes layouts env < 2 ^ 63 := by
  by_cases hp : env.lanes.get r.base = .packed
  · cases r with
    | object o k => exact packedBytes_object hp ▸ bytes_getD_lt _
    | spilled s =>
      have heq : (spilled s).packedBytes layouts env = env.width * s.size.toInt.toNat := if_pos hp
      exact heq ▸ h hp
  · exact packedBytes_of_ne hp ▸ bytes_lt layouts r

end Cells

end Region

/-! ## Places -/

section Places

variable {p : Program} {layouts : Layouts} {env : WidenEnv} {r r' : Region} {c c' : Cell}
  {A : Nat → Operand → Word} {B : Operand → Word} {k d d' : ClassRef} {v v' : MemberVar}
  {π π' ρ ρ' : List StructMember} {x x' : PackedMember} {t : Struct} {i j : Kind}

/-- Places that do not overlap, if both are in memory. -/
lemma apart_of_or {a : Word} {x n y k : Nat} (h : x + n ≤ y ∨ y + k ≤ x)
    (hx : x + n < 2 ^ 63) (hy : y + k < 2 ^ 63) : Apart (a + .ofNat x) n (a + .ofNat y) k := by
  have hsize : UInt64.size = 2 ^ 64 := rfl
  obtain h | h := h
  · exact apart_of_le h (by omega)
  · exact (apart_of_le h (by omega)).symm

/-- Different scalars of an instance do not overlap. -/
lemma Mirrored.scalars_apart (hr : Mirrored p layouts env.layouts env.width k)
    (h : Along p layouts.struct? k π d v) (hv : v.type.IsScalar)
    (h' : Along p layouts.struct? k π' d' v') (hv' : v'.type.IsScalar) (hne : π ≠ π') (a : Word) :
    Apart (a + Offset.word (some (.ofPath π))) v.type.code.bytes
      (a + Offset.word (some (.ofPath π'))) v'.type.code.bytes := by
  obtain ⟨s, m, -, hlands, -, hreach⟩ := hr.lands _ _ _ h hv
  obtain ⟨s', m', -, hlands', -, hreach'⟩ := hr.lands _ _ _ h' hv'
  have hle := hlands.reach_le
  have hle' := hlands'.reach_le
  have hlt := Region.toNat_lt s.size
  have hlt' := Region.toNat_lt s'.size
  have hor := hr.apart _ _ _ _ _ _ h hv h' hv' hne
  rw [Struct.bytes, hreach] at hle
  rw [Struct.bytes, hreach'] at hle'
  rw [hreach, hreach'] at hor
  rw [word_ofPath hlands.bounded, word_ofPath hlands'.bounded]
  exact apart_of_or hor (by omega) (by omega)

/-- Different packed scalars of an instance do not overlap. -/
lemma Mirrored.packed_scalars_apart (hr : Mirrored p layouts env.layouts env.width k)
    (h : Along p layouts.struct? k π d v) (hv : v.type.IsScalar)
    (hx : env.layouts.offset? (some (.ofPath π)) = some (.ofPath ρ, x))
    (hi : x.member.type? = some ⟨i, env.width⟩)
    (h' : Along p layouts.struct? k π' d' v') (hv' : v'.type.IsScalar)
    (hx' : env.layouts.offset? (some (.ofPath π')) = some (.ofPath ρ', x'))
    (hj : x'.member.type? = some ⟨j, env.width⟩) (hne : π ≠ π') (a : Word) :
    Apart (a + Offset.word (some (.ofPath ρ))) (⟨i, env.width⟩ : VType).bytes
      (a + Offset.word (some (.ofPath ρ'))) (⟨j, env.width⟩ : VType).bytes := by
  obtain ⟨t, ρ₀, x₀, i', ht, hleads, hi', -, -, hreach⟩ := hr.leads _ _ _ h hv
  obtain ⟨t', ρ₁, x₁, j', ht', hleads', hj', -, -, hreach'⟩ := hr.leads _ _ _ h' hv'
  obtain rfl := Option.some.inj (ht.symm.trans ht')
  obtain ⟨hpath, rfl⟩ := Prod.mk.inj (Option.some.inj (hleads.offset_eq.symm.trans hx))
  obtain ⟨hpath', rfl⟩ := Prod.mk.inj (Option.some.inj (hleads'.offset_eq.symm.trans hx'))
  obtain rfl := ofPath_injective hpath
  obtain rfl := ofPath_injective hpath'
  obtain rfl : i' = i := congrArg VType.kind (Option.some.inj (hi'.symm.trans hi))
  obtain rfl : j' = j := congrArg VType.kind (Option.some.inj (hj'.symm.trans hj))
  have hle := hleads.lands.reach_le
  have hle' := hleads'.lands.reach_le
  have hlt := Region.toNat_lt t.size
  have hor := hr.packed_apart t _ _ _ _ _ _ _ _ _ _ ht h hv hleads h' hv' hleads' hne
  rw [Struct.bytes, hreach] at hle
  rw [Struct.bytes, hreach'] at hle'
  rw [hreach, hreach'] at hor
  rw [word_ofPath hleads.lands.bounded, word_ofPath hleads'.lands.bounded]
  exact apart_of_or hor (by omega) (by omega)

/-- A path leads to one scalar only. -/
lemma Mirrored.kind_eq (hr : Mirrored p layouts env.layouts env.width k)
    (h : Along p layouts.struct? k π d v) (hv : v.type.IsScalar)
    (h' : Along p layouts.struct? k π d' v') (hv' : v'.type.IsScalar) :
    v.type.code = v'.type.code := by
  obtain ⟨_, m, -, hlands, hm, -⟩ := hr.lands _ _ _ h hv
  obtain ⟨_, m', -, hlands', hm', -⟩ := hr.lands _ _ _ h' hv'
  obtain rfl := Option.some.inj (hlands.last.symm.trans hlands'.last)
  exact Option.some.inj (hm.symm.trans hm')

/-- **Two scalars of instances in one place** are one, or do not overlap. -/
lemma Region.Holds.same_or_apart (hr : Mirrored p layouts env.layouts env.width k)
    {o o' : Operand} (ho : env.lanes.get o = .packed ↔ env.lanes.get o' = .packed)
    (h : (object o k).Holds p layouts env c) (h' : (object o' k).Holds p layouts env c') :
    c' = { c with base := o' } ∨ ∀ a b,
      Code.Apart (a + Offset.word c.offset) (VType.scalar c.kind).bytes
        (a + Offset.word c'.offset) (VType.scalar c'.kind).bytes ∧
      Code.Apart (b + Offset.word c.packed) (c.type env.width).bytes
        (b + Offset.word c'.packed) (c'.type env.width).bytes := by
  cases h with
  | @member _ _ _ π ρ v x i hp h hv hx hi =>
    cases h' with
    | @member _ _ _ π' ρ' v' x' j _ h' hv' hx' hj =>
      by_cases hne : π = π'
      · subst hne
        obtain ⟨hpath, rfl⟩ := Prod.mk.inj (Option.some.inj (hx.symm.trans hx'))
        obtain rfl : i = j := congrArg VType.kind (Option.some.inj (hi.symm.trans hj))
        exact .inl (by rw [hpath, hr.kind_eq h hv h' hv'])
      · refine .inr fun a b => ⟨?_, hr.packed_scalars_apart h hv hx hi h' hv' hx' hj hne b⟩
        rw [bytes_code hv, bytes_code hv']
        exact hr.scalars_apart h hv h' hv' hne a
    | shared hp' => exact absurd (ho.1 hp) hp'
  | @shared _ _ _ π v hp h hv =>
    cases h' with
    | member hp' => exact absurd (ho.2 hp') hp
    | @shared _ _ _ π' v' _ h' hv' =>
      by_cases hne : π = π'
      · subst hne
        exact .inl (by rw [hr.kind_eq h hv h' hv'])
      · refine .inr fun a b => ⟨?_, ?_⟩
        · rw [bytes_code hv, bytes_code hv']
          exact hr.scalars_apart h hv h' hv' hne a
        · have hapart := hr.scalars_apart h hv h' hv' hne b
          rw [← bytes_code hv, ← bytes_code hv'] at hapart
          exact hapart

/-- **Placed regions**: two of them are in one place, or in different places, in the same way in
every run and in packed memory. -/
def ArePlaced (layouts : Layouts) (env : WidenEnv) (A : Nat → Operand → Word) (B : Operand → Word)
    (R : Region → Prop) : Prop :=
  ∀ r r', R r → R r' → r.Together env A B r' ∨ r.Disjoint layouts env A B r'

/-- Scalars in regions that do not overlap. -/
lemma Region.Disjoint.cells_apart (hW : 0 < env.width) (h : r.Disjoint layouts env A B r')
    (hr : r.IsMirrored p layouts env) (hr' : r'.IsMirrored p layouts env)
    (hc : r.Holds p layouts env c) (hc' : r'.Holds p layouts env c') :
    c.Apart env.width A B c' := by
  obtain ⟨n, hn, hle⟩ := hc.scalar_range hr
  obtain ⟨n', hn', hle'⟩ := hc'.scalar_range hr'
  obtain ⟨m, hm, hmle⟩ := hc.packed_range hW hr
  obtain ⟨m', hm', hmle'⟩ := hc'.packed_range hW hr'
  refine ⟨fun i hi => ?_, ?_⟩
  · rw [Cell.scalarAt, Cell.scalarAt, hn, hn', hc.base_eq, hc'.base_eq]
    exact (((h.scalar i hi).mono hle).symm.mono hle').symm
  · rw [Cell.packedAt, Cell.packedAt, hm, hm', hc.base_eq, hc'.base_eq]
    exact ((h.packed.mono hmle).symm.mono hmle').symm

/-- Scalars in regions in one place. -/
lemma Region.Together.same_or_apart (h : r.Together env A B r')
    (hr : r.IsMirrored p layouts env) (hc : r.Holds p layouts env c)
    (hc' : r'.Holds p layouts env c') :
    c.Same env.width A B c' ∨ c.Apart env.width A B c' := by
  cases r with
  | object o k =>
    cases r' with
    | object o' k' =>
      obtain ⟨rfl, ho, hA, hB⟩ := h
      have hbase := hc.base_eq
      have hbase' := hc'.base_eq
      obtain rfl | hapart := hc.same_or_apart hr ho hc'
      · refine .inl ⟨rfl, rfl, rfl, rfl, fun i hi => ?_, ?_⟩
        · rw [Cell.scalarAt, Cell.scalarAt, hbase, Region.base, hA i hi]
        · rw [Cell.packedAt, Cell.packedAt, hbase, Region.base, hB]
      · refine .inr ⟨fun i hi => ?_, ?_⟩
        · rw [Cell.scalarAt, Cell.scalarAt, hbase, hbase', Region.base, Region.base, ← hA i hi]
          exact (hapart _ 0).1
        · rw [Cell.packedAt, Cell.packedAt, hbase, hbase', Region.base, Region.base, ← hB]
          exact (hapart 0 _).2
    | spilled => exact h.elim
  | spilled s =>
    cases r' with
    | object => exact h.elim
    | spilled s' =>
      obtain rfl := h
      cases hc with
      | @spilled _ n hs =>
        cases hc' with
        | @spilled _ m hs' =>
          have hkind := Region.intOfSize_injective
            ((Region.toNat_size hs).symm.trans (Region.toNat_size hs'))
          exact .inl ⟨hkind, hkind, rfl, rfl, fun _ _ => rfl, rfl⟩

/-- **Scalars do not overlap** if regions do not. -/
theorem separate_of_arePlaced (hW : 0 < env.width) {R : Region → Prop}
    (hR : ∀ r, R r → r.IsMirrored p layouts env) (h : ArePlaced layouts env A B R) :
    Separate env.width A B fun c => ∃ r, R r ∧ r.Holds p layouts env c := by
  rintro c c' ⟨r, hr, hc⟩ ⟨r', hr', hc'⟩
  obtain htogether | hdisjoint := h r r' hr hr'
  · exact htogether.same_or_apart (hR r hr) hc hc'
  · exact .inr (hdisjoint.cells_apart hW (hR r hr) (hR r' hr') hc hc')

end Places

end Lane.Packing

namespace Lane.Lowering

open Code

section Members

variable {p : Program} {S : ClassRef → Option Struct} {F : ClassRef → Ty → MemberShape}
  {c d : ClassRef} {v : MemberVar} {s : Struct} {m : StructMember} {π : List StructMember}

/-- The last member on a path is a member of the struct of its class. -/
lemma Along.exists_last (h : Along p S c π d v) :
    ∃ s m, S d = some s ∧ s.member? v.name = some m ∧ π.getLast? = some m := by
  induction h with
  | last hs _ hm => exact ⟨_, _, hs, hm, rfl⟩
  | step _ _ _ _ hrest ih =>
    obtain ⟨s, m, hs, hm, hlast⟩ := ih
    exact ⟨s, m, hs, hm, by rw [List.getLast?_cons_of_ne_nil hrest.ne_nil, hlast]⟩

/-- The members of a struct are not larger than the struct. -/
lemma LaidBelow.bytes_eq (hS : LaidBelow p S F c) (hF : ∀ t, (F c t).IsSound) (hs : S c = some s)
    (hlt : s.extent < 2 ^ 63) (hm : m ∈ s.members) : m.shape.bytes = m.shape.extent := by
  obtain ⟨hlays, -⟩ := hS c .refl s hs
  have hsound : ∀ x ∈ s.shapes, x.IsSound := by
    rintro _ hx
    obtain ⟨m, hm, rfl⟩ := List.mem_map.1 hx
    obtain ⟨v, hv, hholds⟩ := exists_of_forall₂ hlays.members.flip hm
    cases ht : v.type with
    | cls q k =>
      obtain ⟨t, hnested, hshape⟩ := hholds.nested q k ht
      exact hshape ▸ (hS k (.single ⟨v, hv, q, ht⟩) t hnested).2.asMember
    | scalar | container | ptr | error => exact hholds.leaf (by rw [ht]; rfl) ▸ hF _
  have hmem : m.shape ∈ s.shapes := List.mem_map_of_mem hm
  obtain ⟨⟨k, hk⟩, -⟩ := commonStep_eq hsound
  have hle : stackExtent 0 s.shapes ≤ s.extent := le_roundUp (hk ▸ Nat.two_pow_pos k)
  exact ((hsound _ hmem).eq (((le_stackExtent hsound).2 _ hmem).trans_lt (hle.trans_lt hlt))).1

end Members

end Lane.Lowering

namespace Lane.Accepted

open Code Lowering Packing

variable {file name : String} {text : List Rune} {e : Elaborated} {width : Int} {ds : Diagnostics}
  {p : LoweredProgram} {c : ClassRef} {k : Nat}

/-- **The layouts of the classes** of an accepted program. -/
theorem mirrored (h : Accepted file text e) (hp : (e.lower name width ds).2 = .ok p)
    (hok : p.isOk) (ds' : Diagnostics) (hW : p.width = 2 ^ k) (hc : e.program.Valid (.cls .var c))
    (hcs : c.isSimd)
    (hlt : ∀ d, Includes e.program c d → (∀ s, p.layouts.struct? d = some s → s.extent < 2 ^ 63) ∧
      ∀ t, (layoutsOf e p ds').struct? d = some t → t.extent < 2 ^ 63) :
    Mirrored e.program p.layouts (layoutsOf e p ds') p.width c := by
  have hwf := h.typed.program_wf
  obtain ⟨-, hlayouts, -⟩ := h.typed.of_lower_isOk hp hok
  obtain ⟨-, hpacked⟩ := h.layoutsOf_isFlawless hp hok ds'
  obtain ⟨t, ht⟩ : ∃ t, (layoutsOf e p ds').struct? c = some t := by
    obtain ⟨k, hk, rfl⟩ := hc
    exact Option.isSome_iff_exists.1 (hpacked k hk hcs)
  have hscalar : LaidBelow e.program p.layouts.struct? (fun _ => instanceShape) c := by
    rw [hlayouts, layoutAll_eq] at hlt ⊢
    exact laidBelow_layoutEach hwf hc fun d hd => (hlt d hd).1
  have hsmall := fun d hd => (hlt d hd).2
  have hlaid := h.laidBelow_packed hp hok ds' hW hc hsmall
  have hleaf : ∀ {t : Ty}, t.IsScalar → t.isClass = false := by
    rintro _ ⟨q, k, rfl⟩
    rfl
  have toLeaf : ∀ {π : List StructMember} {d : ClassRef} {v : MemberVar},
      Along e.program p.layouts.struct? c π d v → v.type.IsScalar →
      ∃ m, ToLeaf e.program p.layouts.struct? c π m := fun halong hv => by
    obtain ⟨-, m, -, -, hlast⟩ := halong.exists_last
    exact ⟨m, .member halong (hleaf hv) hlast⟩
  constructor
  case lands =>
    intro π d v halong hv
    obtain ⟨s, m, hs, hlands, hholds⟩ := halong.lands hwf hscalar
    have hshape := hholds.leaf (hleaf hv)
    obtain ⟨q, k, hvt⟩ := hv
    rw [hvt] at hshape ⊢
    refine ⟨s, m, hs, hlands, by rw [StructMember.type?, hshape]; rfl, ?_⟩
    rw [reach_eq hlands.last, hshape]
    cases k <;> rfl
  case apart =>
    intro π d v π' d' v' halong hv halong' hv' hne
    exact halong.apart_of_ne hwf hscalar (hleaf hv) halong' (hleaf hv') hne
  case leads =>
    intro π d v halong hv
    obtain ⟨ρ, x, hx, hform, -⟩ := h.exists_leadsTo hp hok ds' hW hc ht hsmall hcs halong
    obtain ⟨i, hshape, hmask, hno⟩ := (hform (hleaf hv)).of_scalar hv
    refine ⟨t, ρ, x, i, ht, hx, by rw [StructMember.type?, hshape], hmask, hno, ?_⟩
    -- The member belongs to the packed struct of the class that has the variable.
    obtain ⟨xs, y, hmap, hlast, -, -, htwin⟩ := h.exists_packed_twin hp hok ds' hc ht halong
    obtain ⟨hpath, rfl⟩ := Prod.mk.inj
      (Option.some.inj ((offset?_ofPath hmap hlast).symm.trans hx.offset_eq))
    obtain rfl := ofPath_injective hpath
    obtain ⟨u, m, hu, hm, hlast'⟩ := htwin.right.exists_last
    obtain rfl := Option.some.inj (hlast'.symm.trans hx.lands.last)
    have hincl := htwin.right.mem_vars.1
    have hbelow : LaidBelow e.program (layoutsOf e p ds').struct?
        (fun d => packedShape e.program p.width d) d := fun a ha => hlaid a (hincl.trans ha)
    obtain ⟨hmem, -, -⟩ := hbelow.member hwf hu htwin.right.mem_vars.2 hm
    rw [reach_eq hlast', hbelow.bytes_eq (isSound_packedShape hW) hu ((hlt d hincl).2 u hu)
      hmem,
      hshape, bytes_eq_extent]
    rfl
  case packed_apart =>
    intro u π d v ρ x π' d' v' ρ' x' hu halong hv hx halong' hv' hx' hne
    obtain rfl := Option.some.inj (ht.symm.trans hu)
    obtain ⟨m, hm⟩ := toLeaf halong hv
    obtain ⟨m', hm'⟩ := toLeaf halong' hv'
    exact (h.leaves_apart hp hok ds' hW hc ht hsmall hm hx hm' hx').2
      (fun hpre => hne (halong.eq_of_prefix hwf hscalar (hleaf hv) halong' hpre))
      fun hpre => hne (halong'.eq_of_prefix hwf hscalar (hleaf hv') halong hpre).symm

end Lane.Accepted
