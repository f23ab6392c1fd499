import Lane.Proofs.Packing.Alike
import Lane.Proofs.Packing.Regions

set_option relaxedAutoImplicit false
set_option autoImplicit false

/-!
# Plain functions

The code of a function on scalars and on instances of flat classes is plain if it calls no function
and computes no address of a member: every access is to a scalar in a region. The lanes of its
operands are as packed code needs them.

## Main definitions

* `Lane.Code.Instr.isCallOrLea`: calls, and addresses of members.

## Main results

* `Lane.Packing.isPlain_of_rooted`: accesses are to scalars in regions.
* `Lane.Packing.lanesFit_ofFunction`: the lanes of operands.
* `Lane.Packing.exists_counterpart`: what is accessed has a counterpart.
-/

namespace Lane.Code

/-- Whether an instruction calls a function or computes the address of a member. -/
def Instr.isCallOrLea : Instr → Bool
  | .call .. | .lea .. => true
  | _ => false

end Lane.Code

namespace Lane.Packing

open Code Lowering

/-! ## Accesses -/

section Plain

variable {lenv : Lowering.Env} {env : WidenEnv} {ρ : Operand → ClassRef → Prop} {R : Region → Prop}
  {l : Layouts} {D : FuncDecl → Prop} {i : Instr} {o b : Operand} {off : Option Offset} {t : VType}

/-- A scalar by its kind. -/
lemma eq_scalar (ht : t.lanes = 0) : t = .scalar t.kind := by
  obtain ⟨k, n⟩ := t
  obtain rfl : n = 0 := ht
  rfl

/-- Scalars that are no addresses are plain. -/
lemma isPlainOperand_of (ho : o.IsScalar) (hk : o.type.kind ≠ .ptr) : IsPlainOperand o :=
  ⟨o.type.kind, hk, eq_scalar ho⟩

/-- There is an integer for the bytes of every machine scalar. -/
lemma size_intOfSize_size (k : Kind) : (Kind.intOfSize k.size).size = k.size := by
  cases k <;> rfl

/-- **A scalar in a region** is accessed. -/
lemma exists_cell (hb : RootedAt lenv ρ b off t) (ha : Accesses b off t) (ht : t.lanes = 0)
    (hobject : ∀ c, ρ b c → R (.object b c) ∧
      Mirrored lenv.program lenv.layouts env.layouts env.width c)
    (hspilled : ∀ s, b = .slot s → s.struct = none → R (.spilled s)) :
    ∃ c, (∃ r, R r ∧ r.Holds lenv.program lenv.layouts env c) ∧ c.base = b ∧ c.offset = off ∧
      c.Takes t := by
  obtain ⟨rfl, hk, s, rfl, hstruct, hsize⟩ | ⟨c, π, d, v, hc, rfl, halong, hv⟩ := hb
  · have hslot : s.size = .ofNat (Kind.intOfSize t.kind.size).size := by
      rw [hsize, size_intOfSize_size, eq_scalar ht]
      rfl
    exact ⟨_, ⟨_, hspilled s rfl hstruct, .spilled hslot⟩, rfl, rfl, t.kind, eq_scalar ht, hk,
      .inr ⟨rfl, (size_intOfSize_size _).symm⟩⟩
  · obtain ⟨hR, hmirrored⟩ := hobject c hc
    obtain ⟨s, m, -, hlands, hm, -⟩ := hmirrored.lands π d v halong hv
    have hlast : Offset.last? (some (.ofPath π)) = some m := by
      rw [Offset.last?, Option.bind_some, path_ofPath]
      exact hlands.last
    have htype : t = v.type.code :=
      (Option.some.inj (hm.symm.trans (type?_of_accesses ha hlast))).symm
    have htakes : ∃ k, t = .scalar k ∧ k ≠ .ptr ∧ k = v.type.code.kind := by
      refine ⟨t.kind, eq_scalar ht, ?_, congrArg _ htype⟩
      rw [htype]
      exact hv.kind_ne
    obtain ⟨k, hk, hne, hkind⟩ := htakes
    by_cases hp : env.lanes.get b = .packed
    · obtain ⟨u, ρ', x, k', -, hleads, hk', -⟩ := hmirrored.leads π d v halong hv
      exact ⟨_, ⟨_, hR, .member hp halong hv hleads.offset_eq hk'⟩, rfl, rfl, k, hk,
        hne, .inl hkind⟩
    · exact ⟨_, ⟨_, hR, .shared hp halong hv⟩, rfl, rfl, k, hk, hne, .inl hkind⟩

/-- **Rooted instructions are plain** if they call nothing and compute no address of a member. -/
theorem isPlain_of_rooted (hroot : Rooted lenv ρ i) (ht : i.WellTyped D)
    (hreg : Lowering.Regular l i) (hcall : i.isCallOrLea = false)
    (hobject : ∀ b off t, i.access? = some (b, off, t) → ∀ c, ρ b c → R (.object b c) ∧
      Mirrored lenv.program lenv.layouts env.layouts env.width c)
    (hspilled : ∀ s off t, i.access? = some (.slot s, off, t) → s.struct = none → R (.spilled s)) :
    IsPlain (fun c => ∃ r, R r ∧ r.Holds lenv.program lenv.layouts env c) i := by
  have hscalar := hreg.scalar
  cases i with
  | label | goto => trivial
  | branch c yes no =>
    refine isPlainOperand_of (hscalar c (by simp [Instr.operands])) ?_
    rw [ht.2]
    decide
  | assign kind d args =>
    obtain ⟨hd, -, hcomputes⟩ := ht
    have hall := List.forall_mem_cons.1 hscalar
    by_cases hmove : kind = .move
    · subst hmove
      obtain ⟨a, rfl, hat⟩ := List.map_eq_singleton_iff.1 hcomputes
      by_cases hptr : d.type.kind = .ptr
      · obtain ⟨r, rfl⟩ | hne := hroot
        · exact .inr ⟨rfl, r, a, rfl, (eq_scalar hall.1).trans (congrArg _ hptr), rfl⟩
        · exact absurd hptr hne
      · exact .inl ⟨hd, isPlainOperand_of hall.1 hptr, List.forall_mem_singleton.2
          (isPlainOperand_of (hall.2 a (List.mem_singleton_self a)) (hat ▸ hptr)),
            by decide, by decide,
          fun _ => ⟨a, rfl⟩⟩
    · have hplain : kind ≠ .ptrAdd ∧ ∀ a ∈ d :: args, a.type.kind ≠ .ptr := by
        cases kind <;> first | exact absurd rfl hmove | exact hroot
      have hsplat : kind ≠ .splat := by
        rintro rfl
        exact hcomputes
      obtain ⟨hadd, hkinds⟩ := hplain
      obtain ⟨hkind, hkinds⟩ := List.forall_mem_cons.1 hkinds
      exact .inl ⟨hd, isPlainOperand_of hall.1 hkind,
        fun a ha => isPlainOperand_of (hall.2 a ha) (hkinds a ha), hsplat, hadd,
        fun h => absurd h hmove⟩
  | load d p o =>
    exact ⟨ht.1, exists_cell hroot ht.2 (hscalar d (by simp [Instr.operands]))
      (hobject p o d.type rfl) fun s hs => hspilled s o d.type (hs ▸ rfl)⟩
  | store p o a =>
    exact exists_cell hroot ht.2 (hscalar a (by simp [Instr.operands]))
      (hobject p o a.type rfl) fun s hs => hspilled s o a.type (hs ▸ rfl)
  | alloc | memcpy | params | results => exact hroot.elim
  | lea | call => cases hcall

end Plain

/-! ## Lanes -/

section Lanes

variable {e : PackEnv} {g : DeclLanes} {f : Function} {l : Layouts} {D : FuncDecl → Prop}
  {C : Cell → Prop}

/-- Addresses are not raised to values that vary, and scalars are not raised to addresses. -/
def IsApt (o : Operand) (lane : LaneKind) : Prop :=
  (o.type = .ptr → lane ≠ .varying) ∧ (IsPlainOperand o → lane ≠ .packed)

/-- Uniform lanes suit every operand. -/
lemma isApt_uniform (o : Operand) : IsApt o .uniform := ⟨nofun, nofun⟩

/-- A plain operand is not of the type of addresses. -/
lemma IsPlainOperand.type_ne {o : Operand} (h : IsPlainOperand o) : o.type ≠ .ptr := fun ht =>
  h.kind_ne (congrArg VType.kind ht)

/-- Varying lanes suit plain operands. -/
lemma isApt_varying {o : Operand} (h : IsPlainOperand o) : IsApt o .varying :=
  ⟨fun ht => absurd ht h.type_ne, nofun⟩

/-- What is computed from apt operands. -/
lemma isApt_of_mem_raised {m : Lanes} {i : Instr} (hm : ∀ o, IsApt o (m.get o))
    (hi : i.WellTyped D) (hp : IsPlain C i) : ∀ q ∈ m.raised e i, IsApt q.1 q.2 := by
  -- But for moves, which pass on lanes, what is computed from plain operands varies or is uniform.
  have huniform : ∀ {o : Operand} {lane : LaneKind}, IsPlainOperand o →
      lane = .varying ∨ lane = .uniform → IsApt o lane := by
    rintro o lane ho (rfl | rfl)
    · exact isApt_varying ho
    · exact isApt_uniform o
  rintro ⟨o, lane⟩ hq
  cases i with
  | assign kind d args =>
    obtain ⟨rfl, rfl⟩ := Prod.mk.inj (List.mem_singleton.1 hq)
    obtain ⟨-, hd, hargs, -, -, hmove⟩ | ⟨rfl, r, a, rfl, hr, rfl⟩ := hp
    · by_cases hk : kind = .move
      · obtain ⟨a, rfl⟩ := hmove hk
        subst hk
        refine ⟨fun ht => absurd ht hd.type_ne, fun _ => (hm a).2 (hargs a ?_)⟩
        exact List.mem_singleton_self a
      · refine huniform hd ?_
        unfold Lanes.computed
        split
        · exact absurd rfl hk
        · exact .inr rfl
        · split <;> simp
    · have hat : a.type = .ptr := (List.cons.inj hi.2.2).1.trans hr
      exact ⟨fun _ => (hm a).1 hat, fun h => absurd hr h.type_ne⟩
  | load d p off =>
    obtain ⟨rfl, rfl⟩ := Prod.mk.inj (List.mem_singleton.1 hq)
    obtain ⟨-, c, -, -, -, k, hk, hne, -⟩ := hp
    refine huniform ⟨k, hne, hk⟩ ?_
    unfold Lanes.loaded
    split
    · exact .inr rfl
    · split
      · exact .inl rfl
      · split
        · split <;> simp
        · exact .inr rfl
  | store p off a =>
    have hraised : ∃ s, (o, lane) = (.slot s, .packed) := by
      cases p with
      | slot s =>
        cases off with
        | none =>
          simp only [Lanes.raised] at hq
          split at hq
          · exact ⟨s, List.mem_singleton.1 hq⟩
          · cases hq
        | some => cases hq
      | const | reg | var | absent => cases hq
    obtain ⟨s, hs⟩ := hraised
    obtain ⟨rfl, rfl⟩ := Prod.mk.inj hs
    exact ⟨fun _ h => (by cases h), fun h => absurd rfl h.type_ne⟩
  | label | goto | branch => cases hq
  | lea | alloc | memcpy | call | params | results => exact hp.elim

/-- **The lanes of the operands of plain code** are as packed code needs them. -/
theorem lanesFit_ofFunction {W : Nat} (hf : f.Regular l) (ht : f.WellTyped D)
    (hi : ∀ i ∈ f.instrs, i.WellTyped D) (hg : g.Widens W f.decl)
    (hp : ∀ i ∈ f.instrs, IsPlain C i) :
    LanesFit ⟨e, Lanes.ofFunction e g f⟩ f.instrs := by
  have happt : ∀ o, IsApt o ((Lanes.ofFunction e g f).get o) := by
    refine (Lanes.settle_induction (P := fun m => ∀ o, IsApt o (m.get o))
      (fun i hi' m hm q hq m' _ hm' _ o => ?_) fun o => ?_).2
    · rw [Lanes.get_set]
      split
      · rename_i he
        exact he ▸ isApt_of_mem_raised hm (hi i hi') (hp i hi') q hq
      · exact hm' o
    · obtain h | h | ⟨⟨s, rfl⟩, h⟩ := Lanes.get_start e g f o
      · have hsplits := hg.splits ht h
        exact ⟨fun hptr hv => hsplits.1 hv hptr, fun ho hpacked => by
          have hv := hsplits.2 ho.type_ne
          cases hv.symm.trans hpacked⟩
      · rw [h.2]
        exact isApt_uniform o
      · rw [h]
        exact ⟨nofun, fun ho => absurd rfl ho.type_ne⟩
  refine ⟨Lanes.settle_settled e f.instrs _, fun c hc => ?_, fun o => (happt o).2,
    fun o => (happt o).1, fun d p off hload hne => ?_⟩
  · cases (Lanes.get_const hf c).symm.trans hc
  · obtain ⟨r, rfl⟩ := (hf.instrs _ hload).fresh d (List.mem_singleton_self d)
    have hptr : p.type = .ptr := (hi _ hload).2.1.2
    have hget : (Lanes.ofFunction e g f).get (.reg r) =
        Lanes.loaded e (Lanes.ofFunction e g f) p off :=
      Lanes.get_eq_loaded hf hload ((happt p).1 hptr)
    show (Lanes.ofFunction e g f).get (.reg r) ≠ .varying
    rw [hget, Lanes.loaded_of_ne_packed hne]
    decide

end Lanes

/-! ## Counterparts -/

section Counterparts

variable {env : WidenEnv} {σ σ' σ'' : WidenState} {ps rs : List Operand}
  {L M : List Reg} {i : Instr} {a b d : Operand} {off : Option Offset} {t : VType}

/-- Whether an operand has a counterpart. -/
def HasCounterpart (σ : WidenState) (o : Operand) : Prop := ∃ n, σ.operands.lookup o = some n

/-- What has a counterpart keeps it. -/
lemma HasCounterpart.mono (h : HasCounterpart σ b) (he : Extends σ σ') : HasCounterpart σ' b :=
  h.imp fun _ => he.operands _ _

/-- An address that is loaded from has a counterpart. -/
lemma hasCounterpart_of_load (h : Makes env (load d b off) σ () σ') (hσ : Orderly env σ) :
    HasCounterpart σ' b := by
  -- The address comes after the register, or before it.
  have plain : ∀ {q : Option Offset} {σ σ' : WidenState}, Orderly env σ → Makes env (do
      let n ← operand d
      emit (.load n (← operand b) q)) σ () σ' → HasCounterpart σ' b := by
    intro q σ σ' hσ h
    simp only [makes_bind, makes_emit] at h
    obtain ⟨n, σ₁, hn, p, σ₂, hp, rfl⟩ := h
    exact ⟨p, (operand_spec hp (operand_spec hn hσ).1).2.2.2⟩
  simp only [load, makes_bind, makes_laneOf] at h
  obtain ⟨_, _, ⟨rfl, rfl⟩, h⟩ := h
  split at h
  · exact plain hσ h
  · simp only [makes_bind, makes_packedOffset] at h
    obtain ⟨q, _, ⟨-, rfl⟩, h⟩ := h
    split at h
    · simp only [makes_bind, makes_emit] at h
      obtain ⟨r, σ₁, hr, p, σ₂, hp, _, _, rfl, n, σ₃, hn, rfl⟩ := h
      obtain ⟨h₁, -⟩ := newReg_spec hr hσ
      obtain ⟨h₂, -, -, hlook⟩ := operand_spec hp h₁
      obtain ⟨-, he, -⟩ := operand_spec hn (h₂.code _)
      exact ⟨p, he.operands _ _ hlook⟩
    · exact plain hσ h

/-- An address that is stored to has a counterpart. -/
lemma hasCounterpart_of_store (h : Makes env (store b off a) σ () σ') (hσ : Orderly env σ) :
    HasCounterpart σ' b := by
  -- The address comes before the value, or after a mask.
  have plain : ∀ {x : Widen Operand} {q : Option Offset},
      (∀ {σ n σ'}, Makes env x σ n σ' → Orderly env σ → Extends σ σ') → Makes env (do
        let p ← operand b
        emit (.store p q (← x))) σ () σ' → HasCounterpart σ' b := by
    intro x q hx h
    simp only [makes_bind, makes_emit] at h
    obtain ⟨p, σ₁, hp, n, σ₂, hn, rfl⟩ := h
    obtain ⟨h₁, -, -, hlook⟩ := operand_spec hp hσ
    exact ⟨p, (hx hn h₁).operands _ _ hlook⟩
  have shared : ∀ {q : Option Offset} {x : Obstacle}, Makes env (do
      if (← laneOf a) = .varying then refuse x
      let p ← operand b
      emit (.store p q (← operand a))) σ () σ' → HasCounterpart σ' b := by
    intro q x h
    simp only [makes_bind, makes_laneOf] at h
    obtain ⟨_, _, ⟨rfl, rfl⟩, h⟩ := h
    split at h
    · simp at h
    · exact plain (fun hn hσ => (operand_spec hn hσ).2.1) h
  simp only [store, makes_bind, makes_laneOf] at h
  obtain ⟨_, _, ⟨rfl, rfl⟩, h⟩ := h
  split at h
  · exact shared h
  · split at h
    · exact plain (fun hn hσ => (vector_spec hn hσ).2.1) h
    · simp only [makes_bind, makes_packedOffset] at h
      obtain ⟨q, _, ⟨-, rfl⟩, h⟩ := h
      split at h
      · simp only [makes_bind, makes_emit] at h
        obtain ⟨r, σ₁, hr, n, σ₂, hn, _, _, rfl, p, σ₃, hp, rfl⟩ := h
        obtain ⟨h₁, -⟩ := newReg_spec hr hσ
        obtain ⟨h₂, -⟩ := vector_spec hn h₁
        exact ⟨p, (operand_spec hp (h₂.code _)).2.2.2⟩
      · split at h
        · exact plain (fun hn hσ => (vector_spec hn hσ).2.1) h
        · exact shared h

/-- **What is accessed has a counterpart** in the end. -/
theorem hasCounterpart_of_access : ∀ {is : List Instr} {L M : List Reg} {σ σ' : WidenState},
    Makes env (code ps rs is) σ () σ' → Ready env σ L M → Confined L is →
    (is.flatMap Instr.defines).Nodup → i ∈ is → i.access? = some (b, off, t) → HasCounterpart σ' b
  | [], _, _, _, _, _, _, _, _, hi, _ => nomatch hi
  | j :: is, L, M, σ, σ'', h, hr, hc, hn, hi, hacc => by
    obtain ⟨_, σ', hj, his⟩ := makes_bind.1 h
    rw [List.flatMap_cons, List.nodup_append'] at hn
    obtain ⟨js, hjs⟩ := instr_renders hj hr hc.1 hn.1
    have hready : Ready env σ' (live L [j]) (live M js) := ⟨hjs.orderly, hjs.apart, hjs.carries⟩
    obtain rfl | hi := List.mem_cons.1 hi
    · obtain ⟨ks, hks⟩ := code_renders his hready hc.2 hn.2.1
      refine HasCounterpart.mono (σ := σ') ?_ hks.extend
      cases i with
      | load d p o =>
        obtain ⟨rfl, -⟩ := Prod.mk.inj (Option.some.inj hacc)
        exact hasCounterpart_of_load hj hr.orderly
      | store p o a =>
        obtain ⟨rfl, -⟩ := Prod.mk.inj (Option.some.inj hacc)
        exact hasCounterpart_of_store hj hr.orderly
      | _ => cases hacc
    · exact hasCounterpart_of_access his hready hc.2 hn.2.1 hi hacc

end Counterparts

end Lane.Packing
