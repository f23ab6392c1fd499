import Lane.Proofs.Code.Typed
import Lane.Proofs.Packing.Entries
import Lane.Proofs.Packing.Rising
import Lane.Proofs.Packing.Widen

set_option relaxedAutoImplicit false
set_option autoImplicit false

/-!
# Packed code is well typed

The packed version of well-typed code is well typed on vectors, unless an address differs between
the instances: such an address is used as a vector of addresses, which nothing can be loaded from or
stored to.

## Main definitions

* `Lane.Packing.Setting`: what the typing of packed code rests on.
* `Lane.Code.Instr.addresses`: the operands that an instruction uses as addresses.

## Main results

* `Lane.Packing.instr_packed`: which instructions have well-typed packed code.
* `Lane.Packing.packFunction_wideTyped_iff`: which functions have a well-typed packed version.
-/

namespace Lane.Code

/-- The operands that an instruction uses as addresses of what it accesses. -/
def Instr.addresses : Instr → List Operand
  | .load _ p _ | .store p _ _ | .lea _ p _ => [p]
  | _ => []

/-- What an instruction reads or writes: at a distance from an address, a value of some type. -/
def Instr.access? : Instr → Option (Operand × Option Offset × VType)
  | .load d p o => some (p, o, d.type)
  | .store p o a => some (p, o, a.type)
  | _ => none

/-- The addresses that a function gets, gives back or uses. -/
def Function.addresses (f : Function) : List Operand :=
  (f.params ++ f.results).filter (fun o => o.type = .ptr) ++ f.instrs.flatMap Instr.addresses

end Lane.Code

namespace Lane.Packing

open Code Lowering

/-- All values but addresses may differ between the instances. -/
def Splits (t : VType) (lane : LaneKind) : Prop := lane = .varying ↔ t ≠ .ptr

/-- **The packed version of a declaration**: all parameters and results but addresses may differ
between the instances, and they are of the types that their lanes ask for. -/
structure DeclLanes.Widens (W : Nat) (g : DeclLanes) (d : FuncDecl) : Prop where
  params_split : List.Forall₂ Splits d.params g.params
  params_eq : g.decl.params = (d.params.zip g.params).map fun (t, lane) => lane.type W t
  results_split : List.Forall₂ Splits d.results g.results
  results_eq : g.decl.results = (d.results.zip g.results).map fun (t, lane) => lane.type W t

/-- **What the typing of packed code rests on**: regular and well-typed code of a function, packed
layouts that represent the values in memory, and declarations of packed versions. Scalar code refers
to the declarations `D`, packed code to the declarations `D'`. -/
structure Setting (D D' : FuncDecl → Prop) (l : Layouts) (g : DeclLanes) (f : Function)
    (env : WidenEnv) : Prop where
  regular : f.Regular l
  typed : ∀ i ∈ f.instrs, i.WellTyped D
  two_le : 2 ≤ env.width
  lanes_eq : env.lanes = Lanes.ofFunction env.toPackEnv g f
  represents : ∀ o off last, l.Leads o → env.layouts.offset? o = some (off, last) →
    ∃ m, Offset.last? o = some m ∧ Offset.last? (some off) = some last.member ∧
      ∀ t, m.type? = some t → Represents env.width t last
  packed : ∀ c d, D c → env.packed? c = some d → d.Widens env.width c ∧ D' d.decl
  shared : ∀ c, D c → D' c

/-- **Packed code** was added. -/
structure Emits (env : WidenEnv) (σ σ' : WidenState) (js : List Instr) : Prop where
  orderly : Orderly env σ'
  extends_ : Extends σ σ'
  code_eq : σ'.code = σ.code ++ js

section Emits

variable {env : WidenEnv} {σ σ' σ'' : WidenState} {js ks : List Instr} {o n : Operand}

/-- Nothing is emitted. -/
lemma Emits.refl (hσ : Orderly env σ) : Emits env σ σ [] := ⟨hσ, .refl σ, by simp⟩

/-- Code is emitted twice. -/
lemma Emits.trans (h : Emits env σ σ' js) (h' : Emits env σ' σ'' ks) :
    Emits env σ σ'' (js ++ ks) :=
  ⟨h'.orderly, h.extends_.trans h'.extends_, by rw [h'.code_eq, h.code_eq, List.append_assoc]⟩

/-- An instruction is emitted. -/
lemma Emits.emit (h : Emits env σ σ' js) (j : Instr) :
    Emits env σ { σ' with code := σ'.code ++ [j] } (js ++ [j]) :=
  h.trans ⟨h.orderly.code _, (Extends.refl σ').code _, rfl⟩

end Emits

section Typing

variable {D D' : FuncDecl → Prop} {l : Layouts} {g : DeclLanes} {f : Function} {env : WidenEnv}
  {σ σ' : WidenState} {o n d p a : Operand} {os ns : List Operand} {i : Instr} {t : VType}

/-! ## Counterparts -/

/-- Vectors of at least two lanes are vectors. -/
lemma isVector_vector {W : Nat} (t : VType) (hW : 2 ≤ W) : (t.vector W).isVector := by
  have : 1 < W := hW
  exact decide_eq_true this

/-- The elements of a vector of scalars. -/
lemma elem_vector {n : Nat} (ht : t.lanes = 0) : (t.vector n).elem = t := by
  obtain ⟨k, lanes⟩ := t
  obtain rfl : lanes = 0 := ht
  rfl

/-- No lanes make no vector. -/
lemma vector_zero (ht : t.lanes = 0) : t.vector 0 = t := by
  obtain ⟨k, lanes⟩ := t
  obtain rfl : lanes = 0 := ht
  rfl

/-- **Typed counterparts** of operands: of the type that the lanes ask for. -/
structure TypedAs (env : WidenEnv) (o n : Operand) : Prop where
  type_eq : n.type = (env.lanes.get o).type env.width o.type
  ne_absent : n ≠ .absent
  isTarget : o.IsTarget → n.IsTarget
  isCounterpart : IsCounterpart env o n

/-- Counterparts have the types of their lanes. -/
lemma Setting.typedAs (h : Setting D D' l g f env) (hn : IsCounterpart env o n) :
    TypedAs env o n := by
  cases o with
  | const c =>
    obtain rfl : n = .const c := hn
    refine ⟨?_, nofun, nofun, rfl⟩
    rw [h.lanes_eq, Lanes.get_const h.regular, LaneKind.type, if_neg nofun]
  | reg r => cases n <;> first | exact hn.elim | exact ⟨hn, nofun, fun _ => trivial, hn⟩
  | var v => cases n <;> first | exact hn.elim | exact ⟨hn, nofun, fun _ => trivial, hn⟩
  | slot x =>
    cases n with
    | slot y =>
      refine ⟨?_, nofun, nofun, hn⟩
      rw [h.lanes_eq, LaneKind.type, if_neg (Lanes.slot_ne_varying h.regular h.typed x)]
      rfl
    | _ => exact hn.elim
  | absent => exact hn.elim

/-- The counterpart of an operand that is shared by all instances. -/
lemma TypedAs.hasType (h : TypedAs env o n) (hv : env.lanes.get o ≠ .varying) :
    n.HasType o.type := by
  refine ⟨h.ne_absent, ?_⟩
  rw [h.type_eq, LaneKind.type, if_neg hv]

/-- The counterpart of an operand that differs between the instances. -/
lemma TypedAs.hasType_vector (h : TypedAs env o n) (hv : env.lanes.get o = .varying) :
    n.HasType (o.type.vector env.width) := by
  refine ⟨h.ne_absent, ?_⟩
  rw [h.type_eq, LaneKind.type, if_pos hv]

/-- Counterparts are vectors if and only if there are different values. -/
lemma TypedAs.isVector_iff (h : TypedAs env o n) (hW : 2 ≤ env.width) (ho : o.IsScalar) :
    n.type.isVector ↔ env.lanes.get o = .varying := by
  rw [h.type_eq, LaneKind.type]
  split
  · simpa [*] using isVector_vector o.type hW
  · simp [VType.isVector, show o.type.lanes = 0 from ho, *]

/-- An address that differs between the instances is no address. -/
lemma TypedAs.ne_varying_of_hasType (h : TypedAs env o n) (hW : 2 ≤ env.width)
    (hn : n.HasType .ptr) : env.lanes.get o ≠ .varying := by
  intro hv
  have htype := (h.hasType_vector hv).2
  rw [hn.2] at htype
  have hlanes : 0 = env.width := congrArg VType.lanes htype
  omega

/-- **Operands** have typed counterparts. -/
lemma operand_typed (hs : Setting D D' l g f env) (h : Makes env (operand o) σ n σ')
    (hσ : Orderly env σ) : Emits env σ σ' [] ∧ TypedAs env o n := by
  obtain ⟨hord, hext, hcode, hn⟩ := operand_spec h hσ
  exact ⟨⟨hord, hext, by simp [hcode]⟩, hs.typedAs (hord.counterpart o n hn)⟩

/-- Operands are packed with the types of their lanes. -/
lemma operands_typed (hs : Setting D D' l g f env) (h : Makes env (operands os) σ ns σ')
    (hσ : Orderly env σ) : Emits env σ σ' [] ∧ List.Forall₂ (TypedAs env) os ns := by
  obtain ⟨hord, hext, hcode, hns⟩ := operands_spec h hσ
  exact ⟨⟨hord, hext, by simp [hcode]⟩, hns.imp fun o n hn => hs.typedAs (hord.counterpart o n hn)⟩

/-- **Code for operands** was added, which is well typed and accesses no memory. -/
structure Prepares (D' : FuncDecl → Prop) (env : WidenEnv) (σ σ' : WidenState) (js : List Instr) :
    Prop where
  emits : Emits env σ σ' js
  typed : ∀ j ∈ js, j.WideTyped env.width D'
  access_eq : js.filterMap Instr.access? = []

/-- No code was needed. -/
lemma Prepares.of_emits (h : Emits env σ σ' []) : Prepares D' env σ σ' [] :=
  ⟨h, List.forall_mem_nil _, rfl⟩

/-- Code is prepared twice. -/
lemma Prepares.trans {σ'' : WidenState} {js ks : List Instr} (h : Prepares D' env σ σ' js)
    (h' : Prepares D' env σ' σ'' ks) : Prepares D' env σ σ'' (js ++ ks) :=
  ⟨h.emits.trans h'.emits, List.forall_mem_append.2 ⟨h.typed, h'.typed⟩, by
    rw [List.filterMap_append, h.access_eq, h'.access_eq, List.append_nil]⟩

/-- An instruction that accesses no memory is emitted. -/
lemma Prepares.emit {js : List Instr} {j : Instr} (h : Prepares D' env σ σ' js)
    (hj : j.WideTyped env.width D') (hnone : j.access? = none) :
    Prepares D' env σ { σ' with code := σ'.code ++ [j] } (js ++ [j]) :=
  ⟨h.emits.emit j, List.forall_mem_append.2 ⟨h.typed, List.forall_mem_singleton.2 hj⟩, by
    simp [h.access_eq, hnone]⟩

/-- **Vectors** have one lane for each instance. -/
lemma vector_typed (hs : Setting D D' l g f env) (h : Makes env (vector o) σ n σ')
    (hσ : Orderly env σ) (ho : o.IsScalar) :
    ∃ js, Prepares D' env σ σ' js ∧ n.HasType (o.type.vector env.width) := by
  obtain ⟨hord, hext, n₀, hn₀, hcases⟩ := vector_spec h hσ
  have htyped := hs.typedAs (hord.counterpart o n₀ hn₀)
  obtain ⟨hv, rfl, hcode⟩ | ⟨hv, hcode, r, rfl, hr, -⟩ := hcases
  · exact ⟨[], .of_emits ⟨hord, hext, by simp [hcode]⟩,
      htyped.hasType_vector ((htyped.isVector_iff hs.two_le ho).1 hv)⟩
  · have hnv : env.lanes.get o ≠ .varying := fun hv' =>
      absurd ((htyped.isVector_iff hs.two_le ho).2 hv') (by simp [hv])
    have htype : n₀.type = o.type := (htyped.hasType hnv).2
    have hr : (Operand.reg r).type = o.type.vector env.width := by rw [Operand.type, hr, htype]
    have helem : (o.type.vector env.width).elem = o.type := elem_vector ho
    have hsplat : (Instr.assign .splat (.reg r) [n₀]).WideTyped env.width D' := by
      refine ⟨trivial, by simpa using htyped.ne_absent, ?_⟩
      rw [hr]
      exact ⟨isVector_vector _ hs.two_le, rfl, by rw [helem, ← htype]; rfl⟩
    exact ⟨_, ⟨⟨hord, hext, hcode⟩, List.forall_mem_singleton.2 hsplat, rfl⟩,
      Operand.noConfusion, hr⟩

/-- Operands are made vectors, by code that has types. -/
lemma vectors_typed (hs : Setting D D' l g f env) : ∀ {os ns : List Operand} {σ σ' : WidenState},
    Makes env (vectors os) σ ns σ' → Orderly env σ → (∀ o ∈ os, o.IsScalar) →
    ∃ js, Prepares D' env σ σ' js ∧
      List.Forall₂ (fun o n => n.HasType (o.type.vector env.width)) os ns
  | [], _, _, _, h, hσ, _ => by
    obtain ⟨rfl, rfl⟩ := makes_pure.1 h
    exact ⟨[], .of_emits (.refl hσ), .nil⟩
  | o :: os, _, _, _, h, hσ, ho => by
    obtain ⟨ho, hos⟩ := List.forall_mem_cons.1 ho
    simp only [vectors, makes_bind, makes_pure] at h
    obtain ⟨n, σ₁, hn, ns, σ₂, hns, rfl, rfl⟩ := h
    obtain ⟨js, hjs, hn⟩ := vector_typed hs hn hσ ho
    obtain ⟨ks, hks, hns⟩ := vectors_typed hs hns hjs.emits.orderly hos
    exact ⟨js ++ ks, hjs.trans hks, .cons hn hns⟩

/-- **Packed accesses**: where a value of type `t` is read or written in scalar code, packed code
reads or writes the packed member that the path leads to. Without a path there is one value for each
instance. Memory that is not packed is accessed as it is. -/
inductive Stored (l : PackedLayouts) (W : Nat) (t : VType) :
    LaneKind → Option Offset → Option Offset → VType → Prop
  | member {o : Option Offset} {off : Offset} {x : PackedMember} {u : VType}
      (ho : ¬Offset.isTrivial o) (hoff : l.offset? o = some (off, x)) (hx : Represents W t x)
      (hu : x.member.type? = some u) : Stored l W t .packed o (some off) u
  | whole {o o' : Option Offset} (ho : Offset.isTrivial o) (ho' : Offset.isTrivial o') :
      Stored l W t .packed o o' (t.vector W)
  | shared {o : Option Offset} : Stored l W t .uniform o o t

/-- **Packed addresses**: the address of a member of packed memory is that of the packed member, and
is packed itself. Other addresses are computed as they are. -/
inductive Placed (l : PackedLayouts) :
    LaneKind → LaneKind → Option Offset → Option Offset → Prop
  | member {o : Option Offset} {off : Offset} {x : PackedMember}
      (hoff : l.offset? o = some (off, x)) : Placed l .packed .packed o (some off)
  | shared {lane : LaneKind} {o : Option Offset} : Placed l .uniform lane o o

/-- **The packed code of an instruction**, with the counterparts `ops` of operands. It is well typed
unless an address differs between the instances. It accesses memory once where the instruction does,
at the counterpart of the address, and computes an address where the instruction does. -/
structure IsPacked (D' : FuncDecl → Prop) (env : WidenEnv) (ops : List (Operand × Operand))
    (i : Instr) (js : List Instr) : Prop where
  typed_iff : (∀ j ∈ js, j.WideTyped env.width D') ↔
    ∀ p ∈ i.addresses, env.lanes.get p ≠ .varying
  access : ∀ p o t, i.access? = some (p, o, t) → env.lanes.get p ≠ .varying →
    ∃ q o' u, ops.lookup p = some q ∧ js.filterMap Instr.access? = [(q, o', u)] ∧
      Stored env.layouts env.width t (env.lanes.get p) o o' u
  access_eq : i.access? = none → js.filterMap Instr.access? = []
  address : ∀ d p o, i = .lea d p o → env.lanes.get p ≠ .varying →
    ∃ n q o', ops.lookup d = some n ∧ ops.lookup p = some q ∧ js = [.lea n q o'] ∧
      Placed env.layouts (env.lanes.get p) (env.lanes.get d) o o'

/-- Counterparts may be added. -/
lemma IsPacked.mono {ops ops' : List (Operand × Operand)} {js : List Instr}
    (h : IsPacked D' env ops i js)
    (hops : ∀ o n, ops.lookup o = some n → ops'.lookup o = some n) : IsPacked D' env ops' i js where
  typed_iff := h.typed_iff
  access p o t hi hv := by
    obtain ⟨q, o', u, hq, hrest⟩ := h.access p o t hi hv
    exact ⟨q, o', u, hops p q hq, hrest⟩
  access_eq := h.access_eq
  address d p o hi hv := by
    obtain ⟨n, q, o', hn, hq, hrest⟩ := h.address d p o hi hv
    exact ⟨n, q, o', hops d n hn, hops p q hq, hrest⟩

/-- Packed code of an instruction was added. -/
def EmitsPacked (D' : FuncDecl → Prop) (env : WidenEnv) (σ σ' : WidenState) (i : Instr) : Prop :=
  ∃ js, Emits env σ σ' js ∧ IsPacked D' env σ'.operands i js

/-- Code that uses no addresses is well typed anyway. -/
lemma EmitsPacked.of_prepares {js : List Instr} (h : Prepares D' env σ σ' js)
    (hp : i.addresses = []) (ha : i.access? = none) : EmitsPacked D' env σ σ' i :=
  ⟨js, h.emits, iff_of_true h.typed (hp ▸ List.forall_mem_nil _),
    fun _ _ _ h => (nomatch ha.symm.trans h), fun _ => h.access_eq,
    fun _ _ _ h => by subst h; cases hp⟩

/-- Code that accesses packed memory is well typed. -/
lemma EmitsPacked.of_access {js : List Instr} (he : Emits env σ σ' js)
    (hjs : ∀ j ∈ js, j.WideTyped env.width D') (hp : i.addresses = [p]) {q : Operand}
    {o o' : Option Offset} {u : VType} (hi : i.access? = some (p, o, t))
    (hv : env.lanes.get p = .packed) (hu : Stored env.layouts env.width t .packed o o' u)
    (hq : σ'.operands.lookup p = some q) (hacc : js.filterMap Instr.access? = [(q, o', u)]) :
    EmitsPacked D' env σ σ' i := by
  refine ⟨js, he, iff_of_true hjs ?_, fun p' o₁ t₁ h _ => ⟨q, o', u, ?_, hacc, ?_⟩,
    fun h => (nomatch hi.symm.trans h), fun _ _ _ h => by subst h; cases hi⟩
  · rw [hp]
    exact List.forall_mem_singleton.2 (by simp [hv])
  all_goals obtain ⟨rfl, rfl, rfl⟩ : p = p' ∧ o = o₁ ∧ t = t₁ := by simpa using hi.symm.trans h
  · exact hq
  · exact hv ▸ hu

/-- Code that ends in an access of packed memory is well typed. -/
lemma EmitsPacked.of_emit {js : List Instr} {j : Instr} (h : Prepares D' env σ σ' js)
    (hj : j.WideTyped env.width D') {q : Operand} {o o' : Option Offset} {u : VType}
    (hacc : j.access? = some (q, o', u)) (hp : i.addresses = [p])
    (hi : i.access? = some (p, o, t)) (hv : env.lanes.get p = .packed)
    (hu : Stored env.layouts env.width t .packed o o' u) (hq : σ'.operands.lookup p = some q) :
    EmitsPacked D' env σ { σ' with code := σ'.code ++ [j] } i :=
  .of_access (q := q) (h.emits.emit j)
    (List.forall_mem_append.2 ⟨h.typed, List.forall_mem_singleton.2 hj⟩) hp hi hv hu hq
    (by simp [h.access_eq, hacc])

/-! ## Assignments -/

/-- The lanes of what is computed are those of the arguments, unless it differs anyway. -/
lemma Setting.varying_of_arg (hs : Setting D D' l g f env) {kind : AssignKind}
    {args : List Operand} (hi : .assign kind d args ∈ f.instrs) (hadd : kind ≠ .ptrAdd)
    (ha : a ∈ args) (hv : env.lanes.get a = .varying) : env.lanes.get d = .varying := by
  have htyped := hs.typed _ hi
  have hcomputed : env.lanes.computed kind args = .varying := by
    unfold Lanes.computed
    split
    · -- A value that is moved is the only one.
      obtain ⟨b, rfl⟩ : ∃ b, args = [b] := by
        have hlen := congrArg List.length htyped.2.2
        rw [List.length_map] at hlen
        exact List.length_eq_one_iff.1 hlen
      obtain rfl := List.mem_singleton.1 ha
      exact hv
    · exact absurd rfl hadd
    · exact if_pos (List.any_eq_true.2 ⟨a, ha, by simp [hv]⟩)
  have hsettled := Lanes.settle_settled env.toPackEnv f.instrs (Lanes.start env.toPackEnv g f)
  have hle := hsettled.rank_le hi (List.mem_singleton_self (d, Lanes.computed _ kind args)) (by
    cases d <;> first | rfl | exact htyped.1.elim)
  rw [show Lanes.settle env.toPackEnv f.instrs (Lanes.start env.toPackEnv g f) = env.lanes from
    hs.lanes_eq.symm, hcomputed] at hle
  revert hle
  cases env.lanes.get d <;> decide

/-- The lanes do not matter to what is computed from scalars. -/
lemma computesWide_of_computes {kind : AssignKind} {W n : Nat} {ts : List VType}
    (hadd : kind ≠ .ptrAdd) (h : kind.Computes t ts) (ht : t.lanes = 0)
    (hts : ∀ u ∈ ts, u.lanes = 0) (hn : n = 0 ∨ 2 ≤ n ∧ n = W) :
    kind.ComputesWide W (t.vector n) (ts.map fun u => u.vector n) := by
  have hmap : (ts.map fun u => u.vector n).map VType.elem = ts := by
    rw [List.map_map]
    exact (List.map_congr_left fun u hu => elem_vector (hts u hu)).trans (List.map_id ts)
  have hlanes : (t.vector n).lanes = 0 ∨ (t.vector n).isVector ∧ (t.vector n).lanes = W := by
    exact hn.imp id fun hn => ⟨isVector_vector t hn.1, hn.2⟩
  have hall : ∀ u ∈ ts.map fun u => u.vector n, u.lanes = (t.vector n).lanes := by
    intro u hu
    obtain ⟨u', -, rfl⟩ := List.mem_map.1 hu
    rfl
  have hcomputes : kind.Computes (t.vector n).elem
      ((ts.map fun u => u.vector n).map VType.elem) := by
    rwa [hmap, elem_vector ht]
  cases kind with
  | splat => exact h.elim
  | ptrAdd => exact absurd rfl hadd
  | _ => exact ⟨hlanes, hall, .inl hcomputes⟩

/-- Labels have counterparts, and no code is needed for that. -/
lemma label_typed {m m' : Label} (h : Makes env (label m) σ m' σ') (hσ : Orderly env σ) :
    Emits env σ σ' [] := by
  obtain ⟨hord, hext, hcode, -⟩ := label_spec h hσ
  exact ⟨hord, hext, by simp [hcode]⟩

/-- The types of operands that have given types. -/
lemma map_type_of_forall₂ {τ : Operand → VType}
    (h : List.Forall₂ (fun o n => n.HasType (τ o)) os ns) :
    ns.map Operand.type = os.map τ := by
  induction h with
  | nil => rfl
  | cons h _ ih => rw [List.map_cons, List.map_cons, ih, h.2]

/-- **Assignments** compute lane by lane if the value differs between the instances, and from what
is shared by all of them otherwise. -/
lemma assign_packed (hs : Setting D D' l g f env) {kind : AssignKind} {args : List Operand}
    (hi : .assign kind d args ∈ f.instrs) (h : Makes env (assign kind d args) σ () σ')
    (hσ : Orderly env σ) : EmitsPacked D' env σ σ' (.assign kind d args) := by
  obtain ⟨htarget, hargs, hcomputes⟩ := hs.typed _ hi
  have hscalar := (hs.regular.instrs _ hi).scalar
  have hd : d.IsScalar := hscalar d List.mem_cons_self
  have has : ∀ a ∈ args, a.IsScalar := fun a ha => hscalar a (List.mem_cons_of_mem d ha)
  simp only [assign, makes_bind, makes_read] at h
  obtain ⟨_, _, ⟨rfl, rfl⟩, h⟩ := h
  split at h
  · simp at h
  rename_i hrefused
  simp only [makes_bind] at h
  obtain ⟨n, σ₁, hn, h⟩ := h
  obtain ⟨he, hdn⟩ := operand_typed hs hn hσ
  have hvec := hdn.isVector_iff hs.two_le hd
  split at h
  · -- The value differs between the instances, so it is no address.
    rename_i hv
    have hadd : kind ≠ .ptrAdd := by
      rintro rfl
      obtain ⟨r, rfl⟩ := (hs.regular.instrs _ hi).fresh d (List.mem_singleton_self d)
      have huniform : (Lanes.ofFunction env.toPackEnv g f).get (.reg r) = .uniform :=
        Lanes.get_eq_uniform_of_ptrAdd hs.regular hi
      rw [← hs.lanes_eq, hvec.1 hv] at huniform
      cases huniform
    simp only [makes_bind, makes_emit] at h
    obtain ⟨ns, σ₂, hns, rfl⟩ := h
    obtain ⟨js, hjs, hns⟩ := vectors_typed hs hns he.orderly has
    refine .of_prepares (((Prepares.of_emits he).trans hjs).emit
      ⟨hdn.isTarget htarget, fun a ha => ?_, ?_⟩ rfl) rfl rfl
    · obtain ⟨o, -, hao⟩ := exists_of_forall₂ hns.flip ha
      exact hao.1
    · rw [map_type_of_forall₂ hns, (hdn.hasType_vector (hvec.1 hv)).2]
      have hcomputes := computesWide_of_computes hadd hcomputes hd (List.forall_mem_map.2 has)
        (.inr ⟨hs.two_le, rfl⟩)
      rwa [List.map_map] at hcomputes
  · -- What is shared by all instances is computed from what is.
    rename_i hv
    have hshared : ∀ a ∈ args, env.lanes.get a ≠ .varying := by
      intro a ha hav
      by_cases hadd : kind = .ptrAdd
      · subst hadd
        exact hrefused (by simpa using ⟨a, ha, hav⟩)
      · exact hv (hvec.2 (hs.varying_of_arg hi hadd ha hav))
    simp only [makes_bind, makes_emit] at h
    obtain ⟨ns, σ₂, hns, rfl⟩ := h
    obtain ⟨he', hns⟩ := operands_typed hs hns he.orderly
    have hns : List.Forall₂ (fun o n => n.HasType o.type) args ns :=
      ((List.forall₂_and_left _ _).2 ⟨hshared, hns⟩).imp fun o n h => h.2.hasType h.1
    refine .of_prepares ((Prepares.of_emits (he.trans he')).emit
      ⟨hdn.isTarget htarget, fun a ha => ?_, ?_⟩ rfl) rfl rfl
    · obtain ⟨o, -, hao⟩ := exists_of_forall₂ hns.flip ha
      exact hao.1
    · rw [map_type_of_forall₂ hns, (hdn.hasType (fun h => hv (hvec.2 h))).2]
      by_cases hadd : kind = .ptrAdd
      · subst hadd
        exact hcomputes
      · have hcomputes := computesWide_of_computes (W := env.width) hadd hcomputes hd
          (List.forall_mem_map.2 has) (.inl rfl)
        have hmap : (args.map Operand.type).map (fun u => u.vector 0) = args.map Operand.type :=
          (List.map_map ..).trans (List.map_congr_left fun a ha => vector_zero (has a ha))
        rwa [hmap, vector_zero hd] at hcomputes

/-! ## Accesses -/

/-- An offset is trivial if it leads to no member. -/
lemma isTrivial_iff {o : Option Offset} : Offset.isTrivial o ↔ Offset.last? o = none := by
  cases o with
  | none => exact iff_of_true rfl rfl
  | some o => simp [Offset.isTrivial, Offset.last?]

/-- Accesses differ in the last member on the path only. -/
lemma accesses_congr {o o' : Option Offset} (h : Offset.last? o = Offset.last? o') :
    Accesses p o t ↔ Accesses p o' t := by
  unfold Accesses Offset.last? at *
  rw [h]

/-- A member is accessed with its own type. -/
lemma accesses_of_last? {o : Option Offset} {m : StructMember} (hp : p.HasType .ptr)
    (ho : Offset.last? o = some m) (hm : m.type? = some t) : Accesses p o t := by
  refine ⟨hp, ?_⟩
  rw [show (o.bind fun o => o.path.getLast?) = some m from ho]
  exact hm

/-- The type of the last member on the path of an access. -/
lemma type?_of_accesses {o : Option Offset} {m : StructMember} (h : Accesses p o t)
    (ho : Offset.last? o = some m) : m.type? = some t := by
  have h := h.2
  rwa [show (o.bind fun o => o.path.getLast?) = some m from ho] at h

/-- What is not at an address in packed memory, or has no path, is accessed as it is: at an address
in packed memory there is one value for each instance. -/
lemma TypedAs.accesses {o : Option Offset} (h : TypedAs env p n) (hW : 2 ≤ env.width)
    (hacc : Accesses p o t) (ht : t.lanes = 0) (hv : env.lanes.get p ≠ .varying)
    (ho : env.lanes.get p ≠ .packed ∨ Offset.isTrivial o) :
    Accesses n o (if env.lanes.get p = .packed then t.vector env.width else t) := by
  have hn : n.HasType .ptr := hacc.1.2 ▸ h.hasType hv
  cases hlast : Offset.last? o with
  | some m =>
    have hpacked := ho.resolve_right fun ho => by simp [isTrivial_iff.1 ho] at hlast
    rw [if_neg hpacked]
    exact accesses_of_last? hn hlast (type?_of_accesses hacc hlast)
  | none =>
    obtain ⟨-, hslot⟩ := hacc
    refine ⟨hn, ?_⟩
    rw [show (o.bind fun o => o.path.getLast?) = none from hlast] at hslot ⊢
    rintro y rfl
    have hcp := h.isCounterpart
    cases p with
    | slot x =>
      obtain ⟨hstruct, hsize⟩ := hslot x rfl
      obtain ⟨hstruct', hsize'⟩ := hcp hstruct
      refine ⟨hstruct', hsize'.trans ?_⟩
      split
      · rw [hsize, VType.size, VType.size, if_pos (isVector_vector t hW), if_neg]
        · rfl
        · simp [VType.isVector, ht]
      · exact hsize
    | const c => cases hcp
    | _ => exact hcp.elim

/-- Packing an offset makes nothing. -/
lemma makes_packedOffset {o : Option Offset} {q : Offset × PackedMember} :
    Makes env (packedOffset o) σ q σ' ↔ env.layouts.offset? o = some q ∧ σ = σ' := by
  simp only [packedOffset, makes_bind, makes_read]
  constructor
  · rintro ⟨_, _, ⟨rfl, rfl⟩, h⟩
    split at h
    · rename_i r hr
      obtain ⟨rfl, rfl⟩ := makes_pure.1 h
      exact ⟨hr, rfl⟩
    · exact (makes_refuse h).elim
  · rintro ⟨h, rfl⟩
    refine ⟨env, σ, ⟨rfl, rfl⟩, ?_⟩
    rw [h]
    exact makes_pure.2 ⟨rfl, rfl⟩

/-- **A path into packed memory** leads to the packed form of what is accessed. -/
lemma Setting.represents_of_accesses (hs : Setting D D' l g f env) (hi : i ∈ f.instrs)
    (hacc : Accesses p i.offset? t) {off : Offset} {last : PackedMember}
    (h : env.layouts.offset? i.offset? = some (off, last)) :
    Offset.last? (some off) = some last.member ∧ Represents env.width t last := by
  obtain ⟨m, hm, hoff, hrep⟩ := hs.represents _ _ _ (hs.regular.instrs i hi).leads h
  exact ⟨hoff, hrep t (type?_of_accesses hacc hm)⟩

/-- What a mask represents. -/
lemma Represents.of_isMask {W : Nat} {x : PackedMember} (h : Represents W t x) (hx : x.isMask) :
    t = .bool ∧ ∃ k : Kind, x.member.type? = some ⟨k, W⟩ ∧ k.isInteger := by
  cases h with
  | mask hm hk => exact ⟨rfl, _, hm, hk⟩
  | shared | lanes => cases hx

/-- What else there is: a vector if and only if there is one value for each instance. -/
lemma Represents.type?_eq {W : Nat} {x : PackedMember} (h : Represents W t x) (hx : ¬x.isMask)
    (hW : 2 ≤ W) :
    x.member.type? = some (if x.member.isVector then t.vector W else t) := by
  cases h with
  | mask => exact absurd rfl hx
  | shared hm ht =>
    rw [if_neg]
    · exact hm
    · simp [StructMember.isVector, hm, VType.isVector, ht]
  | lanes hm =>
    rw [if_pos]
    · exact hm
    · simpa [StructMember.isVector, hm] using isVector_vector t hW

/-! ### Loads -/

/-- The lanes of what is loaded. -/
lemma Setting.lane_loaded (hs : Setting D D' l g f env) {o : Option Offset}
    (hi : .load d p o ∈ f.instrs) (hv : env.lanes.get p ≠ .varying) :
    env.lanes.get d = Lanes.loaded env.toPackEnv env.lanes p o := by
  obtain ⟨r, rfl⟩ := (hs.regular.instrs _ hi).fresh d (List.mem_singleton_self d)
  rw [hs.lanes_eq] at hv ⊢
  exact Lanes.get_eq_loaded hs.regular hi hv

/-- What is loaded from packed memory is shared if the packed member is. -/
lemma Setting.lane_loaded_member (hs : Setting D D' l g f env) {o : Option Offset}
    (hi : .load d p o ∈ f.instrs) (hp : env.lanes.get p = .packed) (ho : ¬Offset.isTrivial o)
    {off : Offset} {last : PackedMember} (hoff : env.layouts.offset? o = some (off, last)) :
    env.lanes.get d = if last.member.isVector then .varying else .uniform := by
  rw [hs.lane_loaded hi (by simp [hp]), Lanes.loaded, if_neg (not_not.2 hp), if_neg ho, hoff]

/-- **Loads without a path**, or from memory that is not packed, read a value for each instance if
packed memory holds these. -/
lemma load_whole_packed (hs : Setting D D' l g f env) {o : Option Offset}
    (hi : .load d p o ∈ f.instrs) (hbase : env.lanes.get p ≠ .packed ∨ Offset.isTrivial o)
    (h : Makes env (do
      let n ← operand d
      emit (.load n (← operand p) o)) σ () σ') (hσ : Orderly env σ) :
    EmitsPacked D' env σ σ' (.load d p o) := by
  obtain ⟨htarget, hacc⟩ := hs.typed _ hi
  have hd : d.IsScalar := (hs.regular.instrs _ hi).scalar d List.mem_cons_self
  simp only [makes_bind, makes_emit] at h
  obtain ⟨n, σ₁, hn, q, σ₂, hq, rfl⟩ := h
  obtain ⟨he, hdn⟩ := operand_typed hs hn hσ
  obtain ⟨he', hpq⟩ := operand_typed hs hq he.orderly
  have hlook := lookup_of_operand hq he.orderly
  have htype : env.lanes.get p ≠ .varying →
      n.type = if env.lanes.get p = .packed then d.type.vector env.width else d.type := by
    intro hv
    rw [hdn.type_eq, hs.lane_loaded hi hv, Lanes.loaded, LaneKind.type]
    by_cases hp : env.lanes.get p = .packed
    · simp [hp, hbase.resolve_left (not_not.2 hp)]
    · simp [hp]
  refine ⟨_, (he.trans he').emit _, ?_, fun p' o' t hacc hv => ⟨q, o, n.type, ?_, rfl, ?_⟩,
    fun h => absurd h (by simp [Instr.access?]), fun _ _ _ h => absurd h (by simp)⟩
  · simp only [List.append_nil, List.nil_append, List.forall_mem_singleton, Instr.addresses]
    refine ⟨fun h => hpq.ne_varying_of_hasType hs.two_le h.2.1, fun hv =>
      ⟨hdn.isTarget htarget, ?_⟩⟩
    rw [htype hv]
    exact hpq.accesses hs.two_le hacc hd hv hbase
  all_goals
    obtain ⟨rfl, rfl, rfl⟩ : p = p' ∧ o = o' ∧ d.type = t := by
      simpa [Instr.access?] using hacc
  · exact hlook
  · rw [htype hv]
    cases hp : env.lanes.get p with
    | uniform => exact .shared
    | packed =>
      have htrivial := hbase.resolve_left (not_not.2 hp)
      exact .whole htrivial htrivial
    | varying => exact absurd hp hv

/-- **Loads of masks** read a mask and turn it into truth values. -/
lemma load_mask_packed (hs : Setting D D' l g f env) {o : Option Offset}
    (hi : .load d p o ∈ f.instrs) (hp : env.lanes.get p = .packed) (ho : ¬Offset.isTrivial o)
    {off : Offset} {last : PackedMember} (hoff : env.layouts.offset? o = some (off, last))
    (hmask : last.isMask) (h : Makes env (do
      let raw ← newReg ((last.member.type?).getD .bool)
      emit (.load raw (← operand p) (some off))
      emit (.assign .ne (← operand d) [raw, .const (.zero ((last.member.type?).getD .bool))]))
        σ () σ') (hσ : Orderly env σ) : EmitsPacked D' env σ σ' (.load d p o) := by
  obtain ⟨htarget, hacc⟩ := hs.typed _ hi
  have hv : env.lanes.get p ≠ .varying := by simp [hp]
  obtain ⟨hlast, hrep⟩ := hs.represents_of_accesses hi hacc hoff
  obtain ⟨hbool, k, hk, hint⟩ := hrep.of_isMask hmask
  simp only [hk, Option.getD_some, makes_bind, makes_emit] at h
  obtain ⟨raw, σ₁, hraw, q, σ₂, hq, _, _, rfl, n, σ₃, hn, rfl⟩ := h
  obtain ⟨h₁, he₁, hcode₁, r, rfl, hr, -⟩ := newReg_spec hraw hσ
  have he : Emits env σ σ₁ [] := ⟨h₁, he₁, by simp [hcode₁]⟩
  obtain ⟨he', hpq⟩ := operand_typed hs hq he.orderly
  have hlook₂ := lookup_of_operand hq he.orderly
  have he := (he.trans he').emit (.load (.reg r) q (some off))
  obtain ⟨he', hdn⟩ := operand_typed hs hn he.orderly
  have hvary : env.lanes.get d = .varying := by
    rw [hs.lane_loaded_member hi hp ho hoff, if_pos]
    rw [StructMember.isVector, hk]
    exact isVector_vector (.scalar k) hs.two_le
  have hn := (hdn.hasType_vector hvary).2
  have hread : last.member.type? = some (Operand.reg r).type :=
    hk.trans (congrArg some hr.symm)
  have hlook : σ₃.operands.lookup p = some q := he'.extends_.operands p q hlook₂
  refine .of_access ((he.trans he').emit _) ?_ rfl rfl hp (.member ho hoff hrep hread) hlook rfl
  refine List.forall_mem_cons.2
    ⟨⟨trivial, accesses_of_last? (hacc.1.2 ▸ hpq.hasType hv) hlast hread⟩,
      List.forall_mem_singleton.2 ⟨hdn.isTarget htarget, by simp, ?_⟩⟩
  rw [hn, hbool]
  refine ⟨.inr ⟨isVector_vector _ hs.two_le, rfl⟩, ?_, .inl ⟨rfl, .scalar k, ?_⟩⟩
  · simp [Operand.type, hr, Const.zero, VType.vector]
  · simp [Operand.type, hr, Const.zero, VType.elem, VType.scalar]

/-- **Loads of other members** read them as they are. -/
lemma load_member_packed (hs : Setting D D' l g f env) {o : Option Offset}
    (hi : .load d p o ∈ f.instrs) (hp : env.lanes.get p = .packed) (ho : ¬Offset.isTrivial o)
    {off : Offset} {last : PackedMember} (hoff : env.layouts.offset? o = some (off, last))
    (hmask : ¬last.isMask) (h : Makes env (do
      let n ← operand d
      emit (.load n (← operand p) (some off))) σ () σ') (hσ : Orderly env σ) :
    EmitsPacked D' env σ σ' (.load d p o) := by
  obtain ⟨htarget, hacc⟩ := hs.typed _ hi
  have hv : env.lanes.get p ≠ .varying := by simp [hp]
  obtain ⟨hlast, hrep⟩ := hs.represents_of_accesses hi hacc hoff
  simp only [makes_bind, makes_emit] at h
  obtain ⟨n, σ₁, hn, q, σ₂, hq, rfl⟩ := h
  obtain ⟨he, hdn⟩ := operand_typed hs hn hσ
  obtain ⟨he', hpq⟩ := operand_typed hs hq he.orderly
  have htype : last.member.type? = some n.type := by
    rw [hrep.type?_eq hmask hs.two_le, hdn.type_eq, hs.lane_loaded_member hi hp ho hoff,
      LaneKind.type]
    split <;> simp
  exact .of_emit (.of_emits (he.trans he')) ⟨hdn.isTarget htarget,
    accesses_of_last? (hacc.1.2 ▸ hpq.hasType hv) hlast htype⟩ rfl rfl rfl hp
    (.member ho hoff hrep htype) (lookup_of_operand hq he.orderly)

/-- **Loads** read what packed memory holds. -/
lemma load_packed (hs : Setting D D' l g f env) {o : Option Offset} (hi : .load d p o ∈ f.instrs)
    (h : Makes env (load d p o) σ () σ') (hσ : Orderly env σ) :
    EmitsPacked D' env σ σ' (.load d p o) := by
  unfold load at h
  obtain ⟨_, _, hlane, h⟩ := makes_bind.1 h
  obtain ⟨rfl, rfl⟩ := makes_laneOf.1 hlane
  split at h
  · rename_i hbase
    exact load_whole_packed hs hi hbase h hσ
  rename_i hbase
  obtain ⟨hp, ho⟩ := not_or.1 hbase
  obtain ⟨⟨off, last⟩, _, hpath, h⟩ := makes_bind.1 h
  obtain ⟨hoff, rfl⟩ := makes_packedOffset.1 hpath
  dsimp only at h
  split at h
  · rename_i hmask
    exact load_mask_packed hs hi (not_not.1 hp) ho hoff hmask h hσ
  · rename_i hmask
    exact load_member_packed hs hi (not_not.1 hp) ho hoff hmask h hσ

/-! ### Stores -/

/-- **Stores to shared memory** write shared values. -/
lemma store_shared_packed (hs : Setting D D' l g f env) {o : Option Offset}
    (hi : .store p o a ∈ f.instrs) (hp : env.lanes.get p ≠ .packed)
    (ha : env.lanes.get a ≠ .varying) (h : Makes env (do
      let q ← operand p
      emit (.store q o (← operand a))) σ () σ') (hσ : Orderly env σ) :
    EmitsPacked D' env σ σ' (.store p o a) := by
  obtain ⟨-, hacc⟩ := hs.typed _ hi
  have hscalar : a.IsScalar := (hs.regular.instrs _ hi).scalar a (by simp [Instr.operands])
  simp only [makes_bind, makes_emit] at h
  obtain ⟨q, σ₁, hq, n, σ₂, hn, rfl⟩ := h
  obtain ⟨he, hpq⟩ := operand_typed hs hq hσ
  obtain ⟨he', han⟩ := operand_typed hs hn he.orderly
  refine ⟨_, (he.trans he').emit _, ?_, fun p' o' t hacc hv => ⟨q, o, n.type, ?_, rfl, ?_⟩,
    fun h => absurd h (by simp [Instr.access?]), fun _ _ _ h => absurd h (by simp)⟩
  · simp only [List.append_nil, List.nil_append, List.forall_mem_singleton, Instr.addresses]
    refine ⟨fun h => hpq.ne_varying_of_hasType hs.two_le h.2.1, fun hv => ⟨han.ne_absent, ?_⟩⟩
    rw [(han.hasType ha).2]
    have haccess := hpq.accesses hs.two_le hacc hscalar hv (.inl hp)
    rwa [if_neg hp] at haccess
  all_goals
    obtain ⟨rfl, rfl, rfl⟩ : p = p' ∧ o = o' ∧ a.type = t := by
      simpa [Instr.access?] using hacc
  · exact he'.extends_.operands p q (lookup_of_operand hq hσ)
  · rw [(han.hasType ha).2]
    cases hlane : env.lanes.get p with
    | uniform => exact .shared
    | packed => exact absurd hlane hp
    | varying => exact absurd hlane hv

/-- **Stores without a path** write one value for each instance. -/
lemma store_whole_packed (hs : Setting D D' l g f env) {o : Option Offset}
    (hi : .store p o a ∈ f.instrs) (hp : env.lanes.get p = .packed) (ho : Offset.isTrivial o)
    (h : Makes env (do
      let q ← operand p
      emit (.store q none (← vector a))) σ () σ') (hσ : Orderly env σ) :
    EmitsPacked D' env σ σ' (.store p o a) := by
  obtain ⟨-, hacc⟩ := hs.typed _ hi
  have hscalar : a.IsScalar := (hs.regular.instrs _ hi).scalar a (by simp [Instr.operands])
  have hv : env.lanes.get p ≠ .varying := by simp [hp]
  simp only [makes_bind, makes_emit] at h
  obtain ⟨q, σ₁, hq, n, σ₂, hn, rfl⟩ := h
  obtain ⟨he, hpq⟩ := operand_typed hs hq hσ
  obtain ⟨js, hjs, hn⟩ := vector_typed hs hn he.orderly hscalar
  have hu : Stored env.layouts env.width a.type .packed o none n.type := by
    rw [hn.2]
    exact .whole ho rfl
  refine .of_emit ((Prepares.of_emits he).trans hjs) ⟨hn.1, ?_⟩ rfl rfl rfl hp hu
    (hjs.emits.extends_.operands p q (lookup_of_operand hq hσ))
  have haccess := hpq.accesses hs.two_le hacc hscalar hv (.inr ho)
  rw [if_pos hp] at haccess
  have hlast : Offset.last? o = Offset.last? none := isTrivial_iff.1 ho
  rw [hn.2]
  exact (accesses_congr hlast).1 haccess

/-- **Stores to masks** turn truth values into a mask. -/
lemma store_mask_packed (hs : Setting D D' l g f env) {o : Option Offset}
    (hi : .store p o a ∈ f.instrs) (hp : env.lanes.get p = .packed) (ho : ¬Offset.isTrivial o)
    {off : Offset} {last : PackedMember} (hoff : env.layouts.offset? o = some (off, last))
    (hmask : last.isMask) (h : Makes env (do
      let raw ← newReg ((last.member.type?).getD .bool)
      emit (.assign .convert raw [← vector a])
      emit (.store (← operand p) (some off) raw)) σ () σ') (hσ : Orderly env σ) :
    EmitsPacked D' env σ σ' (.store p o a) := by
  obtain ⟨-, hacc⟩ := hs.typed _ hi
  have hscalar : a.IsScalar := (hs.regular.instrs _ hi).scalar a (by simp [Instr.operands])
  have hv : env.lanes.get p ≠ .varying := by simp [hp]
  obtain ⟨hlast, hrep⟩ := hs.represents_of_accesses hi hacc hoff
  obtain ⟨hbool, k, hk, hint⟩ := hrep.of_isMask hmask
  simp only [hk, Option.getD_some, makes_bind, makes_emit] at h
  obtain ⟨raw, σ₁, hraw, n, σ₂, hn, _, _, rfl, q, σ₃, hq, rfl⟩ := h
  obtain ⟨h₁, he₁, hcode₁, r, rfl, hr, -⟩ := newReg_spec hraw hσ
  have he : Emits env σ σ₁ [] := ⟨h₁, he₁, by simp [hcode₁]⟩
  obtain ⟨js, hjs, hn⟩ := vector_typed hs hn he.orderly hscalar
  have hconvert : (Instr.assign .convert (.reg r) [n]).WideTyped env.width D' := by
    refine ⟨trivial, List.forall_mem_singleton.2 hn.1, ?_⟩
    rw [List.map_singleton, hn.2, hbool, Operand.type, hr]
    exact ⟨.inr ⟨isVector_vector (.scalar k) hs.two_le, rfl⟩, List.forall_mem_singleton.2 rfl,
      .inr ⟨rfl, isVector_vector (.scalar k) hs.two_le, hint, rfl⟩⟩
  have hprepares := ((Prepares.of_emits he).trans hjs).emit hconvert rfl
  obtain ⟨he', hpq⟩ := operand_typed hs hq hprepares.emits.orderly
  have hwrite : last.member.type? = some (Operand.reg r).type :=
    hk.trans (congrArg some hr.symm)
  exact .of_emit (hprepares.trans (.of_emits he'))
    ⟨by simp, accesses_of_last? (hacc.1.2 ▸ hpq.hasType hv) hlast hwrite⟩ rfl rfl rfl hp
    (.member ho hoff hrep hwrite) (lookup_of_operand hq hprepares.emits.orderly)

/-- **Stores to members with lanes** write one value for each instance. -/
lemma store_lanes_packed (hs : Setting D D' l g f env) {o : Option Offset}
    (hi : .store p o a ∈ f.instrs) (hp : env.lanes.get p = .packed) (ho : ¬Offset.isTrivial o)
    {off : Offset} {last : PackedMember} (hoff : env.layouts.offset? o = some (off, last))
    (hmask : ¬last.isMask) (hvec : last.member.isVector) (h : Makes env (do
      let q ← operand p
      emit (.store q (some off) (← vector a))) σ () σ') (hσ : Orderly env σ) :
    EmitsPacked D' env σ σ' (.store p o a) := by
  obtain ⟨-, hacc⟩ := hs.typed _ hi
  have hscalar : a.IsScalar := (hs.regular.instrs _ hi).scalar a (by simp [Instr.operands])
  have hv : env.lanes.get p ≠ .varying := by simp [hp]
  obtain ⟨hlast, hrep⟩ := hs.represents_of_accesses hi hacc hoff
  simp only [makes_bind, makes_emit] at h
  obtain ⟨q, σ₁, hq, n, σ₂, hn, rfl⟩ := h
  obtain ⟨he, hpq⟩ := operand_typed hs hq hσ
  obtain ⟨js, hjs, hn⟩ := vector_typed hs hn he.orderly hscalar
  have htype := hrep.type?_eq hmask hs.two_le
  rw [if_pos hvec, ← hn.2] at htype
  exact .of_emit ((Prepares.of_emits he).trans hjs)
    ⟨hn.1, accesses_of_last? (hacc.1.2 ▸ hpq.hasType hv) hlast htype⟩ rfl rfl rfl hp
    (.member ho hoff hrep htype) (hjs.emits.extends_.operands p q (lookup_of_operand hq hσ))

/-- **Stores to shared members** write shared values. -/
lemma store_single_packed (hs : Setting D D' l g f env) {o : Option Offset}
    (hi : .store p o a ∈ f.instrs) (hp : env.lanes.get p = .packed) (ho : ¬Offset.isTrivial o)
    {off : Offset} {last : PackedMember} (hoff : env.layouts.offset? o = some (off, last))
    (hmask : ¬last.isMask) (hvec : ¬last.member.isVector) (ha : env.lanes.get a ≠ .varying)
    (h : Makes env (do
      let q ← operand p
      emit (.store q (some off) (← operand a))) σ () σ') (hσ : Orderly env σ) :
    EmitsPacked D' env σ σ' (.store p o a) := by
  obtain ⟨-, hacc⟩ := hs.typed _ hi
  have hv : env.lanes.get p ≠ .varying := by simp [hp]
  obtain ⟨hlast, hrep⟩ := hs.represents_of_accesses hi hacc hoff
  simp only [makes_bind, makes_emit] at h
  obtain ⟨q, σ₁, hq, n, σ₂, hn, rfl⟩ := h
  obtain ⟨he, hpq⟩ := operand_typed hs hq hσ
  obtain ⟨he', han⟩ := operand_typed hs hn he.orderly
  have hn := han.hasType ha
  have htype := hrep.type?_eq hmask hs.two_le
  rw [if_neg hvec, ← hn.2] at htype
  exact .of_emit (.of_emits (he.trans he'))
    ⟨hn.1, accesses_of_last? (hacc.1.2 ▸ hpq.hasType hv) hlast htype⟩ rfl rfl rfl hp
    (.member ho hoff hrep htype) (he'.extends_.operands p q (lookup_of_operand hq hσ))

/-- **Stores** write what packed memory holds. -/
lemma store_packed (hs : Setting D D' l g f env) {o : Option Offset} (hi : .store p o a ∈ f.instrs)
    (h : Makes env (store p o a) σ () σ') (hσ : Orderly env σ) :
    EmitsPacked D' env σ σ' (.store p o a) := by
  unfold store at h
  obtain ⟨_, _, hlane, h⟩ := makes_bind.1 h
  obtain ⟨rfl, rfl⟩ := makes_laneOf.1 hlane
  split at h
  · rename_i hp
    obtain ⟨_, _, hlane, h⟩ := makes_bind.1 h
    obtain ⟨rfl, rfl⟩ := makes_laneOf.1 hlane
    split at h
    · simp at h
    · rename_i ha
      exact store_shared_packed hs hi hp ha (by simpa using h) hσ
  rename_i hp
  have hp := not_not.1 hp
  split at h
  · rename_i ho
    exact store_whole_packed hs hi hp ho h hσ
  rename_i ho
  obtain ⟨⟨off, last⟩, _, hpath, h⟩ := makes_bind.1 h
  obtain ⟨hoff, rfl⟩ := makes_packedOffset.1 hpath
  dsimp only at h
  split at h
  · rename_i hmask
    exact store_mask_packed hs hi hp ho hoff hmask h hσ
  rename_i hmask
  split at h
  · rename_i hvec
    exact store_lanes_packed hs hi hp ho hoff hmask hvec h hσ
  · rename_i hvec
    obtain ⟨_, _, hlane, h⟩ := makes_bind.1 h
    obtain ⟨rfl, rfl⟩ := makes_laneOf.1 hlane
    split at h
    · simp at h
    · rename_i ha
      exact store_single_packed hs hi hp ho hoff hmask hvec ha (by simpa using h) hσ

/-! ### Addresses -/

/-- **Addresses inside of a struct** are scalars. -/
lemma lea_packed (hs : Setting D D' l g f env) {ps rs : List Operand} {o : Option Offset}
    (hi : .lea d p o ∈ f.instrs) (h : Makes env (instr ps rs (.lea d p o)) σ () σ')
    (hσ : Orderly env σ) : EmitsPacked D' env σ σ' (.lea d p o) := by
  obtain ⟨htarget, hdptr, hptr⟩ := hs.typed _ hi
  have hd : env.lanes.get d ≠ .varying := by
    obtain ⟨r, rfl⟩ := (hs.regular.instrs _ hi).fresh d (List.mem_singleton_self d)
    rw [hs.lanes_eq]
    exact Lanes.lea_ne_varying hs.regular hi
  -- What is raised by the instruction is packed.
  have hpacked : env.lanes.get p = .packed → env.lanes.get d = .packed := by
    intro hp
    have hsettled := Lanes.settle_settled env.toPackEnv f.instrs (Lanes.start env.toPackEnv g f)
    rw [show Lanes.settle env.toPackEnv f.instrs (Lanes.start env.toPackEnv g f) = env.lanes from
      hs.lanes_eq.symm] at hsettled
    have hraised : (d, .packed) ∈ env.lanes.raised env.toPackEnv (.lea d p o) := by
      simp [Lanes.raised, hp]
    have hrank := hsettled.rank_le hi hraised (by
      cases d <;> first | rfl | exact htarget.elim)
    revert hd hrank
    cases env.lanes.get d <;> decide
  obtain ⟨o', hplaced, h⟩ : ∃ o', (env.lanes.get p ≠ .varying →
      Placed env.layouts (env.lanes.get p) (env.lanes.get d) o o') ∧ Makes env (do
        let n ← operand d
        emit (.lea n (← operand p) o')) σ () σ' := by
    simp only [instr, makes_bind, makes_laneOf] at h
    obtain ⟨_, _, ⟨rfl, rfl⟩, h⟩ := h
    split at h
    · rename_i hp
      simp only [makes_bind, makes_packedOffset, makes_pure] at h
      obtain ⟨⟨off, x⟩, _, ⟨hoff, rfl⟩, _, _, ⟨rfl, rfl⟩, h⟩ := h
      exact ⟨_, fun _ => by rw [hp, hpacked hp]; exact .member hoff, by simpa using h⟩
    · rename_i hp
      simp only [makes_bind, makes_pure] at h
      obtain ⟨_, _, ⟨rfl, rfl⟩, h⟩ := h
      refine ⟨o, fun hv => ?_, by simpa using h⟩
      cases hlane : env.lanes.get p with
      | uniform => exact .shared
      | packed => exact absurd hlane hp
      | varying => exact absurd hlane hv
  simp only [makes_bind, makes_emit] at h
  obtain ⟨n, σ₁, hn, q, σ₂, hq, rfl⟩ := h
  obtain ⟨he, hdn⟩ := operand_typed hs hn hσ
  obtain ⟨he', hpq⟩ := operand_typed hs hq he.orderly
  have hlook := lookup_of_operand hq he.orderly
  refine ⟨_, (he.trans he').emit _, ?_, fun _ _ _ h => absurd h (by simp [Instr.access?]),
    fun _ => rfl, fun d' p' o₁ heq hv => ⟨n, q, o', ?_, ?_, rfl, ?_⟩⟩
  · simp only [List.append_nil, List.nil_append, List.forall_mem_singleton, Instr.addresses]
    exact ⟨fun h => hpq.ne_varying_of_hasType hs.two_le h.2.2, fun hv =>
      ⟨hdn.isTarget htarget, (hdn.hasType hd).2.trans hdptr, hptr.2 ▸ hpq.hasType hv⟩⟩
  all_goals obtain ⟨rfl, rfl, rfl⟩ := Instr.lea.inj heq
  · exact he'.extends_.operands d n (lookup_of_operand hn hσ)
  · exact hlook
  · exact hplaced hv

/-- **Conditions** are shared by all instances. -/
lemma branch_packed (hs : Setting D D' l g f env) {ps rs : List Operand} {yes no : Label}
    (hi : .branch d yes no ∈ f.instrs) (h : Makes env (instr ps rs (.branch d yes no)) σ () σ')
    (hσ : Orderly env σ) : EmitsPacked D' env σ σ' (.branch d yes no) := by
  have hbool : d.HasType .bool := hs.typed _ hi
  simp only [instr, makes_bind, makes_laneOf] at h
  obtain ⟨_, _, ⟨rfl, rfl⟩, h⟩ := h
  split at h
  · simp at h
  rename_i hshared
  simp only [makes_bind, makes_emit] at h
  obtain ⟨n, σ₁, hn, yes', σ₂, hyes, no', σ₃, hno, rfl⟩ := h
  obtain ⟨he, hdn⟩ := operand_typed hs hn hσ
  have he' := label_typed hyes he.orderly
  have he'' := label_typed hno he'.orderly
  have hn : n.HasType .bool := hbool.2 ▸ hdn.hasType hshared
  exact .of_prepares ((Prepares.of_emits (he.trans (he'.trans he''))).emit hn rfl) rfl rfl

/-! ## Calls -/

/-- **Counterparts** have the types that a declaration of packed code asks for. -/
lemma forall₂_hasType (W : Nat) : ∀ {os ns : List Operand} {ts : List VType}
    {lanes : List LaneKind}, List.Forall₂ (TypedAs env) os ns → List.Forall₂ Operand.HasType os ts →
    List.Forall₂ (fun o lane => (env.lanes.get o).type env.width o.type = lane.type W o.type) os
      lanes → List.Forall₂ Operand.HasType ns ((ts.zip lanes).map fun (t, lane) => lane.type W t)
  | [], _, _, _, .nil, .nil, .nil => .nil
  | _ :: _, _, _, _, .cons hn hns, .cons ht hts, .cons hl hls =>
    .cons ⟨hn.ne_absent, hn.type_eq.trans (hl.trans (congrArg _ ht.2))⟩
      (forall₂_hasType W hns hts hls)

/-- The counterparts of what is shared by all instances have the same types. -/
lemma forall₂_hasType_of_uniform : ∀ {os ns : List Operand} {ts : List VType},
    (∀ o ∈ os, env.lanes.get o = .uniform) → List.Forall₂ (TypedAs env) os ns →
    List.Forall₂ Operand.HasType os ts → List.Forall₂ Operand.HasType ns ts
  | [], _, _, _, .nil, .nil => .nil
  | _ :: _, _, _, hu, .cons hn hns, .cons ht hts => by
    obtain ⟨hu, hus⟩ := List.forall_mem_cons.1 hu
    exact .cons (ht.2 ▸ hn.hasType (by simp [hu])) (forall₂_hasType_of_uniform hus hns hts)

/-- **The arguments of a packed function** have the types that it expects. -/
lemma packedArguments_typed (hs : Setting D D' l g f env) (callee : String) (c : DeclLanes) :
    ∀ (place : Nat) {wants : List LaneKind} {as ns : List Operand} {ts : List VType}
      {σ σ' : WidenState}, wants.length = ts.length → List.Forall₂ Operand.HasType as ts →
    (∀ a ∈ as, a.IsScalar) → Makes env (packedArguments callee c place wants as) σ ns σ' →
    Orderly env σ → ∃ js, Prepares D' env σ σ' js ∧ List.Forall₂ Operand.HasType ns
      ((ts.zip wants).map fun (t, want) => want.type env.width t)
  | _, wants, [], _, [], _, _, _, .nil, _, h, hσ => by
    obtain ⟨rfl, rfl⟩ : [] = _ ∧ _ = _ := by simpa only [packedArguments, makes_pure] using h
    exact ⟨[], .of_emits (.refl hσ), .nil⟩
  | place, want :: wants, a :: as, ns, t :: ts, σ, σ', hlen, .cons ha has, hscalar, h, hσ => by
    obtain ⟨hascalar, hscalar⟩ := List.forall_mem_cons.1 hscalar
    -- Whatever the first argument becomes, the others follow.
    have rest : ∀ {n : Operand} {js : List Instr} {σ₁ : WidenState}, Prepares D' env σ σ₁ js →
        n.HasType (want.type env.width t) →
        Makes env (do return n :: (← packedArguments callee c (place + 1) wants as)) σ₁ ns σ' →
        ∃ js, Prepares D' env σ σ' js ∧ List.Forall₂ Operand.HasType ns
          (((t :: ts).zip (want :: wants)).map fun (t, want) => want.type env.width t) := by
      intro n js σ₁ hjs hn h
      simp only [makes_bind, makes_pure] at h
      obtain ⟨ns, _, hns, rfl, rfl⟩ := h
      obtain ⟨ks, hks, hns⟩ := packedArguments_typed hs callee c (place + 1)
        (Nat.succ.inj hlen) has hscalar hns hjs.emits.orderly
      exact ⟨js ++ ks, hjs.trans hks, .cons hn hns⟩
    simp only [packedArguments, makes_bind, makes_laneOf] at h
    obtain ⟨_, _, ⟨rfl, rfl⟩, h⟩ := h
    split at h
    · rename_i hvary
      obtain ⟨n, _, hn, h⟩ := makes_bind.1 h
      obtain ⟨js, hjs, hn⟩ := vector_typed hs hn hσ hascalar
      exact rest hjs ⟨hn.1, hn.2.trans (by rw [hvary, ha.2, LaneKind.type, if_pos rfl])⟩ h
    · split at h
      · simp at h
      · rename_i hwant
        obtain ⟨n, _, hn, h⟩ := makes_bind.1 h
        obtain ⟨he, han⟩ := operand_typed hs hn hσ
        exact rest (.of_emits he) ⟨han.ne_absent,
          han.type_eq.trans (by rw [← not_not.1 hwant, ha.2])⟩ h

/-- **Calls** of packed functions get what these expect, all others what is shared by all
instances. -/
lemma call_packed (hs : Setting D D' l g f env) {callee : FuncDecl} {ins outs : List Operand}
    (hi : .call callee ins outs ∈ f.instrs) (h : Makes env (call callee ins outs) σ () σ')
    (hσ : Orderly env σ) : EmitsPacked D' env σ σ' (.call callee ins outs) := by
  obtain ⟨hcallee, hins, houts, htarget⟩ := hs.typed _ hi
  have hscalar : ∀ a ∈ ins, a.IsScalar := fun a ha =>
    (hs.regular.instrs _ hi).scalar a (List.mem_append_left _ ha)
  -- What is returned is put in targets.
  have targets : ∀ {ms : List Operand}, List.Forall₂ (TypedAs env) outs ms →
      ∀ m ∈ ms, m.IsTarget := by
    intro ms hms m hm
    obtain ⟨o, ho, hom⟩ := exists_of_forall₂ hms.flip hm
    exact hom.isTarget (htarget o ho)
  simp only [call, makes_bind, makes_read] at h
  obtain ⟨_, _, ⟨rfl, rfl⟩, h⟩ := h
  split at h
  · rename_i hnone
    split at h
    · simp at h
    rename_i hshared
    simp only [makes_bind, makes_emit] at h
    obtain ⟨ns, σ₁, hns, ms, σ₂, hms, rfl⟩ := h
    obtain ⟨he, hns⟩ := operands_typed hs hns hσ
    obtain ⟨he', hms⟩ := operands_typed hs hms he.orderly
    have huniform : ∀ a ∈ ins, env.lanes.get a = .uniform := by simpa using hshared
    have huniform' : ∀ o ∈ outs, env.lanes.get o = .uniform := fun o ho => by
      rw [hs.lanes_eq]
      exact Lanes.get_eq_uniform_of_call hs.regular hi hnone ho
    have hns' := forall₂_hasType_of_uniform huniform hns hins
    have hms' := forall₂_hasType_of_uniform huniform' hms houts
    exact .of_prepares ((Prepares.of_emits (he.trans he')).emit
      ⟨hs.shared callee hcallee, hns', hms', targets hms⟩ rfl) rfl rfl
  · rename_i c hc
    obtain ⟨hwidens, hD'⟩ := hs.packed callee c hcallee hc
    simp only [makes_bind, makes_emit] at h
    obtain ⟨ns, σ₁, hns, ms, σ₂, hms, rfl⟩ := h
    obtain ⟨js, hjs, hns⟩ := packedArguments_typed hs callee.id c 1
      hwidens.params_split.length_eq.symm hins hscalar hns hσ
    obtain ⟨he, hms⟩ := operands_typed hs hms hjs.emits.orderly
    have hlen : outs.length = c.results.length :=
      houts.length_eq.trans hwidens.results_split.length_eq
    have hlanes := Lanes.forall₂_results (d := g) hs.regular hi hc hlen
    rw [← hs.lanes_eq] at hlanes
    have hms' := forall₂_hasType env.width hms houts (hlanes.imp fun o lane h => by rw [h])
    exact .of_prepares ((hjs.trans (.of_emits he)).emit
      ⟨hD', hwidens.params_eq ▸ hns, hwidens.results_eq ▸ hms', targets hms⟩ rfl) rfl rfl

/-! ## Functions -/

/-- **Instructions** become packed code. -/
theorem instr_packed (hs : Setting D D' l g f env) {ps rs : List Operand} (hi : i ∈ f.instrs)
    (h : Makes env (instr ps rs i) σ () σ') (hσ : Orderly env σ) : EmitsPacked D' env σ σ' i := by
  cases i with
  | label m =>
    simp only [instr, makes_bind, makes_emit] at h
    obtain ⟨m', σ₁, hm, rfl⟩ := h
    exact .of_prepares ((Prepares.of_emits (label_typed hm hσ)).emit trivial rfl) rfl rfl
  | goto m =>
    simp only [instr, makes_bind, makes_emit] at h
    obtain ⟨m', σ₁, hm, rfl⟩ := h
    exact .of_prepares ((Prepares.of_emits (label_typed hm hσ)).emit trivial rfl) rfl rfl
  | branch c yes no => exact branch_packed hs hi h hσ
  | assign kind d args => exact assign_packed hs hi h hσ
  | load d p o => exact load_packed hs hi h hσ
  | store p o a => exact store_packed hs hi h hσ
  | lea d p o => exact lea_packed hs hi h hσ
  | alloc | memcpy => exact (makes_refuse h).elim
  | call callee ins outs => exact call_packed hs hi h hσ
  | params | results => exact (makes_throw h).elim

/-- **Packed code** is the packed code of one instruction after the other. -/
lemma code_packed (hs : Setting D D' l g f env) {ps rs : List Operand} :
    ∀ {is : List Instr} {σ σ' : WidenState}, (∀ i ∈ is, i ∈ f.instrs) →
    Makes env (code ps rs is) σ () σ' → Orderly env σ →
    ∃ jss : List (List Instr), Emits env σ σ' jss.flatten ∧
      List.Forall₂ (IsPacked D' env σ'.operands) is jss
  | [], _, _, _, h, hσ => by
    obtain ⟨-, rfl⟩ := makes_pure.1 h
    exact ⟨[], .refl hσ, .nil⟩
  | i :: is, _, _, his, h, hσ => by
    obtain ⟨hi, his⟩ := List.forall_mem_cons.1 his
    simp only [code, makes_bind] at h
    obtain ⟨_, σ₁, hinstr, hcode⟩ := h
    obtain ⟨js, he, hjs⟩ := instr_packed hs hi hinstr hσ
    obtain ⟨jss, he', hjss⟩ := code_packed hs his hcode he.orderly
    exact ⟨js :: jss, he.trans he', .cons (hjs.mono he'.extends_.operands) hjss⟩

/-- Packed code is well typed unless an address differs between the instances. -/
lemma typed_iff_of_forall₂ {ops : List (Operand × Operand)} :
    ∀ {is : List Instr} {jss : List (List Instr)},
    List.Forall₂ (IsPacked D' env ops) is jss → ((∀ j ∈ jss.flatten, j.WideTyped env.width D') ↔
      ∀ p ∈ is.flatMap Instr.addresses, env.lanes.get p ≠ .varying)
  | [], _, .nil => iff_of_true (List.forall_mem_nil _) (List.forall_mem_nil _)
  | _ :: _, _, .cons h hs => by
    rw [List.flatten_cons, List.forall_mem_append, List.flatMap_cons, List.forall_mem_append,
      h.typed_iff, typed_iff_of_forall₂ hs]

/-- Operands of declared types are split as the types are. -/
lemma forall₂_splits : ∀ {os : List Operand} {ts : List VType} {lanes : List LaneKind},
    List.Forall₂ Operand.HasType os ts → List.Forall₂ Splits ts lanes →
    List.Forall₂ (fun o lane => Splits o.type lane) os lanes
  | [], _, _, .nil, .nil => .nil
  | _ :: _, _, _, .cons ht hts, .cons hl hls => .cons (ht.2 ▸ hl) (forall₂_splits hts hls)

/-- What is bound is split as it is declared. -/
lemma DeclLanes.Widens.splits {W : Nat} (hg : g.Widens W f.decl) (hf : f.WellTyped D)
    {lane : LaneKind} (h : Lanes.IsBound g f o lane) : Splits o.type lane := by
  obtain h | h := List.mem_append.1 h
  · exact (List.forall₂_iff_zip.1 (forall₂_splits hf.params_typed hg.params_split)).2 h
  · exact (List.forall₂_iff_zip.1 (forall₂_splits hf.results_typed hg.results_split)).2 h

/-- Values that are bound differ between the instances. -/
lemma DeclLanes.Widens.get_eq {W : Nat} (hg : g.Widens W f.decl) (hf : f.WellTyped D)
    (hreg : f.Regular l) {e : PackEnv} {lane : LaneKind} (ho : Lanes.IsBound g f o lane)
    (hptr : o.type ≠ .ptr) : (Lanes.ofFunction e g f).get o = .varying := by
  have hstart : (Lanes.start e g f).get o = .varying := by
    obtain hbound | ⟨hnot, -⟩ | ⟨⟨s, hs⟩, -⟩ := Lanes.get_start e g f o
    · exact (hg.splits hf hbound).2 hptr
    · exact absurd ho (hnot lane)
    · obtain ⟨v, hv⟩ := ho.isVar hreg
      cases hs.symm.trans hv
  have hle := Lanes.start_le e g f o
  rw [hstart] at hle
  revert hle
  cases (Lanes.ofFunction e g f).get o <;> decide

/-- What is bound has the types of the packed declaration if and only if no address among it differs
between the instances. -/
lemma forall₂_hasType_iff (hW : 2 ≤ env.width) : ∀ {os ns : List Operand} {ts : List VType}
    {lanes : List LaneKind}, List.Forall₂ (TypedAs env) os ns → List.Forall₂ Operand.HasType os ts →
    List.Forall₂ (fun o lane => Splits o.type lane ∧
      (o.type ≠ .ptr → env.lanes.get o = .varying)) os lanes →
    (List.Forall₂ Operand.HasType ns
        ((ts.zip lanes).map fun (t, lane) => lane.type env.width t) ↔
      ∀ o ∈ os, o.type = .ptr → env.lanes.get o ≠ .varying)
  | [], _, _, _, .nil, .nil, .nil => iff_of_true .nil (List.forall_mem_nil _)
  | o :: _, n :: _, t :: _, lane :: _, .cons hn hns, .cons ht hts, .cons hl hls => by
    rw [List.zip_cons_cons, List.map_cons, List.forall₂_cons, List.forall_mem_cons,
      forall₂_hasType_iff hW hns hts hls]
    refine and_congr_left fun _ => ?_
    by_cases hptr : o.type = .ptr
    · have hlane : lane ≠ .varying := fun h => hl.1.1 h hptr
      change n.HasType (lane.type env.width t) ↔ _
      rw [LaneKind.type, if_neg hlane, ← ht.2]
      exact ⟨fun h _ => hn.ne_varying_of_hasType hW (hptr ▸ h), fun h => hn.hasType (h hptr)⟩
    · refine iff_of_true ?_ fun h => absurd h hptr
      change n.HasType (lane.type env.width t)
      rw [LaneKind.type, if_pos (hl.1.2 hptr), ← ht.2]
      exact hn.hasType_vector (hl.2 hptr)

/-- **The packed version of a function** has the packed code of its instructions, and counterparts
of its parameters and results. -/
theorem packFunction_packed {e : PackEnv} {q : Function}
    (hs : Setting D D' l g f ⟨e, Lanes.ofFunction e g f⟩) (h : packFunction e g f = .ok q) :
    let ops := counterpartsOf ⟨e, Lanes.ofFunction e g f⟩ f
    (∃ jss : List (List Instr), q.body = Function.frame jss.flatten ∧
      List.Forall₂ (IsPacked D' ⟨e, Lanes.ofFunction e g f⟩ ops) f.instrs jss) ∧
    List.Forall₂ (fun o n => ops.lookup o = some n) f.params q.params ∧
    List.Forall₂ (fun o n => ops.lookup o = some n) f.results q.results ∧
    ∀ o n, ops.lookup o = some n → TypedAs ⟨e, Lanes.ofFunction e g f⟩ o n := by
  obtain ⟨σ₁, σ₂, σ₃, hps, hrs, hcode, hq⟩ := of_packFunction_eq_ok h
  rw [counterpartsOf_eq hps hrs hcode]
  obtain ⟨hord₁, -, hcode₁, hparams⟩ := operands_spec hps (orderly_empty _)
  obtain ⟨hord₂, hext₂, hcode₂, hresults⟩ := operands_spec hrs hord₁
  obtain ⟨jss, he, hjss⟩ := code_packed hs (fun _ => id) hcode hord₂
  have hext := he.extends_
  refine ⟨⟨jss, ?_, hjss⟩, hparams.imp fun o n hn => (hext₂.trans hext).operands o n hn,
    hresults.imp fun o n hn => hext.operands o n hn,
    fun o n hn => hs.typedAs (he.orderly.counterpart o n hn)⟩
  rw [hq, he.code_eq, hcode₂, hcode₁]
  rfl

/-- **Which packed functions are well typed**: those in which no address differs between the
instances. -/
theorem packFunction_wideTyped_iff {e : PackEnv} {q : Function}
    (hs : Setting D D' l g f ⟨e, Lanes.ofFunction e g f⟩) (hf : f.WellTyped D)
    (hg : g.Widens e.width f.decl) (h : packFunction e g f = .ok q) :
    q.WideTyped e.width D' ↔
      ∀ p ∈ f.addresses, (Lanes.ofFunction e g f).get p ≠ .varying := by
  obtain ⟨⟨jss, hbody, hjss⟩, hparams, hresults, htyped⟩ := packFunction_packed hs h
  have hparams := hparams.imp fun o n => htyped o n
  have hresults := hresults.imp fun o n => htyped o n
  have hbody_typed : (∀ j ∈ q.body, j.WideTyped e.width D') ↔
      ∀ p ∈ f.instrs.flatMap Instr.addresses, (Lanes.ofFunction e g f).get p ≠ .varying := by
    rw [← typed_iff_of_forall₂ hjss, hbody]
    simp [Function.frame, or_imp, forall_and, Instr.WideTyped, Instr.WellTyped]
  -- The lanes of what is bound.
  have bound : ∀ {os : List Operand} {lanes : List LaneKind}, os.length = lanes.length →
      (∀ o lane, (o, lane) ∈ os.zip lanes → Lanes.IsBound g f o lane) →
      List.Forall₂ (fun o lane => Splits o.type lane ∧
        (o.type ≠ .ptr → (Lanes.ofFunction e g f).get o = .varying)) os lanes :=
    fun hlen hbound => List.forall₂_iff_zip.2 ⟨hlen, fun {o lane} hmem =>
      ⟨hg.splits hf (hbound o lane hmem), hg.get_eq hf hs.regular (hbound o lane hmem)⟩⟩
  have hps_typed := forall₂_hasType_iff hs.two_le hparams hf.params_typed (bound
    (hf.params_typed.length_eq.trans hg.params_split.length_eq)
    fun _ _ => List.mem_append_left _)
  have hrs_typed := forall₂_hasType_iff hs.two_le hresults hf.results_typed (bound
    (hf.results_typed.length_eq.trans hg.results_split.length_eq)
    fun _ _ => List.mem_append_right _)
  rw [← hg.params_eq] at hps_typed
  rw [← hg.results_eq] at hrs_typed
  have hdecl : q.decl = g.decl := by
    obtain ⟨_, _, _, -, -, -, hq⟩ := of_packFunction_eq_ok h
    exact congrArg Function.decl hq
  have haddresses : (∀ p ∈ f.addresses, (Lanes.ofFunction e g f).get p ≠ .varying) ↔
      ((∀ o ∈ f.params, o.type = .ptr → (Lanes.ofFunction e g f).get o ≠ .varying) ∧
        ∀ o ∈ f.results, o.type = .ptr → (Lanes.ofFunction e g f).get o ≠ .varying) ∧
      ∀ p ∈ f.instrs.flatMap Instr.addresses, (Lanes.ofFunction e g f).get p ≠ .varying := by
    rw [Function.addresses, List.forall_mem_append]
    simp only [List.mem_filter, List.mem_append, decide_eq_true_eq, and_imp, or_imp, forall_and]
  rw [haddresses, ← hps_typed, ← hrs_typed, ← hbody_typed, ← hdecl]
  exact ⟨fun h => ⟨⟨h.params_typed, h.results_typed⟩, h.body_typed⟩,
    fun h => ⟨h.2, h.1.1, h.1.2⟩⟩

end Typing

end Lane.Packing
