import Lane.Proofs.Analysis.Parts
import Lane.Proofs.Lowering.Instances
import Lane.Proofs.Lowering.Paths
import Mathlib.Data.List.Zip

set_option relaxedAutoImplicit false
set_option autoImplicit false

/-!
# Accesses to instances

If all types in a function are scalars and `simd` classes that are made of scalars, its code reads
and writes scalars of instances only. The address of every access is that of an instance, which is
in a parameter or in a stack slot, and its path leads along member variables from the class of the
instance to a scalar.

## Main definitions

* `Lane.Ty.IsFlat`: scalars, and classes that are made of scalars.
* `Lane.Lowering.Rooted`: instructions that access instances only.
* `Lane.Lowering.Stays`: computations that emit such instructions.

## Main results

* `Lane.Lowering.expr_stays`, `Lane.Lowering.assign_stays`, `Lane.Lowering.statements_stay`: the
  code of expressions and statements.
* `Lane.Lowering.rooted_of_function`: the code of functions.
-/

namespace Lane

open Lowering (Includes)

/-! ## Flat types -/

namespace Ty

/-- Scalars. -/
def IsScalar (t : Ty) : Prop := ∃ q k, t = .scalar q k

/-- **Flat types**: scalars, and `simd` classes of the program that hold nothing but scalars and
such classes. -/
def IsFlat (p : Program) : Ty → Prop
  | .scalar _ _ => True
  | .cls _ c => ∀ d, Includes p c d → p.Valid (.cls .var d) ∧ d.isSimd ∧
      ∀ v ∈ (p.classOf d).vars, v.type.IsScalar ∨ v.type.isClass
  | _ => False

variable {p : Program} {t : Ty} {q : Modifier} {c : ClassRef} {v : MemberVar}

/-- A modifier does not change whether a type is flat. -/
@[simp] lemma isFlat_withModifier : (t.withModifier q).IsFlat p ↔ t.IsFlat p := by
  cases t <;> rfl

/-- What is atomic and flat is a scalar. -/
lemma IsFlat.isScalar (h : t.IsFlat p) (ht : t.isAtomic) : t.IsScalar := by
  cases t with
  | scalar q k => exact ⟨q, k, rfl⟩
  | ptr => exact h.elim
  | _ => cases ht

/-- What is not atomic and flat is a class. -/
lemma IsFlat.exists_cls (h : t.IsFlat p) (ht : t.isAtomic = false) : ∃ q c, t = .cls q c := by
  cases t with
  | cls q c => exact ⟨q, c, rfl⟩
  | container => exact h.elim
  | error => exact h.elim
  | _ => cases ht

/-- The member variables of flat classes are flat. -/
lemma IsFlat.member (h : (Ty.cls q c).IsFlat p) (hv : v ∈ (p.classOf c).vars) :
    v.type.IsFlat p := by
  obtain ⟨_, _, hs⟩ | hc := (h c .refl).2.2 v hv
  · rw [hs]
    trivial
  · cases hvt : v.type with
    | cls q d => exact fun e he => h e (.head ⟨v, hv, q, hvt⟩ he)
    | _ =>
      rw [hvt] at hc
      cases hc

/-- A scalar is no address. -/
lemma IsScalar.kind_ne (h : t.IsScalar) : t.code.kind ≠ .ptr := by
  obtain ⟨q, k, rfl⟩ := h
  show k.code ≠ _
  cases k <;> decide

/-- Scalars are atomic. -/
lemma IsScalar.isAtomic (h : t.IsScalar) : t.isAtomic := by
  obtain ⟨q, k, rfl⟩ := h
  rfl

/-- A class type is no scalar. -/
lemma not_isScalar_cls : ¬(Ty.cls q c).IsScalar := nofun

end Ty

/-- Expressions all types in which are flat. -/
def TExpr.IsFlat (p : Program) (x : TExpr) : Prop := ∀ y, x.Has y → ∀ t ∈ y.types, t.IsFlat p

/-- The parts of a flat expression are flat. -/
lemma TExpr.IsFlat.part {p : Program} {x y : TExpr} (hx : x.IsFlat p) (hy : y ∈ x.parts) :
    y.IsFlat p :=
  fun z hz => hx z (.part hy hz)

/-- The type of a flat expression is flat. -/
lemma TExpr.IsFlat.of_types {p : Program} {x : TExpr} {t : Ty} (hx : x.IsFlat p)
    (ht : x.types = [t]) : t.IsFlat p :=
  hx x (.refl x) t (by simp [ht])

/-- Assignments all types in which are flat. -/
def FlatAssign (p : Program) : AssignCondition := fun _ vs ps ds =>
  (∀ x ∈ vs ++ ps.filterMap Pair.place? ++ ds, x.IsFlat p) ∧ ∀ l ∈ declaredBy ps, l.type.IsFlat p

namespace Lowering

open Code

/-! ## Rooted code -/

section Defs

variable (env : Env) (ρ : Operand → ClassRef → Prop)

/-- **Accesses to instances**: along the path to a scalar in an instance of a class. What was
spilled is in a slot of its own, which has its size. -/
def RootedAt (base : Operand) (o : Option Offset) (t : VType) : Prop :=
  (o = none ∧ t.kind ≠ .ptr ∧ ∃ s, base = .slot s ∧ s.struct = none ∧ s.size = t.size) ∨
    ∃ c π d v, ρ base c ∧ o = some (.ofPath π) ∧
      Along env.program env.layouts.struct? c π d v ∧ v.type.IsScalar

/-- **Rooted instructions** access instances only, and compute with scalars. An address is moved to
registers at most. -/
def Rooted : Instr → Prop
  | .load a p o | .store p o a => RootedAt env ρ p o a.type
  | .assign .move d _ => (∃ r, d = .reg r) ∨ d.type.kind ≠ .ptr
  | .assign kind d args => kind ≠ .ptrAdd ∧ ∀ a ∈ d :: args, a.type.kind ≠ .ptr
  | .alloc .. | .memcpy .. | .params | .results => False
  | _ => True

/-- Storage for values of a flat type. -/
def Storage.Fits (t : Ty) : Storage → Prop
  | .var v => t.IsScalar ∧ v.type.kind ≠ .ptr
  | .memory a => ∃ q c, t = .cls q c ∧ ρ a c

/-- **Places in instances**, and variables. -/
def Place.Fits : Place → Prop
  | .var v t => t.IsScalar ∧ v.type.kind ≠ .ptr
  | .memory a o t => (o = none ∧ ∃ q c, t = .cls q c ∧ ρ a c) ∨
    ∃ c π d v q, ρ a c ∧ o = some (.ofPath π) ∧
      Along env.program env.layouts.struct? c π d v ∧ t = v.type.withModifier q

/-- **Storage of locals**: what is stored is one of the locals `Γ`. -/
def Stowed (Γ : List Local) (L : Locals) : Prop :=
  ∀ q ∈ L, ∃ l ∈ Γ, l.id = q.1 ∧ q.2.Fits ρ l.type

/-- Slots for instances of flat classes are instances. -/
def KnowsSlots : Prop := ∀ (q : Modifier) (c : ClassRef) (st : Struct) (s : Slot),
  (Ty.cls q c).IsFlat env.program → env.layouts.struct? c = some st → s.struct = some st.name →
    ρ (.slot s) c

/-- **Computations that emit rooted code**: where the locals `Γ` have storage, they only emit rooted
instructions, give storage to the locals `Γ'` at most, and the result satisfies `R`. -/
structure Stays {α : Type} (Γ Γ' : List Local) (m : Lower α) (R : α → Prop) : Prop where
  of_run : ∀ b a b', Stowed ρ Γ b.locals → Runs env m b a b' →
    ((∀ i ∈ b.code, Rooted env ρ i) → ∀ i ∈ b'.code, Rooted env ρ i) ∧ Stowed ρ Γ' b'.locals ∧ R a

end Defs

section Stays

variable {α β : Type} {env : Env} {ρ : Operand → ClassRef → Prop} {Γ Γ' Γ'' : List Local}
  {m : Lower α} {f : α → Lower β} {R R' : α → Prop} {S : β → Prop} {o : Operand} {t : Ty}
  {p : Place} {q : Modifier} {c : ClassRef} {v : MemberVar} {st : Struct} {sm : StructMember}

/-! ## Computations one after the other -/

/-- Storage of more locals is storage of fewer. -/
lemma Stowed.mono {L : Locals} (h : Stowed ρ Γ L) (hΓ : Γ ⊆ Γ') : Stowed ρ Γ' L := fun x hx =>
  (h x hx).imp fun _ => And.imp_left (hΓ ·)

/-- The storage of a local that is looked up. -/
lemma Stowed.of_lookup {L : Locals} (h : Stowed ρ Γ L) (hn : (Γ.map Local.id).Nodup) {l : Local}
    (hl : l ∈ Γ) {s : Storage} (hs : L.lookup l.id = some s) : s.Fits ρ l.type := by
  obtain ⟨l₁, l₂, hL, -⟩ := List.lookup_eq_some_iff.1 hs
  obtain ⟨l', hl', hid, hfits⟩ := h (l.id, s) (by simp [hL])
  obtain rfl := List.inj_on_of_nodup_map hn hl' hl hid
  exact hfits

/-- A computation without effects emits nothing. -/
lemma Stays.pure {a : α} (h : R a) : Stays env ρ Γ Γ (pure a) R where
  of_run b a' b' hb hr := by
    obtain ⟨rfl, rfl⟩ := hr.of_pure
    exact ⟨id, hb, h⟩

/-- Rooted computations in sequence. -/
lemma Stays.bind (hm : Stays env ρ Γ Γ' m R) (hf : ∀ a, R a → Stays env ρ Γ' Γ'' (f a) S) :
    Stays env ρ Γ Γ'' (m >>= f) S where
  of_run b c b'' hb hr := by
    obtain ⟨a, b', hr₁, hr₂⟩ := hr.of_bind
    obtain ⟨hcode, hb', ha⟩ := hm.of_run b a b' hb hr₁
    obtain ⟨hcode', hb'', hc⟩ := (hf a ha).of_run b' c b'' hb' hr₂
    exact ⟨hcode' ∘ hcode, hb'', hc⟩

/-- A weaker result. -/
lemma Stays.weaken (hm : Stays env ρ Γ Γ' m R) (h : ∀ a, R a → R' a) : Stays env ρ Γ Γ' m R' :=
  ⟨fun b a b' hb hr => (hm.of_run b a b' hb hr).imp_right (And.imp_right (h a))⟩

/-- More locals may have storage. -/
lemma Stays.extend (hm : Stays env ρ Γ' Γ'' m R) (hΓ : Γ ⊆ Γ') : Stays env ρ Γ Γ'' m R :=
  ⟨fun b a b' hb hr => hm.of_run b a b' (hb.mono hΓ) hr⟩

/-- A computation that fails emits nothing. -/
lemma Stays.fails (h : Fails env m) : Stays env ρ Γ Γ' m R where
  of_run b a b' _ hr := by
    obtain ⟨x, hx⟩ := h b
    cases hr.symm.trans hx

/-- The builder is read. -/
lemma Stays.get {g : Builder → Lower β} (hg : ∀ b, Stowed ρ Γ b.locals → Stays env ρ Γ Γ' (g b) S) :
    Stays env ρ Γ Γ' (get >>= g) S :=
  ⟨fun b c b' hb hr => (hg b hb).of_run b c b' hb hr⟩

/-- The environment is read. -/
lemma Stays.read {g : Env → Lower β} (hg : Stays env ρ Γ Γ' (g env) S) :
    Stays env ρ Γ Γ' (read >>= g) S :=
  ⟨fun b => hg.of_run b⟩

/-- A value that has to be there. -/
lemma Stays.need {a : Option α} (h : ∀ x, a = some x → R x) : Stays env ρ Γ Γ (need a) R := by
  cases a with
  | none => exact .fails (Fails.throw _)
  | some a => exact .pure (h a rfl)

/-- A rooted instruction is emitted. -/
lemma Stays.emit {i : Instr} (hi : Rooted env ρ i) :
    Stays env ρ Γ Γ (emit i) fun _ => True where
  of_run b a b' hb hr := by
    obtain ⟨-, rfl⟩ := Prod.mk.inj (Except.ok.inj hr)
    exact ⟨fun h => List.forall_mem_append.2 ⟨h, List.forall_mem_singleton.2 hi⟩, hb, trivial⟩

/-- A new register. -/
lemma Stays.newReg (t : VType) :
    Stays env ρ Γ Γ (newReg t) fun o => (∃ r, o = .reg r) ∧ o.type = t where
  of_run b a b' hb hr := by
    obtain ⟨rfl, rfl⟩ := Prod.mk.inj (Except.ok.inj hr)
    exact ⟨id, hb, ⟨_, rfl⟩, rfl⟩

/-- A new variable. -/
lemma Stays.newVar (name : String) (t : VType) :
    Stays env ρ Γ Γ (newVar name t) fun v => v.type = t where
  of_run b a b' hb hr := by
    obtain ⟨rfl, rfl⟩ := Prod.mk.inj (Except.ok.inj hr)
    exact ⟨id, hb, rfl⟩

/-- A new slot, of the struct and size it is made for. -/
lemma Stays.newSlot (name : String) (size align : Int64) (struct : Option String) :
    Stays env ρ Γ Γ (newSlot name size align struct) fun o =>
      ∃ s : Slot, o = .slot s ∧ s.struct = struct ∧ s.size = size where
  of_run b a b' hb hr := by
    obtain ⟨rfl, rfl⟩ := Prod.mk.inj (Except.ok.inj hr)
    exact ⟨id, hb, _, rfl, rfl, rfl⟩

/-- A new label. -/
lemma Stays.newLabel (hint : String) : Stays env ρ Γ Γ (newLabel hint) fun _ => True where
  of_run b a b' hb hr := by
    obtain ⟨-, rfl⟩ := Prod.mk.inj (Except.ok.inj hr)
    exact ⟨id, hb, trivial⟩

/-- A local gets storage that fits its type. -/
lemma Stays.setStorage {l : Local} (hl : l ∈ Γ) {s : Storage} (hs : s.Fits ρ l.type) :
    Stays env ρ Γ Γ (setStorage l.id s) fun _ => True where
  of_run b a b' hb hr := by
    obtain ⟨-, rfl⟩ := Prod.mk.inj (Except.ok.inj hr)
    exact ⟨id, List.forall_mem_cons.2 ⟨⟨l, hl, rfl, hs⟩, hb⟩, trivial⟩

/-- Rooted code in a block. -/
lemma Stays.inBlock {m : Lower Unit} (hm : Stays env ρ Γ Γ' m fun _ => True) :
    Stays env ρ Γ Γ (inBlock m) fun _ => True where
  of_run b a b' hb hr := by
    obtain ⟨_, b₀, hget, h⟩ := hr.of_bind
    obtain ⟨rfl, rfl⟩ := Prod.mk.inj (Except.ok.inj hget)
    obtain ⟨⟨⟩, b₁, hm', h⟩ := h.of_bind
    obtain ⟨-, rfl⟩ := Prod.mk.inj (Except.ok.inj h)
    exact ⟨(hm.of_run b () b₁ hb hm').1, hb, trivial⟩

/-! ## Places -/

/-- A value that is computed from scalars. -/
lemma compute_stays {kind : AssignKind} {u : VType} {args : List Operand} (hk : kind ≠ .ptrAdd)
    (hu : u.kind ≠ .ptr) (ha : ∀ a ∈ args, a.type.kind ≠ .ptr) :
    Stays env ρ Γ Γ (compute kind u args) fun o => o.type.kind ≠ .ptr := by
  refine .bind (.newReg u) fun r hr => ?_
  obtain ⟨⟨r, rfl⟩, hr⟩ := hr
  refine .bind (.emit ?_) fun _ _ => .pure (hr ▸ hu)
  have hall : ∀ a ∈ Operand.reg r :: args, a.type.kind ≠ .ptr :=
    List.forall_mem_cons.2 ⟨hr ▸ hu, ha⟩
  cases kind <;> first | exact .inl ⟨r, rfl⟩ | exact absurd rfl hk | exact ⟨nofun, hall⟩

/-- A value is copied to a register. -/
lemma move_stays (u : VType) (o : Operand) :
    Stays env ρ Γ Γ (compute .move u [o]) fun r => r.type = u := by
  refine .bind (.newReg u) fun r hr => ?_
  obtain ⟨⟨r, rfl⟩, hr⟩ := hr
  exact .bind (.emit (.inl ⟨r, rfl⟩)) fun _ _ => .pure hr

/-- The address of a place is computed, if need be. -/
lemma address_stays (p : Place) : Stays env ρ Γ Γ (address p) fun _ => True := by
  unfold address
  split
  · exact .fails (Fails.bug _)
  · split
    · exact .pure trivial
    · exact .bind (.newReg _) fun r _ => .bind (.emit trivial) fun _ _ => .pure trivial

/-- The scalar at a place in an instance may be accessed. -/
lemma Place.Fits.rootedAt {a : Operand} {off : Option Offset}
    (h : (Place.memory a off t).Fits env ρ)
    (ht : t.IsScalar) (u : VType) : RootedAt env ρ a off u := by
  obtain ⟨-, _, _, rfl, -⟩ | ⟨c, π, d, v, q, hc, ho, hπ, rfl⟩ := h
  · exact absurd ht Ty.not_isScalar_cls
  · refine .inr ⟨c, π, d, v, hc, ho, hπ, ?_⟩
    obtain ⟨_, k, hk⟩ := ht
    cases hv : v.type <;> rw [hv] at hk <;> cases hk
    exact ⟨_, k, rfl⟩

/-- The place of storage that fits. -/
lemma Place.Fits.ofStorage {s : Storage} (h : s.Fits ρ t) : (Place.ofStorage t s).Fits env ρ := by
  cases s with
  | var => exact h
  | memory => exact .inl ⟨rfl, h⟩

/-- A member of an instance. -/
lemma Place.Fits.field (h : p.Fits env ρ) (ht : p.type = .cls q c)
    (hv : v ∈ (env.program.classOf c).vars) (hs : env.layouts.struct? c = some st)
    (hm : st.member? v.name = some sm) (q' : Modifier) :
    (p.field sm (v.type.withModifier q')).Fits env ρ := by
  cases p with
  | var =>
    obtain rfl : _ = Ty.cls q c := ht
    exact absurd h.1 Ty.not_isScalar_cls
  | memory a off t =>
    obtain rfl : t = .cls q c := ht
    obtain ⟨rfl, _, _, hc, ha⟩ | ⟨c₀, π, d, w, q₀, ha, rfl, hπ, hw⟩ := h
    · obtain ⟨-, rfl⟩ := Ty.cls.inj hc
      exact .inr ⟨_, [sm], _, v, q', ha, rfl, .last hs hv hm, rfl⟩
    · have hw : ∃ q₁, w.type = .cls q₁ c := by
        cases hwt : w.type <;> rw [hwt] at hw <;> cases hw
        exact ⟨_, rfl⟩
      obtain ⟨q₁, hw⟩ := hw
      refine .inr ⟨c₀, π ++ [sm], c, v, q', ha, ?_, hπ.snoc hw hs hv hm, rfl⟩
      simp [Place.offset?, Offset.step, Offset.ofPath]

/-- The value at a place. -/
lemma fetch_stays (hp : p.Fits env ρ) (ht : p.type.IsFlat env.program) :
    Stays env ρ Γ Γ (fetch p) fun o => p.type.IsScalar → o.type.kind ≠ .ptr := by
  cases p with
  | var v t => exact .pure fun _ => hp.2
  | memory a off t =>
    simp only [fetch]
    split
    · rename_i hat
      exact (address_stays _).weaken fun _ _ hs => absurd (show t.isAtomic = true from hs.isAtomic)
        (by simpa using hat)
    · rename_i hat
      have hs : t.IsScalar := Ty.IsFlat.isScalar (p := env.program) ht (by simpa using hat)
      refine .bind (.newReg _) fun r hr => .bind (.emit (hp.rootedAt hs _)) fun _ _ =>
        .pure fun _ => ?_
      rw [hr.2]
      exact hs.kind_ne

/-- A scalar is put in a place. -/
lemma put_stays (hp : p.Fits env ρ) (ht : p.type.IsScalar) (o : Operand) :
    Stays env ρ Γ Γ (put p o) fun _ => True := by
  cases p with
  | var v t => exact .emit (.inr hp.2)
  | memory a off t => exact .emit (hp.rootedAt ht _)

/-- The layout entry of a member variable. -/
lemma memberOf_stays (v : MemberVar) : Stays env ρ Γ Γ (memberOf v) fun m =>
    ∃ s, env.layouts.struct? v.cls = some s ∧ s.member? v.name = some m := by
  refine .read ?_
  split
  · exact .fails (Fails.throw _)
  · rename_i s hs
    exact .need fun m hm => ⟨s, hs, hm⟩

/-- The size of a class type comes from its layout. -/
lemma sizeOf_stays (t : Ty) : Stays env ρ Γ Γ (sizeOf t) fun _ =>
    ∀ q c, t = .cls q c → ∃ s, env.layouts.struct? c = some s := by
  unfold sizeOf
  split
  · refine .read ?_
    split
    · rename_i s hs
      refine .pure fun q c hc => ?_
      obtain ⟨-, rfl⟩ := Ty.cls.inj hc
      exact ⟨s, hs⟩
    · exact .fails (Fails.throw _)
  · exact .pure nofun
  · rename_i hcls _
    exact .pure fun q c hc => (hcls q c hc).elim

/-- A slot for an instance is an instance. -/
lemma slotFor_stays (hρ : KnowsSlots env ρ) (name : String) (ht : t.IsFlat env.program) :
    Stays env ρ Γ Γ (slotFor name t) fun o => ∀ q c, t = .cls q c → ρ o c := by
  refine .bind (sizeOf_stays t) fun s hs => .read (.weaken (.newSlot ..) fun o ho q c hc => ?_)
  obtain ⟨x, rfl, hx, -⟩ := ho
  obtain ⟨st, hst⟩ := hs q c hc
  subst hc
  refine hρ q c st x ht hst (hx.trans ?_)
  simp [hst]

/-! ## Locals -/

/-- The storage of a local fits its type. -/
lemma storageOf_stays (hn : (Γ.map Local.id).Nodup) {l : Local} (hl : l ∈ Γ) :
    Stays env ρ Γ Γ (storageOf l) (Storage.Fits ρ l.type) := by
  refine .get fun b hb => ?_
  split
  · rename_i s hs
    exact .pure (hb.of_lookup hn hl hs)
  · exact .fails (Fails.bug _)

/-- A declared local gets storage. -/
lemma bindLocal_stays (hρ : KnowsSlots env ρ) (hn : (Γ.map Local.id).Nodup) {l : Local} (hl : l ∈ Γ)
    (ht : l.type.IsFlat env.program) :
    Stays env ρ Γ Γ (bindLocal l) (Storage.Fits ρ l.type) := by
  have bound : ∀ s : Storage, s.Fits ρ l.type → Stays env ρ Γ Γ (do
      setStorage l.id s
      return s) (Storage.Fits ρ l.type) := fun s hs =>
    .bind (.setStorage hl hs) fun _ _ => .pure hs
  refine .get fun b hb => ?_
  split
  · rename_i s hs
    exact .pure (hb.of_lookup hn hl hs)
  · split
    · rename_i hat
      have hs := ht.isScalar hat
      refine .bind (.newVar ..) fun v hv => bound (.var v) ⟨hs, ?_⟩
      rw [hv]
      exact hs.kind_ne
    · rename_i hat
      obtain ⟨q, c, hc⟩ := ht.exists_cls (by simpa using hat)
      exact .bind (slotFor_stays hρ _ ht) fun a ha => bound (.memory a) ⟨q, c, hc, ha q c hc⟩

end Stays

/-! ## Expressions -/

section Expressions

variable {env : Env} {e : Elaborated} {ρ : Operand → ClassRef → Prop} {Γ : List Local} {x : Lowered}
  {o : Operand} {t : Ty} {a : Param} {ds : List (Option Operand)}

/-- **Operands for values of a type**: scalars are no addresses, and what has storage of its own is
an instance. -/
def Stands (ρ : Operand → ClassRef → Prop) (own : Prop) (o : Operand) (t : Ty) : Prop :=
  (t.IsScalar → o.type.kind ≠ .ptr) ∧ (own → ∀ q c, t = .cls q c → ρ o c)

/-- **Both ways of lowering an expression** emit rooted code. -/
structure Lowered.Stays (env : Env) (ρ : Operand → ClassRef → Prop) (Γ : List Local) (x : Lowered) :
    Prop where
  place : Lowering.Stays env ρ Γ Γ x.place fun p => p.Fits env ρ ∧ x.expr.types = [p.type]
  values : ∀ ds, Lowering.Stays env ρ Γ Γ (x.values ds) fun os =>
    List.Forall₂ (Stands ρ (ds = [] ∧ x.expr.isAddressable = false)) os x.expr.types

/-- The type of an expression is its only one. -/
lemma typeOf_stays (x : TExpr) : Stays env ρ Γ Γ (typeOf x) fun t => x.types = [t] := by
  unfold typeOf TExpr.type?
  cases x.types with
  | nil => exact .fails (Fails.bug _)
  | cons t ts =>
    cases ts with
    | nil => exact .pure rfl
    | cons => exact .fails (Fails.bug _)

/-- The value of an expression stands for its type. -/
lemma Lowered.Stays.value (hx : x.Stays env ρ Γ) : Lowering.Stays env ρ Γ Γ x.value fun o =>
    ∃ t, x.expr.types = [t] ∧ Stands ρ (x.expr.isAddressable = false) o t := by
  refine .bind (hx.values []) fun os hos => ?_
  split
  · obtain ⟨t, ts, ho, hts, heq⟩ := List.forall₂_cons_left_iff.1 hos
    obtain rfl := List.forall₂_nil_left_iff.1 hts
    exact .pure ⟨t, heq, ho.1, fun h => ho.2 ⟨rfl, h⟩⟩
  · exact .fails (Fails.bug _)

/-- The value of an expression that yields a scalar. -/
lemma Lowered.Stays.scalar (hx : x.Stays env ρ Γ) (ht : x.expr.types = [t]) (hs : t.IsScalar) :
    Lowering.Stays env ρ Γ Γ x.value fun o => o.type.kind ≠ .ptr :=
  hx.value.weaken fun o ⟨u, hu, ho⟩ => by
    obtain rfl : t = u := by simpa using ht.symm.trans hu
    exact ho.1 hs

/-- The place of an instance; results of calls have storage of their own. -/
lemma Lowered.Stays.object (hx : x.Stays env ρ Γ) : Lowering.Stays env ρ Γ Γ x.object fun p =>
    ∀ q c, x.expr.types = [.cls q c] → p.Fits env ρ ∧ p.type = .cls q c := by
  unfold Lowered.object
  split
  · refine hx.place.weaken fun p hp q c hc => ⟨hp.1, ?_⟩
    simpa using hp.2.symm.trans hc
  · rename_i ha
    refine .bind hx.value fun v hv => .bind (typeOf_stays _) fun t ht => .pure fun q c hc => ?_
    obtain ⟨u, hu, hv⟩ := hv
    obtain rfl : t = .cls q c := by simpa using ht.symm.trans hc
    obtain rfl : _ = u := by simpa using hc.symm.trans hu
    exact ⟨.inl ⟨rfl, q, c, rfl, hv.2 (by simpa using ha) q c rfl⟩, rfl⟩

/-- The receiver of a call. -/
lemma Lowered.Stays.receiver (hx : x.Stays env ρ Γ) :
    Lowering.Stays env ρ Γ Γ x.receiver fun _ => True := by
  refine .bind (typeOf_stays _) fun t _ => ?_
  split
  · exact hx.value.weaken fun _ _ => trivial
  · exact .bind hx.object fun p _ => address_stays p

/-- An expression that is lowered through its place. -/
lemma stays_ofPlace {y : TExpr} {place : Lower Place} (hy : y.IsFlat env.program)
    (ha : y.isAddressable) (h : Stays env ρ Γ Γ place fun p => p.Fits env ρ ∧ y.types = [p.type]) :
    (Lowered.ofPlace y place).Stays env ρ Γ where
  place := h
  values ds := by
    refine .bind h fun p hp => .bind (fetch_stays hp.1 (hy.of_types hp.2)) fun o ho => .pure ?_
    show List.Forall₂ _ [o] y.types
    rw [hp.2]
    refine .cons ⟨ho, fun h => ?_⟩ .nil
    exact absurd ((show y.isAddressable = false from h.2).symm.trans ha) Bool.false_ne_true

/-- An expression that is lowered through its values. -/
lemma stays_ofValues {y : TExpr} {values : List (Option Operand) → Lower (List Operand)}
    (h : ∀ ds, Stays env ρ Γ Γ (values ds) fun os => List.Forall₂ (Stands ρ (ds = [])) os y.types) :
    (Lowered.ofValues y values).Stays env ρ Γ where
  place := .fails (Fails.of_bind fun _ => Fails.bug _)
  values ds := (h ds).weaken fun _ hos => hos.imp fun _ _ ho => ⟨ho.1, fun h => ho.2 h.1⟩

/-- An expression that yields a scalar. -/
lemma stays_ofValue {y : TExpr} {value : Lower Operand} (ht : y.types = [t]) (hs : t.IsScalar)
    (h : Stays env ρ Γ Γ value fun o => o.type.kind ≠ .ptr) :
    (Lowered.ofValue y value).Stays env ρ Γ :=
  stays_ofValues fun _ => .bind h fun o ho => .pure (by
    rw [ht]
    exact .cons ⟨fun _ => ho, fun _ q c hc => absurd (hc ▸ hs) Ty.not_isScalar_cls⟩ .nil)

/-! ## Calls -/

/-- Variables that were spilled. -/
def Spills (back : List (Operand × Var)) : Prop :=
  ∀ q ∈ back, (∃ s, q.1 = .slot s ∧ s.struct = none ∧ s.size = q.2.type.size) ∧
    q.2.type.kind ≠ .ptr

/-- A value is spilled. -/
lemma spill_stays (name : String) {size : Int64} (align : Int64) {o : Operand}
    (ho : o.type.size = size) (hk : o.type.kind ≠ .ptr) : Stays env ρ Γ Γ (do
      let slot ← newSlot name size align none
      emit (.store slot none o)
      return slot) fun a => ∃ s, a = .slot s ∧ s.struct = none ∧ s.size = size :=
  .bind (.newSlot ..) fun _ ha => .bind (.emit (.inl ⟨rfl, hk, by rwa [ho]⟩)) fun _ _ => .pure ha

/-- Spilled variables are written back. -/
lemma writeBack_stays : ∀ {back : List (Operand × Var)}, Spills back →
    Stays env ρ Γ Γ (writeBack back) fun _ => True
  | [], _ => .pure trivial
  | (s, v) :: back, h => by
    obtain ⟨⟨hs, hv⟩, hback⟩ := List.forall_mem_cons.1 h
    exact .bind (.newReg _) fun r hr =>
      .bind (.emit (.inl ⟨rfl, by rwa [hr.2], by rwa [hr.2]⟩)) fun _ _ =>
      .bind (.emit (.inr hv)) fun _ _ => writeBack_stays hback

/-- An argument is passed; what it spills is a variable. -/
lemma argument_stays (a : Param) (hx : x.Stays env ρ Γ) :
    Stays env ρ Γ Γ (argument a x) fun q => Spills q.2 := by
  have nothing : Spills [] := List.forall_mem_nil _
  unfold argument
  split
  · exact .bind hx.object fun p _ => .bind (address_stays p) fun _ _ => .pure nothing
  · split
    · refine .bind hx.place fun p hp => ?_
      cases p with
      | var v t =>
        exact .bind (spill_stays _ _ rfl hp.1.2) fun s hs =>
          .pure (List.forall_mem_singleton.2 ⟨hs, hp.1.2⟩)
      | memory => exact .bind (address_stays _) fun _ _ => .pure nothing
    · exact .bind hx.value fun _ _ => .pure nothing

/-- Arguments are passed. -/
lemma arguments_stay : ∀ (as : List Param) {xs : List Lowered}, (∀ x ∈ xs, x.Stays env ρ Γ) →
    Stays env ρ Γ Γ (arguments as xs) fun q => Spills q.2
  | [], _, _ => .pure (List.forall_mem_nil _)
  | _ :: _, [], _ => .fails (Fails.throw _)
  | a :: as, x :: xs, h => by
    obtain ⟨hx, hxs⟩ := List.forall_mem_cons.1 h
    exact .bind (argument_stays a hx) fun q hq => .bind (arguments_stay as hxs) fun r hr =>
      .pure (List.forall_mem_append.2 ⟨hq, hr⟩)

/-- Results that a call has storage for: those that are not returned are passed by address. -/
def Returns (p : Program) (rs : List Param) : Prop :=
  ∀ a ∈ rs, a.type.IsFlat p ∧ (a.isHidden = false → a.type.isAtomic)

/-- The storage of results stands for their types. -/
lemma resultStorage_stays (hρ : KnowsSlots env ρ) (ds : List (Option Operand)) :
    ∀ {rs : List Param} {n : Nat}, Returns env.program rs →
    Stays env ρ Γ Γ (resultStorage ds n rs) fun q =>
      List.Forall₂ (Stands ρ (ds = [])) q.1 (rs.map Param.type)
  | [], _, _ => .pure .nil
  | a :: rs, n, h => by
    obtain ⟨⟨hat, hreg⟩, hrs⟩ := List.forall_mem_cons.1 h
    unfold resultStorage
    split
    · rename_i hh
      have hno : ¬a.type.IsScalar := fun hs => by simp [Param.isHidden, hs.isAtomic] at hh
      have hidden : ∀ o : Operand, (ds = [] → ∀ q c, a.type = .cls q c → ρ o c) →
          Stays env ρ Γ Γ (do
            let q ← resultStorage ds (n + 1) rs
            return (o :: q.1, o :: q.2.1, q.2.2)) fun q =>
              List.Forall₂ (Stands ρ (ds = [])) q.1 (a.type :: rs.map Param.type) := fun o ho =>
        .bind (resultStorage_stays hρ ds hrs) fun q hq =>
          .pure (.cons ⟨fun hs => absurd hs hno, ho⟩ hq)
      split
      · rename_i hd
        refine .bind (.pure trivial : Stays env ρ Γ Γ _ fun _ => True) fun _ _ =>
          hidden _ fun hnil => ?_
        rw [hnil] at hd
        cases hd
      · exact .bind (slotFor_stays hρ _ hat) fun o ho => hidden o fun _ => ho
    · rename_i hh
      have hs := hat.isScalar (hreg (by simpa using hh))
      refine .bind (.newReg _) fun r hr => .bind (resultStorage_stays hρ ds hrs) fun q hq =>
        .pure (.cons ⟨fun _ => ?_, fun _ q c hc => absurd (hc ▸ hs) Ty.not_isScalar_cls⟩ hq)
      rw [hr.2]
      exact hs.kind_ne

/-- A modifier does not change what an operand stands for. -/
lemma stands_withModifier {own : Prop} {q : Modifier} :
    Stands ρ own o (t.withModifier q) ↔ Stands ρ own o t := by
  cases t <;> simp [Stands, Ty.withModifier, Ty.IsScalar]

/-- **Calls** have storage for their results. -/
lemma call_stays (hρ : KnowsSlots env ρ) {s : Signature} (decl : Option FuncDecl)
    {self : Lower (List Operand)} {P : List Operand → Prop} (hself : Stays env ρ Γ Γ self P)
    {xs : List Lowered} (hxs : ∀ x ∈ xs, x.Stays env ρ Γ) (hrs : Returns env.program s.results)
    (ds : List (Option Operand)) :
    Stays env ρ Γ Γ (call s decl self xs ds) fun q =>
      P q.1 ∧ List.Forall₂ (Stands ρ (ds = [])) q.2 s.resultTypes := by
  unfold call
  split
  · exact .fails (Fails.bug _)
  · refine .bind hself fun os hos => .bind (arguments_stay _ hxs) fun q hq =>
      .bind (resultStorage_stays hρ ds hrs) fun r hr => ?_
    have rest : Stays env ρ Γ Γ (do
        writeBack q.2
        return (os, r.1)) fun q =>
          P q.1 ∧ List.Forall₂ (Stands ρ (ds = [])) q.2 s.resultTypes := by
      refine .bind (writeBack_stays hq) fun _ _ => .pure ⟨hos, ?_⟩
      rw [Signature.resultTypes, List.forall₂_map_right_iff]
      exact (List.forall₂_map_right_iff.1 hr).imp fun _ _ => stands_withModifier.2
    dsimp only
    split
    · exact .bind (.emit trivial) fun _ _ => rest
    · exact rest

/-- A member function is called. -/
lemma callMember_stays (hρ : KnowsSlots env ρ) (f : MemberFunction) {self : Lower (List Operand)}
    {P : List Operand → Prop} (hself : Stays env ρ Γ Γ self P) {xs : List Lowered}
    (hxs : ∀ x ∈ xs, x.Stays env ρ Γ) (hrs : Returns env.program f.sig.results)
    (ds : List (Option Operand)) :
    Stays env ρ Γ Γ (callMember f self xs ds) fun q =>
      P q.1 ∧ List.Forall₂ (Stands ρ (ds = [])) q.2 f.sig.resultTypes :=
  .read (call_stays hρ _ hself hxs hrs ds)

/-- A routine is called. -/
lemma callRoutine_stays (hρ : KnowsSlots env ρ) (f : MemberFunction) {xs : List Lowered}
    (hxs : ∀ x ∈ xs, x.Stays env ρ Γ) (hrs : Returns env.program f.sig.results)
    (ds : List (Option Operand)) :
    Stays env ρ Γ Γ (callRoutine f xs ds) fun os =>
      List.Forall₂ (Stands ρ (ds = [])) os f.sig.resultTypes := by
  refine .bind (callMember_stays hρ f (P := fun _ => True) ?_ hxs hrs ds) fun q hq => .pure hq.2
  split
  · exact .fails (Fails.bug _)
  · exact .pure trivial

/-- A create is called. -/
lemma callCreate_stays (hρ : KnowsSlots env ρ) (f : MemberFunction)
    (hc : (Ty.ofClass f.cls).IsFlat env.program) {xs : List Lowered}
    (hxs : ∀ x ∈ xs, x.Stays env ρ Γ) (hrs : Returns env.program f.sig.results)
    (ds : List (Option Operand)) :
    Stays env ρ Γ Γ (callCreate f xs ds) fun os =>
      List.Forall₂ (Stands ρ (ds = [])) os [.ofClass f.cls] := by
  refine .bind (callMember_stays hρ f (P := fun os =>
    List.Forall₂ (Stands ρ (ds = [])) os [.ofClass f.cls]) ?_ hxs hrs ds) fun q hq => .pure hq.1
  split
  · exact .pure (.cons ⟨fun h => absurd h Ty.not_isScalar_cls, nofun⟩ .nil)
  · exact .bind (slotFor_stays hρ _ hc) fun o ho =>
      .pure (.cons ⟨fun h => absurd h Ty.not_isScalar_cls, fun _ => ho⟩ .nil)

/-! ## Flat expressions -/

/-- The place of storage has the type it is made for. -/
@[simp] lemma type_ofStorage (t : Ty) (s : Storage) : (Place.ofStorage t s).type = t := by
  cases s <;> rfl

/-- Results of functions whose types are flat. -/
lemma returns_of_flat {s : Signature} (hr : ∀ a ∈ s.results, a.isOut = true ∨ a.type.isAtomic)
    (ht : ∀ t ∈ s.resultTypes, t.IsFlat env.program) : Returns env.program s.results := by
  intro a ha
  refine ⟨by simpa using ht _ (List.mem_map_of_mem ha), fun hh => ?_⟩
  obtain ho | hat := hr a ha
  · simpa [Param.isHidden, ho] using hh
  · exact hat

/-- Results of member functions. -/
lemma returns_member {f : MemberFunction} (hp : env.program.WellFormed)
    (hf : env.program.Declares f) (ht : ∀ t ∈ f.sig.resultTypes, t.IsFlat env.program) :
    Returns env.program f.sig.results :=
  returns_of_flat (fun a ha => .inl ((hf.validFunc hp).results_valid a ha).2.1) ht

/-- The place of a local fits its type. -/
lemma localPlace_stays {y : TExpr} {l : Local} (hn : (Γ.map Local.id).Nodup) (hl : l ∈ Γ)
    (ht : y.types = [l.type]) : Stays env ρ Γ Γ (localPlace y (some l)) fun p =>
      p.Fits env ρ ∧ y.types = [p.type] := by
  refine .bind (typeOf_stays y) fun t ht' => .bind (storageOf_stays hn hl) fun s hs => .pure ?_
  obtain rfl : l.type = t := by simpa using ht.symm.trans ht'
  exact ⟨.ofStorage hs, by rw [ht, type_ofStorage]⟩

/-- The place of a member variable of an instance. -/
lemma memberPlace_stays {y : TExpr} {v : MemberVar} {q q' : Modifier} {c : ClassRef}
    (hx : x.Stays env ρ Γ) (ht : x.expr.types = [.cls q c])
    (hv : v ∈ (env.program.classOf c).vars) (hc : v.cls = c)
    (hy : y.types = [v.type.withModifier q']) : Stays env ρ Γ Γ (memberPlace y x v) fun p =>
      p.Fits env ρ ∧ y.types = [p.type] := by
  refine .bind (typeOf_stays y) fun t ht' => .bind (memberOf_stays v) fun m hm =>
    .bind (typeOf_stays _) fun u hu => ?_
  obtain rfl : v.type.withModifier q' = t := by simpa using hy.symm.trans ht'
  obtain rfl : Ty.cls q c = u := by simpa using ht.symm.trans hu
  obtain ⟨s, hs, hm⟩ := hm
  refine .bind hx.object fun p hp => .pure ⟨?_, hy⟩
  obtain ⟨hp, hpt⟩ := hp q c ht
  exact hp.field hpt hv (hc ▸ hs) hm q'

/-- **The code of flat expressions** is rooted. -/
theorem expr_stays (hρ : KnowsSlots env ρ) (hp : env.program.WellFormed)
    (hn : (Γ.map Local.id).Nodup) (hΓ : ∀ l ∈ Γ, env.program.Valid l.type) {x : TExpr}
    (hx : x.Typed env.program Γ) (hflat : x.IsFlat env.program) : (expr x).Stays env ρ Γ := by
  have types : ∀ {y : TExpr}, y.IsFlat env.program → ∀ t ∈ y.types, t.IsFlat env.program :=
    fun hy => hy _ (.refl _)
  have kind_ne : ∀ {k : ScalarKind}, (Ty.ofScalar k).code.kind ≠ .ptr := fun {k} =>
    Ty.IsScalar.kind_ne ⟨_, k, rfl⟩
  -- The arguments of a call are flat as well.
  have each : ∀ {args : List TExpr}, (∀ a ∈ args, a.IsFlat env.program →
      (expr a).Stays env ρ Γ) → (∀ a ∈ args, a.IsFlat env.program) →
      ∀ y ∈ exprs args, y.Stays env ρ Γ := by
    intro args ih hargs y hy
    rw [exprs_eq_map] at hy
    obtain ⟨a, ha, rfl⟩ := List.mem_map.1 hy
    exact ih a ha (hargs a ha)
  induction hx with
  | ident hl =>
    simp only [expr]
    exact stays_ofPlace hflat rfl (localPlace_stays hn hl rfl)
  | self hl =>
    simp only [expr]
    exact stays_ofPlace hflat rfl (localPlace_stays hn hl rfl)
  | @literal _ l k hk =>
    simp only [expr]
    refine stays_ofValue rfl ⟨_, k, rfl⟩ (.pure ?_)
    show (constant l).type.kind ≠ _
    rw [type_constant hk]
    exact Ty.IsScalar.kind_ne ⟨_, k, rfl⟩
  | @unary _ op x t r hx ht hr ih =>
    simp only [expr]
    obtain ⟨q, k, rfl, rfl⟩ := UnaryOp.of_builtinType? hr
    have hx := ih (hflat.part (List.mem_singleton_self _))
    refine stays_ofValue rfl ⟨_, k, rfl⟩ (.bind (hx.scalar (by rwa [expr_expr]) ⟨q, k, rfl⟩)
      fun a ha => .bind (typeOf_stays _) fun t' ht' => ?_)
    obtain rfl : Ty.ofScalar k = t' := by simpa [TExpr.types] using ht'
    exact compute_stays (by cases op <;> decide) kind_ne (by simpa using ha)
  | @unaryCall _ op x f hx hf hk ha ih =>
    simp only [expr]
    exact stays_ofValues (callRoutine_stays hρ f
      (by simpa using ih (hflat.part (List.mem_singleton_self _)))
      (returns_member hp hf (types hflat)))
  | @binary _ op x y t u r hx hy ht hu hr ihx ihy =>
    simp only [expr]
    obtain ⟨hc, hat, k, rfl⟩ := BinaryOp.of_builtinType? hr
    have hfx : x.IsFlat env.program := hflat.part (by simp [TExpr.parts])
    have hfy : y.IsFlat env.program := hflat.part (by simp [TExpr.parts])
    have hft := types hfx t (by simp [ht])
    have hfu := types hfy u (by simp [hu])
    have hau : u.isAtomic := by
      rw [← Program.Valid.isAtomic_eq (hx.valid hp hΓ t (by simp [ht]))
        (hy.valid hp hΓ u (by simp [hu])) hc]
      exact hat
    refine stays_ofValue rfl ⟨_, k, rfl⟩
      (.bind ((ihx hfx).scalar (by rwa [expr_expr]) (hft.isScalar hat)) fun a ha =>
        .bind ((ihy hfy).scalar (by rwa [expr_expr]) (hfu.isScalar hau)) fun b hb =>
          .bind (typeOf_stays _) fun t' ht' => ?_)
    obtain rfl : Ty.ofScalar k = t' := by simpa [TExpr.types] using ht'
    exact compute_stays (by cases op <;> decide) kind_ne (by simpa using ⟨ha, hb⟩)
  | @binaryCall _ op x y f hx hy hf hk ha ihx ihy =>
    simp only [expr]
    exact stays_ofValues (callRoutine_stays hρ f
      (by simpa using ⟨ihx (hflat.part (by simp [TExpr.parts])),
        ihy (hflat.part (by simp [TExpr.parts]))⟩)
      (returns_member hp hf (types hflat)))
  -- Flat types have neither containers nor pointers.
  | @size _ x _ _ _ _ _ hx ht _ =>
    exact False.elim (TExpr.IsFlat.of_types (hflat.part (by simp [TExpr.parts])) ht)
  | @member _ x n t c v q _ hx ht hc hv ih =>
    have hfx : x.IsFlat env.program := hflat.part (by simp [TExpr.parts])
    have hft := types hfx t (by simp [ht])
    have hvalid := hx.valid hp hΓ t (by simp [ht])
    cases t with
    | cls q' d =>
      obtain rfl : d = c := Option.some.inj hc
      obtain ⟨k, hk, rfl⟩ := hvalid
      have hown : v.cls = k.ref :=
        ((hp.classes_valid k hk).vars_own v (by rwa [hp.classOf_eq hk] at hv)).1
      simp only [expr]
      exact stays_ofPlace hflat rfl
        (memberPlace_stays (ih hfx) (by rwa [expr_expr]) hv hown rfl)
    | ptr => exact hft.elim
    | _ => cases hc
  | @index _ x i _ _ _ _ _ hx _ ht =>
    exact False.elim (TExpr.IsFlat.of_types (hflat.part (by simp [TExpr.parts])) ht)
  | @deref _ x _ _ hx ht =>
    exact False.elim (TExpr.IsFlat.of_types (hflat.part (by simp [TExpr.parts])) ht)
  | @method _ x n args t c f hx hargs ht hc hf hk ha ih ihs =>
    have hx := ih (hflat.part (by simp [TExpr.parts]))
    simp only [expr]
    refine stays_ofValues fun ds => .bind (callMember_stays hρ f (P := fun _ => True)
      (.bind hx.receiver fun _ _ => .pure trivial)
      (each ihs fun a ha => hflat.part (List.mem_cons_of_mem _ ha))
      (returns_member hp hf (types hflat)) ds) fun r hr => .pure hr.2
  | @convert _ _ _ x t k hx ht hn' hk ih =>
    have hfx : x.IsFlat env.program := hflat.part (by simp [TExpr.parts])
    have hs : t.IsScalar := (types hfx t (by simp [ht])).isScalar
      (by cases t <;> first | rfl | cases hn')
    simp only [expr, exprs, Lowering.convert]
    exact stays_ofValues fun ds => .bind ((ih hfx).scalar (by rwa [expr_expr]) hs) fun a ha =>
      .bind (compute_stays (by decide) kind_ne (by simpa using ha)) fun o ho => .pure
        (.cons ⟨fun _ => ho, fun _ _ _ h => by cases h⟩ .nil)
  | @routine _ _ _ args f hargs hf hk ha ihs =>
    simp only [expr]
    exact stays_ofValues (callRoutine_stays hρ f (each ihs fun a ha => hflat.part ha)
      (returns_member hp hf (types hflat)))
  | @construct _ _ _ args f hargs hf hk ha ihs =>
    simp only [expr]
    exact stays_ofValues (callCreate_stays hρ f (types hflat _ (List.mem_singleton_self _))
      (each ihs fun a ha => hflat.part ha)
      (by simp [Returns, (hf.validFunc hp).results_nil (.inl hk)]))
  | @ccall _ _ args f hargs hf ha ihs =>
    simp only [expr]
    have hvalid := hp.foreigns_valid f hf
    exact stays_ofValues fun ds =>
      .read (.bind (call_stays hρ _ (.pure trivial : Stays env ρ Γ Γ _ fun _ => True)
      (each ihs fun a ha => hflat.part ha)
      (returns_of_flat (fun a ha => .inr (hvalid.results_valid a ha).2.1) (types hflat)) ds)
      fun r hr => .pure hr.2)

end Expressions

/-! ## Assignments -/

section Assignments

variable {env : Env} {ρ : Operand → ClassRef → Prop} {Γ D : List Local} {t : Ty}
  {values ds : List TExpr} {ps : List Pair}

/-- A create or assign is called. -/
lemma invoke_stays (f : MemberFunction) (a : Operand) (as : List Operand) :
    Stays env ρ Γ Γ (invoke f a as) fun _ => True := by
  have decl : Stays env ρ Γ Γ (declOf f) fun _ => True := .read (by
    split
    · exact .pure trivial
    · exact .fails (Fails.bug _))
  refine .bind decl fun d _ => ?_
  split
  · exact .emit trivial
  · exact .pure trivial

/-- **Scopes**: where the locals of a program are told apart by their numbers. -/
structure Visible (p : Program) (Γ : List Local) : Prop where
  ids_nodup : (Γ.map Local.id).Nodup
  valid : ∀ l ∈ Γ, p.Valid l.type

/-- The place that a pair writes to. -/
lemma targetPlace_stays (hρ : KnowsSlots env ρ) (hp : env.program.WellFormed)
    (hΓ : Visible env.program Γ) (hD : D ⊆ Γ) (hflat : ∀ l ∈ D, l.type.IsFlat env.program)
    {g : TTarget} (hg : g.Typed env.program Γ D t)
    (hx : ∀ x, g = .expr x → x.IsFlat env.program) :
    Stays env ρ Γ Γ (targetPlace g) fun q =>
      q.Fits env ρ ∧ q.type = t ∧ t.IsFlat env.program := by
  cases hg with
  | decl hl =>
    exact .bind (bindLocal_stays hρ hΓ.ids_nodup (hD hl) (hflat _ hl)) fun s hs =>
      .pure ⟨.ofStorage hs, type_ofStorage .., hflat _ hl⟩
  | expr he _ ht =>
    have hfx := hx _ rfl
    refine (expr_stays hρ hp hΓ.ids_nodup hΓ.valid he hfx).place.weaken fun q hq => ⟨hq.1, ?_, ?_⟩
    · simpa [ht, eq_comm] using hq.2
    · exact hfx.of_types ht

/-- **Operands for a type**: scalars are no addresses. -/
def Shows (o : Operand) (t : Ty) : Prop := t.IsScalar → o.type.kind ≠ .ptr

/-- **The operands of all expressions on the right**. -/
def AllShow (operands : List (List Operand)) (values : List TExpr) : Prop :=
  ∀ (i : Nat) (x : TExpr), values[i]? = some x →
    ∃ os, operands[i]? = some os ∧ List.Forall₂ Shows os x.types

/-- **Values on the right**, their types being flat. -/
def IsValueOf (p : Program) (values : List TExpr) (v : PairValue) : Prop :=
  v.type.IsFlat p ∧ ∃ x, values[v.source]? = some x ∧ x.types[v.result]? = some v.type

/-- The value of a pair shows its type. -/
lemma valueOf_stays {operands : List (List Operand)} (ho : AllShow operands values) {v : PairValue}
    (hv : IsValueOf env.program values v) :
    Stays env ρ Γ Γ (valueOf operands v) fun o => Shows o v.type := by
  obtain ⟨-, x, hx, ht⟩ := hv
  obtain ⟨os, hos, hshow⟩ := ho _ x hx
  unfold valueOf
  split
  · rename_i o hget
    rw [List.getD, hos, Option.getD_some] at hget
    obtain ⟨hlt, rfl⟩ := List.getElem?_eq_some_iff.1 hget
    obtain ⟨hlt', htype⟩ := List.getElem?_eq_some_iff.1 ht
    refine .pure ?_
    have := hshow.get hlt hlt'
    simpa [htype] using this
  · exact .fails (Fails.throw _)

/-- An atomic parameter stands for a scalar. -/
lemma isScalar_of_compatible {p : Program} {t u : Ty} (h : t.compatible u) (ht : t.isAtomic)
    (hu : u.IsFlat p) : u.IsScalar := by
  cases u with
  | scalar q k => exact ⟨q, k, rfl⟩
  | cls =>
    cases t with
    | cls | container | error => cases ht
    | scalar | ptr => simp [Ty.compatible] at h
  | ptr | container | error => exact hu.elim

/-- The values given to a create or assign. -/
lemma givenArguments_stay {operands : List (List Operand)} (ho : AllShow operands values) :
    ∀ {as : List Param} {vs : List PairValue}, (∀ v ∈ vs, IsValueOf env.program values v) →
      List.Forall₂ (fun (a : Param) (v : PairValue) => a.type.compatible v.type) as vs →
      Stays env ρ Γ Γ (givenArguments operands as vs) fun _ => True
  | _, _, _, .nil => .pure trivial
  | a :: as, v :: vs, hvs, .cons hc hcs => by
    obtain ⟨hv, hvs⟩ := List.forall_mem_cons.1 hvs
    have rest : ∀ o, Stays env ρ Γ Γ (do
        return o :: (← givenArguments operands as vs)) fun _ => True := fun o =>
      .bind (givenArguments_stay ho hvs hcs) fun _ _ => .pure trivial
    refine .bind (valueOf_stays ho hv) fun o hshow => ?_
    dsimp only
    split
    · rename_i hat
      rw [Bool.and_eq_true] at hat
      exact .bind (spill_stays _ _ rfl (hshow (isScalar_of_compatible hc hat.1 hv.1)))
        fun o _ => rest o
    · exact rest o

/-- **The code of a pair** is rooted. -/
lemma pair_stays (hρ : KnowsSlots env ρ) (hp : env.program.WellFormed)
    (hΓ : Visible env.program Γ) (hD : D ⊆ Γ) (hflat : ∀ l ∈ D, l.type.IsFlat env.program)
    {operands : List (List Operand)} (ho : AllShow operands values) {q : Pair}
    (hq : q.Typed env.program Γ D values) (hx : ∀ x, q.place? = some x → x.IsFlat env.program)
    (hvs : ∀ v ∈ q.values, IsValueOf env.program values v) :
    Stays env ρ Γ Γ (pair operands q) fun _ => True := by
  have target : ∀ {g : TTarget} {u : Ty}, q.target = g → g.Typed env.program Γ D u →
      Stays env ρ Γ Γ (targetPlace g) fun q =>
        q.Fits env ρ ∧ q.type = u ∧ u.IsFlat env.program := fun hqt hg =>
    targetPlace_stays hρ hp hΓ hD hflat hg fun x hgx => hx x (by simp [Pair.place?, hqt, hgx])
  -- There are no pointers and no containers.
  have never : ∀ {g : TTarget} {u : Ty} {m : Place → Lower Unit}, q.target = g →
      g.Typed env.program Γ D u → ¬u.IsFlat env.program →
      Stays env ρ Γ Γ (targetPlace g >>= m) fun _ => True := fun hqt hg hu =>
    .bind (target hqt hg) fun _ h => absurd h.2.2 hu
  cases hq with
  | zero hg ht =>
    refine .bind (target rfl hg) fun a ha => put_stays ha.1 ?_ _
    rw [ha.2.1]
    exact ha.2.2.isScalar ht
  | copy hg ht _ =>
    refine .bind (target rfl hg) fun a ha =>
      .bind (valueOf_stays ho (hvs _ (List.mem_singleton_self _))) fun o _ => put_stays ha.1 ?_ _
    rw [ha.2.1]
    exact ha.2.2.isScalar ht
  | address hg _ => exact never rfl hg id
  | containerCopy hg _ => exact never rfl hg id
  | containerEmpty hg => exact never rfl hg id
  | containerAlloc hg _ => exact never rfl hg id
  | user hg _ _ hcs =>
    exact .bind (target rfl hg) fun a _ => .bind (address_stays a) fun _ _ =>
      .bind (givenArguments_stay ho hvs hcs) fun _ _ => invoke_stays ..
  | initializedByCaller => exact .pure trivial

/-- The pairs of an assignment are written. -/
lemma pairs_stay (hρ : KnowsSlots env ρ) (hp : env.program.WellFormed)
    (hΓ : Visible env.program Γ) (hD : D ⊆ Γ) (hflat : ∀ l ∈ D, l.type.IsFlat env.program)
    {operands : List (List Operand)} (ho : AllShow operands values) : ∀ {qs : List Pair},
      (∀ q ∈ qs, q.Typed env.program Γ D values ∧
        (∀ x, q.place? = some x → x.IsFlat env.program) ∧
        ∀ v ∈ q.values, IsValueOf env.program values v) →
      Stays env ρ Γ Γ (pairs operands qs) fun _ => True
  | [], _ => .pure trivial
  | _ :: _, h => by
    obtain ⟨⟨hq, hx, hvs⟩, hqs⟩ := List.forall_mem_cons.1 h
    exact .bind (pair_stays hρ hp hΓ hD hflat ho hq hx hvs) fun _ _ =>
      pairs_stay hρ hp hΓ hD hflat ho hqs

/-- New locals that calls write to get storage. -/
lemma destinations_stay (hρ : KnowsSlots env ρ) (hΓ : Visible env.program Γ) :
    ∀ {qs : List Pair} {dests : List (Nat × List (Option Operand))},
      (∀ l ∈ declaredBy qs, l ∈ Γ ∧ l.type.IsFlat env.program) →
      Stays env ρ Γ Γ (destinations qs dests) fun _ => True
  | [], _, _ => .pure trivial
  | q :: qs, dests, h => by
    rw [declaredBy_cons] at h
    have hqs : ∀ l ∈ declaredBy qs, l ∈ Γ ∧ l.type.IsFlat env.program := fun l hl =>
      h l (List.mem_append_right _ hl)
    unfold destinations
    split
    · rename_i l v vs _ htarget _
      obtain ⟨hl, ht⟩ := h l (by simp [htarget, TTarget.local?])
      refine .bind (bindLocal_stays hρ hΓ.ids_nodup hl ht) fun s _ => ?_
      split
      · exact destinations_stay hρ hΓ hqs
      · exact destinations_stay hρ hΓ hqs
    · exact destinations_stay hρ hΓ hqs

/-- Variables are copied to registers. -/
lemma snapshot_stays : ∀ {os : List Operand} {ts : List Ty}, List.Forall₂ Shows os ts →
    Stays env ρ Γ Γ (snapshot os) fun os' => List.Forall₂ Shows os' ts
  | _, _, .nil => .pure .nil
  | .var v :: _, _, .cons ho hos =>
    .bind (move_stays v.type (.var v)) fun _ hr => .bind (snapshot_stays hos) fun _ h =>
      .pure (.cons (fun hs => hr ▸ ho hs) h)
  | .reg _ :: _, _, .cons ho hos | .const _ :: _, _, .cons ho hos | .slot _ :: _, _, .cons ho hos
  | .absent :: _, _, .cons ho hos =>
    .bind (snapshot_stays hos) fun _ h => .pure (.cons ho h)

/-- The values of an assignment are evaluated. -/
lemma evaluate_stays {qs : List Pair} (hqs : ∀ n, isPointee qs n = false)
    (dests : List (Nat × List (Option Operand))) :
    ∀ (n : Nat) {xs : List TExpr}, (∀ x ∈ xs, (expr x).Stays env ρ Γ) →
      Stays env ρ Γ Γ (evaluate qs dests n xs) fun operands => AllShow operands xs
  | _, [], _ => .pure nofun
  | n, x :: xs, h => by
    obtain ⟨hx, hxs⟩ := List.forall_mem_cons.1 h
    have more : ∀ os, List.Forall₂ Shows os x.types → Stays env ρ Γ Γ (do
        return os :: (← evaluate qs dests (n + 1) xs)) fun operands =>
          AllShow operands (x :: xs) := by
      intro os hos
      refine .bind (evaluate_stays hqs dests (n + 1) hxs) fun oss hoss => .pure fun i y hy => ?_
      cases i with
      | zero =>
        obtain rfl := Option.some.inj hy
        exact ⟨os, rfl, hos⟩
      | succ i => exact hoss i y hy
    unfold evaluate
    dsimp only
    split
    · rename_i hpointee
      rw [hqs n] at hpointee
      cases hpointee
    · refine .bind (hx.values _) fun os hos => ?_
      rw [expr_expr] at hos
      have hos' : List.Forall₂ Shows os x.types := hos.imp fun _ _ ho => ho.1
      split
      · exact .bind (snapshot_stays hos') fun os h => more os h
      · exact more os hos'

/-- Calls whose results are dropped. -/
lemma discard_stays : ∀ {xs : List TExpr}, (∀ x ∈ xs, (expr x).Stays env ρ Γ) →
    Stays env ρ Γ Γ (discard xs) fun _ => True
  | [], _ => .pure trivial
  | _ :: _, h => .bind ((h _ (List.mem_cons_self ..)).values []) fun _ _ =>
      discard_stays fun x hx => h x (List.mem_cons_of_mem _ hx)

/-- The locals of an assignment are told apart from those before it. -/
lemma Visible.assign {p : Program} (hΓ : Visible p Γ) (ha : AssignTyped p Γ values ps ds) :
    Visible p (Γ ++ declaredBy ps) where
  ids_nodup := by
    rw [List.map_append]
    refine List.nodup_append'.2 ⟨hΓ.ids_nodup, ha.ids_nodup, fun n hn hn' => ?_⟩
    obtain ⟨l, hl, rfl⟩ := List.mem_map.1 hn'
    exact ha.ids_new l hl hn
  valid l hl := (List.mem_append.1 hl).elim (hΓ.valid l) (ha.declared_valid l)

/-- No pointer is pointed at anything, as there are no pointers. -/
lemma isPointee_eq_false {p : Program} (ha : AssignTyped p Γ values ps ds)
    (hflatl : ∀ l ∈ declaredBy ps, l.type.IsFlat p)
    (hflatx : ∀ q ∈ ps, ∀ x, q.place? = some x → x.IsFlat p) (n : Nat) :
    isPointee ps n = false := by
  rw [Bool.eq_false_iff]
  intro h
  obtain ⟨q, hq, hpoints⟩ := List.any_eq_true.1 h
  have hkind : q.kind = .addressOf := by simpa using (Bool.and_eq_true_iff.1 hpoints).1
  have hx := hflatx q hq
  cases ha.pairs_typed q hq with
  | @address g m t _ hg _ =>
    generalize hu : Ty.ptr m t = u at hg
    have hflat : u.IsFlat p := by
      cases hg with
      | decl hl => exact hflatl _ hl
      | expr _ _ ht => exact (hx _ rfl).of_types ht
    rw [← hu] at hflat
    exact hflat
  | _ => cases hkind

/-- **The code of an assignment** is rooted. -/
theorem assign_stays (hρ : KnowsSlots env ρ) (hp : env.program.WellFormed)
    (hΓ : Visible env.program Γ) (ha : AssignTyped env.program Γ values ps ds)
    (hflat : FlatAssign env.program [] values ps ds) :
    Stays env ρ Γ (Γ ++ declaredBy ps) (assign values ps ds) fun _ => True := by
  obtain ⟨hflatx, hflatl⟩ := hflat
  have hsub : Γ ⊆ Γ ++ declaredBy ps := List.subset_append_left _ _
  have hΔ := hΓ.assign ha
  have each : ∀ x ∈ values ++ ps.filterMap Pair.place? ++ ds,
      (expr x).Stays env ρ (Γ ++ declaredBy ps) := fun x hx =>
    expr_stays hρ hp hΔ.ids_nodup hΔ.valid ((TStmt.typed_of_assign ha hx).mono hsub) (hflatx x hx)
  have hvalues : ∀ x ∈ values, (expr x).Stays env ρ (Γ ++ declaredBy ps) := fun x hx =>
    each x (by simp [hx])
  have hplaces : ∀ q ∈ ps, ∀ x, q.place? = some x → x.IsFlat env.program := fun q hq x hx =>
    hflatx x (by
      simp only [List.mem_append, List.mem_filterMap]
      exact .inl (.inr ⟨q, hq, hx⟩))
  have hsources : ∀ q ∈ ps, ∀ v ∈ q.values, IsValueOf env.program values v := by
    intro q hq v hv
    obtain ⟨i, x, hi, hx, -, ht⟩ := Analysis.mem_resultsFrom (ha.mem_resultsFrom hq hv)
    obtain rfl : v.source = i := by omega
    exact ⟨hflatx x (by simp [List.mem_of_getElem? hx]) x (.refl x) _ (List.mem_of_getElem? ht),
      x, hx, ht⟩
  have hpairs : ∀ q ∈ ps, q.Typed env.program (Γ ++ declaredBy ps) (declaredBy ps) values ∧
      (∀ x, q.place? = some x → x.IsFlat env.program) ∧
      ∀ v ∈ q.values, IsValueOf env.program values v := fun q hq =>
    ⟨(ha.pairs_typed q hq).mono hsub, hplaces q hq, hsources q hq⟩
  -- There are no pointers to assign, so no value is wanted by its address.
  have hpointee : ∀ n, isPointee ps n = false := fun n =>
    isPointee_eq_false ha hflatl hplaces n
  refine .extend ?_ hsub
  refine .bind (discard_stays fun x hx => each x (by simp [hx])) fun _ _ =>
    .bind (destinations_stay hρ hΔ fun l hl => ⟨List.mem_append_right _ hl, hflatl l hl⟩)
      fun dests _ => ?_
  -- Unless a create or assign takes its arguments directly, all values come before all pairs.
  have indirect : Stays env ρ (Γ ++ declaredBy ps) (Γ ++ declaredBy ps) (do
      let operands ← evaluate ps dests 0 values
      pairs operands ps) fun _ => True :=
    .bind (evaluate_stays hpointee dests 0 hvalues) fun _ hos =>
      pairs_stay hρ hp hΔ (List.subset_append_right _ _) hflatl hos hpairs
  split
  · rename_i f g ws
    split
    · have hq := hpairs _ (List.mem_singleton_self _)
      refine .bind (R := fun _ => True) ?_ fun q _ => .bind (address_stays q)
        fun a _ => .bind (arguments_stay f.sig.params fun x hx => ?_) fun r hr =>
        .bind (invoke_stays ..) fun _ _ => .bind (writeBack_stays hr) fun _ _ => .pure trivial
      · cases hq.1 with
        | user hg =>
          exact (targetPlace_stays hρ hp hΔ (List.subset_append_right _ _) hflatl hg fun x hgx =>
            hq.2.1 x (by simp [Pair.place?, hgx])).weaken fun _ _ => trivial
      · obtain ⟨v, -, hv⟩ := List.mem_filterMap.1 hx
        obtain ⟨e, he, rfl⟩ := Option.map_eq_some_iff.1 hv
        exact hvalues e (List.mem_of_getElem? he)
    · exact indirect
  · exact indirect

end Assignments

/-! ## Statements -/

section Statements

open TStmt (declares declaresAll)

variable {env : Env} {ρ : Operand → ClassRef → Prop} {p : Program}

/-- What a statement declares is told apart from what is visible before it. -/
lemma Visible.declares : ∀ {s : TStmt} {Γ : List Local} {inLoop : Bool}, Visible p Γ →
    s.Typed p Γ inLoop → Visible p (Γ ++ s.declares)
  | .assign .., _, _, h, hs => h.assign hs
  | .ifThen .., _, _, h, _ | .ifElse .., _, _, h, _ | .whileLoop .., _, _, h, _
  | .repeatUntil .., _, _, h, _ | .block .., _, _, h, _ | .ret _, _, _, h, _ | .brk _, _, _, h, _
  | .cont _, _, _, h, _ => by simpa [TStmt.declares] using h

/-- Scopes stay told apart after the declarations of statements. -/
lemma Visible.declaresAll : ∀ {ss : List TStmt} {Γ : List Local} {inLoop : Bool}, Visible p Γ →
    TStmt.TypedAll p Γ inLoop ss → Visible p (Γ ++ TStmt.declaresAll ss)
  | [], _, _, h, _ => by simpa [TStmt.declaresAll] using h
  | s :: ss, Γ, _, h, hs => by
    have h' := (h.declares hs.1).declaresAll hs.2
    simpa [TStmt.declaresAll] using h'

/-- A condition is evaluated. -/
lemma condition_stays (hρ : KnowsSlots env ρ) (hp : env.program.WellFormed) {Γ : List Local}
    (hΓ : Visible env.program Γ) {c : TExpr} (hc : c.TypedCond env.program Γ)
    (hflat : c.IsFlat env.program) : Stays env ρ Γ Γ (expr c).value fun _ => True :=
  (expr_stays hρ hp hΓ.ids_nodup hΓ.valid hc.1 hflat).value.weaken fun _ _ => trivial

mutual

/-- **The code of statements** is rooted. -/
theorem statement_stays (hρ : KnowsSlots env ρ) (hp : env.program.WellFormed) (flow : Option Flow) :
    ∀ {s : TStmt} {Γ : List Local} {inLoop : Bool}, Visible env.program Γ →
      s.Typed env.program Γ inLoop → s.Each (FlatAssign env.program) (TExpr.IsFlat env.program) →
      Stays env ρ Γ (Γ ++ s.declares) (statement flow s) fun _ => True
  | .assign .., _, _, hΓ, ht, hf => assign_stays hρ hp hΓ ht hf
  | .ifThen _ c _ b, Γ, _, hΓ, ht, hf => by
    simp only [TStmt.declares, List.append_nil]
    exact .bind (condition_stays hρ hp hΓ ht.1 hf.1) fun _ _ => .bind (.newLabel _) fun _ _ =>
      .bind (.newLabel _) fun _ _ => .bind (.emit trivial) fun _ _ => .bind (.emit trivial)
      fun _ _ => .bind (.inBlock (statements_stay hρ hp flow hΓ ht.2 hf.2)) fun _ _ => .emit trivial
  | .ifElse _ c _ b _ o, Γ, _, hΓ, ht, hf => by
    simp only [TStmt.declares, List.append_nil]
    exact .bind (condition_stays hρ hp hΓ ht.1 hf.1) fun _ _ => .bind (.newLabel _) fun _ _ =>
      .bind (.newLabel _) fun _ _ => .bind (.newLabel _) fun _ _ => .bind (.emit trivial) fun _ _ =>
      .bind (.emit trivial) fun _ _ =>
      .bind (.inBlock (statements_stay hρ hp flow hΓ ht.2.1 hf.2.1)) fun _ _ =>
      .bind (.emit trivial) fun _ _ => .bind (.emit trivial) fun _ _ =>
      .bind (.inBlock (statements_stay hρ hp flow hΓ ht.2.2 hf.2.2)) fun _ _ => .emit trivial
  | .whileLoop _ c _ b, Γ, _, hΓ, ht, hf => by
    simp only [TStmt.declares, List.append_nil]
    exact .bind (.newLabel _) fun _ _ => .bind (.newLabel _) fun _ _ => .bind (.newLabel _)
      fun _ _ => .bind (.emit trivial) fun _ _ => .bind (condition_stays hρ hp hΓ ht.1 hf.1)
      fun _ _ => .bind (.emit trivial) fun _ _ => .bind (.emit trivial) fun _ _ =>
      .bind (.inBlock (statements_stay hρ hp _ hΓ ht.2 hf.2)) fun _ _ =>
      .bind (.emit trivial) fun _ _ => .emit trivial
  | .repeatUntil _ _ b c, Γ, _, hΓ, ht, hf => by
    simp only [TStmt.declares, List.append_nil]
    have hΔ := hΓ.declaresAll ht.1
    have test : ∀ out loop, Stays env ρ (Γ ++ TStmt.declaresAll b) (Γ ++ TStmt.declaresAll b) (do
        let c ← (expr c).value
        emit (.branch c out loop)) fun _ => True := fun _ _ =>
      .bind (condition_stays hρ hp hΔ ht.2 hf.1) fun _ _ => .emit trivial
    have round : ∀ out next loop, Stays env ρ Γ (Γ ++ TStmt.declaresAll b) (do
        statements (some ⟨out, next⟩) b
        if anyContinues b then emit (.label next)
        let c ← (expr c).value
        emit (.branch c out loop)) fun _ => True := by
      refine fun out next loop => .bind (statements_stay hρ hp _ hΓ ht.1 hf.2) fun _ _ => ?_
      dsimp only
      split
      · exact .bind (.emit trivial) fun _ _ => test out loop
      · exact test out loop
    exact .bind (.newLabel _) fun loop _ => .bind (.newLabel _) fun out _ => .bind (.newLabel _)
      fun next _ => .bind (.emit trivial) fun _ _ => .bind (.inBlock (round out next loop))
      fun _ _ => .emit trivial
  | .block _ _ b, Γ, _, hΓ, ht, hf => by
    simp only [TStmt.declares, List.append_nil]
    exact .inBlock (statements_stay hρ hp flow hΓ ht hf)
  | .ret _, Γ, _, _, _, _ => by
    simp only [TStmt.declares, List.append_nil]
    exact .emit trivial
  | .brk _, Γ, _, _, _, _ | .cont _, Γ, _, _, _, _ => by
    simp only [TStmt.declares, List.append_nil]
    exact .bind (R := fun _ => True) (.need fun _ _ => trivial) fun _ _ => .emit trivial

/-- The same for several statements. -/
theorem statements_stay (hρ : KnowsSlots env ρ) (hp : env.program.WellFormed) (flow : Option Flow) :
    ∀ {ss : List TStmt} {Γ : List Local} {inLoop : Bool}, Visible env.program Γ →
      TStmt.TypedAll env.program Γ inLoop ss →
      TStmt.EachAll (FlatAssign env.program) (TExpr.IsFlat env.program) ss →
      Stays env ρ Γ (Γ ++ TStmt.declaresAll ss) (statements flow ss) fun _ => True
  | [], Γ, _, _, _, _ => by
    rw [TStmt.declaresAll, List.flatMap_nil, List.append_nil]
    exact .pure trivial
  | s :: ss, Γ, _, hΓ, ht, hf => by
    rw [TStmt.declaresAll, List.flatMap_cons, ← List.append_assoc]
    exact .bind (statement_stays hρ hp flow hΓ ht.1 hf.1) fun _ _ =>
      statements_stay hρ hp flow (hΓ.declares ht.1) ht.2 hf.2

end

end Statements

/-! ## Functions -/

section Functions

variable {env : Env} {ρ : Operand → ClassRef → Prop} {Γ : List Local} {f : MemberFunction}
  {fn : Function} {a : Param} {q : Modifier} {c : ClassRef} {dst src : Place}

/-- Addresses of places. -/
lemma addresses_stay : ∀ ps : List Place, Stays env ρ Γ Γ (addresses ps) fun _ => True
  | [] => .pure trivial
  | p :: ps => .bind (address_stays p) fun _ _ => .bind (addresses_stay ps) fun _ _ => .pure trivial

/-- A create or assign is called on instances. -/
lemma invokeAt_stays (f : MemberFunction) (p : Place) (ps : List Place) :
    Stays env ρ Γ Γ (invokeAt f p ps) fun _ => True := by
  have decl : Stays env ρ Γ Γ (declOf f) fun _ => True := .read (by
    split
    · exact .pure trivial
    · exact .fails (Fails.bug _))
  refine .bind decl fun d _ => ?_
  split
  · exact .bind (addresses_stay ps) fun _ _ => .bind (address_stays p) fun _ _ => .emit trivial
  · exact .pure trivial

/-- The create or assign that is selected is called. -/
lemma selected_stays (c : ClassRef) (k : FuncKind) (ts : List Ty) (p : Place) (ps : List Place) :
    Stays env ρ Γ Γ (do
      match ← select c k ts with
      | some f => invokeAt f p ps
      | none => return) fun _ => True := by
  refine .bind (.read (.pure trivial) : Stays env ρ Γ Γ (select c k ts) fun _ => True) fun r _ => ?_
  split
  · exact invokeAt_stays ..
  · exact .pure trivial

/-- An instance is copied. -/
lemma copyValue_stays (ht : dst.type = .cls q c) :
    Stays env ρ Γ Γ (copyValue dst src) fun _ => True := by
  unfold copyValue
  rw [ht]
  exact selected_stays ..

/-- A default value is built. -/
lemma defaultValue_stays (ht : dst.type = .cls q c) :
    Stays env ρ Γ Γ (defaultValue dst) fun _ => True := by
  unfold defaultValue
  rw [ht]
  exact selected_stays ..

/-- The place of a parameter has its type. -/
lemma paramPlace_stays (a : Param) : Stays env ρ Γ Γ (paramPlace a) fun p => p.type = a.type := by
  refine .get fun b _ => ?_
  split
  · exact .pure (type_ofStorage ..)
  · exact .fails (Fails.throw _)

/-- A parameter is copied to a slot. -/
lemma ownCopy_stays (hρ : KnowsSlots env ρ) (ha : a.toLocal ∈ Γ) (hflat : a.type.IsFlat env.program)
    (hat : a.type.isAtomic = false) : Stays env ρ Γ Γ (ownCopy a) fun _ => True := by
  obtain ⟨q, c, ht⟩ := hflat.exists_cls hat
  exact .bind (paramPlace_stays a) fun p _ => .bind (slotFor_stays hρ _ hflat) fun o ho =>
    .bind (copyValue_stays (q := q) (c := c) ht) fun _ _ => .setStorage ha ⟨q, c, ht, ho q c ht⟩

/-- The same is done for each element of a list. -/
lemma forM_stays {α : Type} {g : α → Lower Unit} : ∀ {l : List α},
    (∀ a ∈ l, Stays env ρ Γ Γ (g a) fun _ => True) → Stays env ρ Γ Γ (l.forM g) fun _ => True
  | [], _ => .pure trivial
  | _ :: _, h => .bind (h _ (List.mem_cons_self ..)) fun _ _ =>
      forM_stays fun a ha => h a (List.mem_cons_of_mem _ ha)

/-- The storage that a parameter is bound to: its address, or a variable of its own. -/
def Param.BoundTo (a : Param) (o : Operand) (s : Storage) : Prop :=
  if isByAddress a.type then s = .memory o else ∃ v, s = .var v ∧ v.type = a.type.code

/-- Parameters are bound in order, and nothing else is. -/
lemma entries_of_mapM {g : Param → Lower Operand} : ∀ {as : List Param} {os : List Operand}
    {b b' : Builder}, (∀ a ∈ as, ∀ b o b', Runs env (g a) b o b' → b'.code = b.code ∧
      ∃ s, b'.locals = (a.localId, s) :: b.locals ∧ Param.BoundTo a o s) →
    Runs env (as.mapM g) b os b' → b'.code = b.code ∧ os.length = as.length ∧
      ∀ x ∈ b'.locals, x ∈ b.locals ∨
        ∃ a o, (a, o) ∈ as.zip os ∧ x.1 = a.localId ∧ Param.BoundTo a o x.2
  | [], os, b, b', _, h => by
    have h : Runs env (pure []) b os b' := List.mapM_nil (m := Lower) (f := g) ▸ h
    obtain ⟨rfl, rfl⟩ := h.of_pure
    exact ⟨rfl, rfl, fun x hx => .inl hx⟩
  | a :: as, os, b, b', hg, h => by
    obtain ⟨hga, hgas⟩ := List.forall_mem_cons.1 hg
    rw [List.mapM_cons] at h
    obtain ⟨o, b₁, ho, h⟩ := h.of_bind
    obtain ⟨os', b₂, hos, h⟩ := h.of_bind
    obtain ⟨rfl, rfl⟩ := h.of_pure
    obtain ⟨hcode, s, hlocals, hs⟩ := hga b o b₁ ho
    obtain ⟨hcode', hlen, hrest⟩ := entries_of_mapM hgas hos
    refine ⟨hcode'.trans hcode, by simp [hlen], fun x hx => ?_⟩
    obtain hx | ⟨a', o', hmem, hx⟩ := hrest x hx
    · rw [hlocals] at hx
      obtain rfl | hx := List.mem_cons.1 hx
      · exact .inr ⟨a, o, List.mem_cons_self, rfl, hs⟩
      · exact .inl hx
    · exact .inr ⟨a', o', List.mem_cons_of_mem _ hmem, hx⟩

/-- What a parameter by address is bound to. -/
lemma bindAddress_bound (h : isByAddress a.type) {b b' : Builder} {o : Operand}
    (hr : Runs env (bindAddress a) b o b') : b'.code = b.code ∧
      ∃ s, b'.locals = (a.localId, s) :: b.locals ∧ Param.BoundTo a o s := by
  obtain ⟨rfl, rfl⟩ := Prod.mk.inj (Except.ok.inj hr)
  exact ⟨rfl, _, rfl, by simp [Param.BoundTo, h]⟩

/-- What a parameter by value is bound to. -/
lemma bindValue_bound (h : isByAddress a.type = false) {b b' : Builder} {o : Operand}
    (hr : Runs env (bindValue a) b o b') : b'.code = b.code ∧
      ∃ s, b'.locals = (a.localId, s) :: b.locals ∧ Param.BoundTo a o s := by
  obtain ⟨rfl, rfl⟩ := Prod.mk.inj (Except.ok.inj hr)
  exact ⟨rfl, _, rfl, by simp [Param.BoundTo, h]⟩

/-- The types of what is passed to a function: the instance, the parameters and the results that the
caller has storage for. -/
def typesPassed (f : MemberFunction) : List Ty :=
  (if f.hasSelf then [Ty.ofClass f.cls] else []) ++
    (f.sig.params ++ f.sig.hiddenResults).map Param.type

/-- **Instances that a function knows**: those that are passed to it, and those in stack slots. -/
def Instances (p : Program) (l : Layouts) (f : MemberFunction) (ps : List Operand) (o : Operand)
    (c : ClassRef) : Prop :=
  (∃ q, (o, Ty.cls q c) ∈ ps.zip (typesPassed f)) ∨
    (Ty.ofClass c).IsFlat p ∧ ∃ s st, o = .slot s ∧ l.struct? c = some st ∧ s.struct = some st.name

/-- The slots of a function for instances of flat classes are instances. -/
lemma knowsSlots_instances (env : Env) (f : MemberFunction) (ps : List Operand) :
    KnowsSlots env (Instances env.program env.layouts f ps) := fun _ _ st s hflat hst hs =>
  .inr ⟨hflat, s, st, rfl, hst, hs⟩

/-- **Functions all types of which are flat**; scalars are taken by value. -/
structure FlatFunction (e : Elaborated) (f : MemberFunction) : Prop where
  self_flat : (Ty.ofClass f.cls).IsFlat e.program
  params_flat : ∀ a ∈ f.sig.params ++ f.sig.results, a.type.IsFlat e.program
  by_value : ∀ a ∈ f.sig.params, a.type.isAtomic → a.type.modifier ≠ .ref
  body_flat : ∀ b, e.body? f = some b →
    TStmt.EachAll (FlatAssign e.program) (TExpr.IsFlat e.program) b.body

/-- What parameters are bound to is storage of their types. -/
lemma fits_of_boundTo {o : Operand} {s : Storage} (hflat : a.type.IsFlat env.program)
    (hby : a.type.isAtomic → a.type.modifier ≠ .ref) (h : Param.BoundTo a o s)
    (ho : ∀ q c, a.type = .cls q c → ρ o c) : s.Fits ρ a.type := by
  unfold Param.BoundTo at h
  split at h
  · rename_i hat
    subst h
    obtain ⟨q, c, hc⟩ := hflat.exists_cls (by
      rw [← Bool.not_eq_true]
      intro hatomic
      simp [isByAddress, hatomic, hby hatomic] at hat)
    exact ⟨q, c, hc, ho q c hc⟩
  · rename_i hat
    obtain ⟨v, rfl, hv⟩ := h
    have hs := hflat.isScalar (by
      simp only [isByAddress, Bool.or_eq_true, Bool.not_eq_true', not_or] at hat
      simpa using hat.1)
    exact ⟨hs, hv ▸ hs.kind_ne⟩

/-- Operands that are given for parameters have the types of these. -/
lemma mem_zip_type {as : List Param} {os : List Operand} {o : Operand} (h : (a, o) ∈ as.zip os) :
    (o, a.type) ∈ os.zip (as.map Param.type) := by
  rw [List.zip_map_right, ← List.zip_swap as os]
  exact List.mem_map.2 ⟨(o, a), List.mem_map.2 ⟨(a, o), h, rfl⟩, rfl⟩

/-- Parameters and results are locals of the function. -/
lemma toLocal_mem_rootLocals (ha : a ∈ f.sig.params ++ f.sig.results) :
    a.toLocal ∈ f.rootLocals :=
  List.mem_append_left _ (List.mem_map_of_mem ha)

/-- **Everything that is bound** is storage of the instance, a parameter or a result. -/
lemma stowed_of_bound {e : Elaborated} (hp : env.program = e.program)
    (hvalid : e.program.ValidFunc f) (hflat : FlatFunction e f)
    {inst ins hidden outs : List Operand} {b₀ b₁ b₂ b₃ : Builder}
    (hlen : inst.length = if f.hasSelf then 1 else 0)
    (hself : ∀ x ∈ b₀.locals, f.hasSelf ∧ x.1 = f.selfId ∧ ∃ o ∈ inst, x.2 = .memory o)
    (hins : Runs env (f.sig.params.mapM bindParam) b₀ ins b₁)
    (hhidden : Runs env (f.sig.hiddenResults.mapM bindAddress) b₁ hidden b₂)
    (houts : Runs env (f.sig.valueResults.mapM bindValue) b₂ outs b₃) :
    b₃.code = b₀.code ∧
      Stowed (Instances env.program env.layouts f (inst ++ ins ++ hidden)) f.rootLocals
        b₃.locals := by
  have hhiddenSub : f.sig.hiddenResults ⊆ f.sig.results := List.filter_subset_self _
  have hvalueSub : f.sig.valueResults ⊆ f.sig.results := List.filter_subset_self _
  have hbyvalue : ∀ a ∈ f.sig.results, a.type.isAtomic → a.type.modifier ≠ .ref := fun a ha _ => by
    rw [(hvalid.results_valid a ha).2.2]
    decide
  have hflat' : ∀ a ∈ f.sig.params ++ f.sig.results, a.type.IsFlat env.program := fun a ha =>
    hp ▸ hflat.params_flat a ha
  -- What the three parts of the prologue bind, in their order.
  obtain ⟨hcode₁, hlen₁, hent₁⟩ := entries_of_mapM (fun a _ b o b' hr => by
    unfold bindParam at hr
    split at hr
    · exact bindAddress_bound ‹_› hr
    · exact bindValue_bound (Bool.eq_false_iff.2 ‹_›) hr) hins
  obtain ⟨hcode₂, hlen₂, hent₂⟩ := entries_of_mapM (fun a ha b o b' hr =>
    bindAddress_bound (isByAddress_of_mem_hiddenResults ha) hr) hhidden
  obtain ⟨hcode₃, hlen₃, hent₃⟩ := entries_of_mapM (fun a ha b o b' hr =>
    bindValue_bound (by
      simp [isByAddress, isAtomic_of_mem_valueResults hvalid ha,
        (hvalid.results_valid a (hvalueSub ha)).2.2]) hr) houts
  have hzip : (inst ++ ins ++ hidden).zip (typesPassed f) =
      inst.zip (if f.hasSelf then [Ty.ofClass f.cls] else []) ++
        ins.zip (f.sig.params.map Param.type) ++
        hidden.zip (f.sig.hiddenResults.map Param.type) := by
    rw [typesPassed, List.map_append, ← List.append_assoc, List.zip_append, List.zip_append]
    · rw [hlen]
      split <;> rfl
    · rw [List.length_append, List.length_append, hlen, hlen₁, List.length_map]
      split <;> rfl
  refine ⟨hcode₃.trans (hcode₂.trans hcode₁), fun x hx => ?_⟩
  -- What is bound in the end was bound by the last part, or by one before it.
  obtain hx | ⟨a, o, hmem, hid, hb⟩ := hent₃ x hx
  · obtain hx | ⟨a, o, hmem, hid, hb⟩ := hent₂ x hx
    · obtain hx | ⟨a, o, hmem, hid, hb⟩ := hent₁ x hx
      · obtain ⟨hhas, hid, o, ho, hs⟩ := hself x hx
        refine ⟨_, List.mem_append_right _ (Option.mem_toList.2 (if_pos hhas)), hid.symm, ?_⟩
        rw [hs]
        refine ⟨_, _, rfl, .inl ⟨.var, ?_⟩⟩
        rw [hzip, if_pos hhas]
        rw [if_pos hhas] at hlen
        obtain ⟨o', rfl⟩ := List.length_eq_one_iff.1 hlen
        obtain rfl := List.mem_singleton.1 ho
        simp [Ty.ofClass]
      · have ha := List.mem_append_left f.sig.results (List.of_mem_zip hmem).1
        refine ⟨_, toLocal_mem_rootLocals ha, hid.symm, fits_of_boundTo (hflat' a ha)
          (hflat.by_value a (List.of_mem_zip hmem).1) hb fun q c hc => .inl ⟨q, ?_⟩⟩
        rw [hzip, ← hc]
        simp [mem_zip_type hmem]
    · have hr := hhiddenSub (List.of_mem_zip hmem).1
      have ha := List.mem_append_right f.sig.params hr
      refine ⟨_, toLocal_mem_rootLocals ha, hid.symm, fits_of_boundTo (hflat' a ha)
        (hbyvalue a hr) hb fun q c hc => .inl ⟨q, ?_⟩⟩
      rw [hzip, ← hc]
      simp [mem_zip_type hmem]
  · have hr := hvalueSub (List.of_mem_zip hmem).1
    have ha := List.mem_append_right f.sig.params hr
    have hat := isAtomic_of_mem_valueResults hvalid (List.of_mem_zip hmem).1
    refine ⟨_, toLocal_mem_rootLocals ha, hid.symm, fits_of_boundTo (hflat' a ha)
      (hbyvalue a hr) hb fun q c hc => ?_⟩
    rw [hc] at hat
    cases hat

/-- What a function does once everything is bound. -/
lemma opened_stays {e : Elaborated} (hp : env.program = e.program) (hwf : e.program.WellFormed)
    (hvalid : e.program.ValidFunc f) (hflat : FlatFunction e f)
    (hΓ : Visible e.program f.rootLocals)
    {b : FuncBody} (ht : b.Typed e.program) (hbf : b.fn = f) (hb : e.body? f = some b)
    (hρ : KnowsSlots env ρ) :
    Stays env ρ f.rootLocals (f.rootLocals ++ TStmt.declaresAll b.body) (do
      (copied f).forM ownCopy
      f.sig.hiddenResults.forM fun p => do defaultValue (← paramPlace p)
      statements none b.body) fun _ => True := by
  have hall := hflat.body_flat b hb
  have hflat' : ∀ a ∈ f.sig.params ++ f.sig.results, a.type.IsFlat env.program := fun a ha =>
    hp ▸ hflat.params_flat a ha
  subst hbf
  rw [← hp] at hΓ hall hwf
  refine .bind (forM_stays fun a ha => ?_) fun _ _ => .bind (forM_stays fun a ha => ?_) fun _ _ =>
    statements_stay hρ hwf none hΓ (hp ▸ ht.typed) hall
  · obtain ⟨ha, hcopied⟩ := List.mem_filter.1 ha
    have hmem := List.mem_append_left b.fn.sig.results ha
    simp only [Bool.and_eq_true, Bool.not_eq_true'] at hcopied
    exact ownCopy_stays hρ (toLocal_mem_rootLocals hmem) (hflat' a hmem) hcopied.1
  · have hmem := List.mem_append_right b.fn.sig.params (List.mem_filter.1 ha).1
    obtain ⟨q, c, hc⟩ := (hflat' a hmem).exists_cls
      (by simpa using isAtomic_of_mem_hiddenResults ha)
    exact .bind (paramPlace_stays a) fun p hpt => defaultValue_stays (q := q) (c := c)
      (hpt.trans hc)

/-- **The code of a function whose types are flat** is rooted. -/
theorem rooted_of_build {e : Elaborated} (hp : env.program = e.program)
    (hwf : e.program.WellFormed) (hf : e.program.Declares f) (hgen : f.isGenerated = false)
    (hflat : FlatFunction e f) {b : FuncBody} (hb : e.body? f = some b) (ht : b.Typed e.program)
    (hbf : b.fn = f) {r : List Operand × List Operand} {b' : Builder}
    (hr : Runs env (build e f) {} r b') :
    ∀ i ∈ b'.code, Rooted env (Instances env.program env.layouts f r.1) i := by
  have hvalid := hf.validFunc hwf
  have hΓ : Visible e.program f.rootLocals := ⟨nodup_rootLocals hvalid, hf.rootLocals_valid hwf⟩
  obtain ⟨q, b₁, hpro, hrest⟩ := hr.of_bind
  obtain ⟨⟨⟩, b₂, hbody, hrest⟩ := hrest.of_bind
  obtain ⟨rfl, rfl⟩ := hrest.of_pure
  rw [bodyOf, hgen, hb] at hbody
  -- All that is bound is known once the parameters are.
  have finish : ∀ {inst : List Operand} {b₀ : Builder}, b₀.code = [] →
      inst.length = (if f.hasSelf then 1 else 0) →
      (∀ x ∈ b₀.locals, f.hasSelf ∧ x.1 = f.selfId ∧ ∃ o ∈ inst, x.2 = .memory o) →
      Runs env (do
        let ins ← f.sig.params.mapM bindParam
        let hidden ← f.sig.hiddenResults.mapM bindAddress
        let outs ← f.sig.valueResults.mapM bindValue
        (copied f).forM ownCopy
        f.sig.hiddenResults.forM fun p => do defaultValue (← paramPlace p)
        return (inst ++ ins ++ hidden, outs)) b₀ q b₁ →
      ∀ i ∈ b₂.code, Rooted env (Instances env.program env.layouts f q.1) i := by
    intro inst b₀ hcode hlen hself h
    obtain ⟨ins, c₁, hins, h⟩ := h.of_bind
    obtain ⟨hidden, c₂, hhidden, h⟩ := h.of_bind
    obtain ⟨outs, c₃, houts, h⟩ := h.of_bind
    obtain ⟨⟨⟩, c₄, hcopies, h⟩ := h.of_bind
    obtain ⟨⟨⟩, c₅, hres, h⟩ := h.of_bind
    obtain ⟨rfl, rfl⟩ := h.of_pure
    obtain ⟨hcode₃, hstowed⟩ := stowed_of_bound hp hvalid hflat hlen hself hins hhidden houts
    have hstays := opened_stays hp hwf hvalid hflat hΓ ht hbf hb
      (knowsSlots_instances env f (inst ++ ins ++ hidden))
    refine (hstays.of_run c₃ () b₂ hstowed ?_).1 ?_
    · exact (run_bind hcopies).trans ((run_bind hres).trans hbody)
    · rw [hcode₃, hcode]
      exact List.forall_mem_nil _
  unfold prologue at hpro
  split at hpro
  · rename_i hself
    obtain ⟨v, c₁, hv, h₁⟩ := hpro.of_bind
    obtain ⟨⟨⟩, c₂, hset, h₂⟩ := h₁.of_bind
    obtain ⟨inst, c₃, hpure, h₃⟩ := h₂.of_bind
    obtain ⟨rfl, rfl⟩ := hpure.of_pure
    obtain ⟨rfl, rfl⟩ := Prod.mk.inj (Except.ok.inj hv)
    obtain ⟨-, rfl⟩ := Prod.mk.inj (Except.ok.inj hset)
    exact finish rfl (by simp [hself]) (by simp [hself]) h₃
  · rename_i hself
    obtain ⟨inst, c₃, hpure, h₃⟩ := hpro.of_bind
    obtain ⟨rfl, rfl⟩ := hpure.of_pure
    exact finish rfl (by simp [hself]) (List.forall_mem_nil _) h₃

/-- **The code of a function whose types are flat** is rooted: it accesses the instances that are
passed to the function and those in stack slots. -/
theorem rooted_of_function {e : Elaborated} (hp : env.program = e.program)
    (hwf : e.program.WellFormed) (hf : e.program.Declares f) (hgen : f.isGenerated = false)
    (hflat : FlatFunction e f) {b : FuncBody} (hb : e.body? f = some b) (ht : b.Typed e.program)
    (hbf : b.fn = f) (h : function env e f = .ok fn) :
    ∃ code, fn.body = Function.frame code ∧
      ∀ i ∈ code, Rooted env (Instances env.program env.layouts f fn.params) i := by
  obtain ⟨r, b', hr, rfl⟩ := of_function_eq_ok h
  exact ⟨b'.code, rfl, rooted_of_build hp hwf hf hgen hflat hb ht hbf hr⟩

end Functions

end Lowering

end Lane
