import Lane.Lowering.Program
import Lane.Proofs.Code.Typed
import Lane.Proofs.Evaluation.Lowered
import Mathlib.Data.List.Nodup

set_option relaxedAutoImplicit false
set_option autoImplicit false

/-!
# Regular code

What the code of every function has in common, whether it is typed or not. All its operands are
scalars. What is loaded, computed as an address or returned by a call is in a register of its own,
which nothing else assigns, and the path of every access ends in a member of a laid out class or in
a field of a container header. Here it is shown of what is done with places and containers.

## Main definitions

* `Lane.Lowering.Regular`: regular instructions.
* `Lane.Lowering.Adds`: regular code was added.
* `Lane.Lowering.Keeps`: computations that keep code regular.

## Main results

* `Lane.Lowering.Keeps.bind`: computations one after the other.
* `Lane.Lowering.copyValue_keeps`, `Lane.Lowering.defaultValue_keeps`,
  `Lane.Lowering.assignValue_keeps`: construction and assignment at places.
-/

namespace Lane.Code

namespace Operand

/-- **Scalars**: operands that are no vectors. -/
def IsScalar (o : Operand) : Prop := o.type.lanes = 0

end Operand

namespace Instr

/-- The operands of an instruction. -/
def operands : Instr → List Operand
  | .branch c _ _ => [c]
  | .assign _ d args => d :: args
  | .load d p _ | .lea d p _ => [d, p]
  | .store p _ s => [p, s]
  | .alloc d n => [d, n]
  | .memcpy d s n => [d, s, n]
  | .call _ ins outs => ins ++ outs
  | .label _ | .goto _ | .params | .results => []

/-- The results of an instruction that have to be registers. -/
def fresh : Instr → List Operand
  | .assign .ptrAdd d _ | .load d _ _ | .lea d _ _ | .alloc d _ => [d]
  | .call _ _ outs => outs
  | _ => []

/-- The distance from the address that an instruction takes. -/
def offset? : Instr → Option Offset
  | .load _ _ o | .store _ o _ | .lea _ _ o => o
  | _ => none

end Instr

/-- The last member on a path. -/
def Offset.last? (o : Option Offset) : Option StructMember := o.bind fun o => o.path.getLast?

/-- The last member of an offset with a step. -/
@[simp] lemma Offset.last?_step (o : Option Offset) (m : StructMember) :
    Offset.last? (some (Offset.step o m)) = some m := by
  simp [Offset.last?, Offset.step, Offset.add]

end Lane.Code

namespace Lane.Lowering

open Code

/-- Members of classes that are laid out, and the fields of headers. -/
def Layouts.Has (l : Layouts) (m : StructMember) : Prop :=
  m = .headerData ∨ m = .headerLen ∨ ∃ c s, l.struct? c = some s ∧ m ∈ s.members

/-- Paths that end in a member, if they have any steps. -/
def Layouts.Leads (l : Layouts) (o : Option Offset) : Prop := ∀ m, Offset.last? o = some m → l.Has m

/-- **Regular instructions**. -/
structure Regular (l : Layouts) (i : Instr) : Prop where
  scalar : ∀ o ∈ i.operands, o.IsScalar
  fresh : ∀ o ∈ i.fresh, ∃ r, o = .reg r
  leads : l.Leads i.offset?

/-- Where locals live: variables are scalars, and so are addresses. -/
def Storage.IsScalar : Storage → Prop
  | .var v => (Operand.var v).IsScalar
  | .memory a => a.IsScalar

/-- The locals that are known so far live in scalars. -/
def Builder.IsScalar (b : Builder) : Prop := ∀ e ∈ b.locals, e.2.IsScalar

/-- **Added code**: regular instructions were added, which assign new registers once. -/
structure Adds (env : Env) (b b' : Builder) (is : List Instr) : Prop where
  code_eq : b'.code = b.code ++ is
  regs_le : b.regs ≤ b'.regs
  regular : ∀ i ∈ is, Regular env.layouts i
  regs_new : ∀ r ∈ is.flatMap Instr.defines, b.regs < r.id ∧ r.id ≤ b'.regs
  regs_nodup : ((is.flatMap Instr.defines).map Reg.id).Nodup
  isScalar : b.IsScalar → b'.IsScalar

/-- **Computations that keep code regular**: if they succeed where locals live in scalars, they add
regular code, and the result satisfies `R`. -/
structure Keeps {α : Type} (env : Env) (m : Lower α) (R : α → Prop) : Prop where
  of_run : ∀ b a b', b.IsScalar → (m.run env).run b = .ok (a, b') → (∃ is, Adds env b b' is) ∧ R a

section Adds

variable {env : Env} {b b' b'' : Builder} {is js : List Instr}

/-- No code was added. -/
lemma Adds.nil (hc : b'.code = b.code) (hr : b.regs ≤ b'.regs) (hl : b.IsScalar → b'.IsScalar) :
    Adds env b b' [] :=
  ⟨by simp [hc], hr, by simp, by simp, by simp, hl⟩

/-- Code was added, and then more of it. -/
lemma Adds.trans (h : Adds env b b' is) (h' : Adds env b' b'' js) : Adds env b b'' (is ++ js) where
  code_eq := by rw [h'.code_eq, h.code_eq, List.append_assoc]
  regs_le := Nat.le_trans h.regs_le h'.regs_le
  regular i hi := (List.mem_append.1 hi).elim (h.regular i) (h'.regular i)
  regs_new r hr := by
    rw [List.flatMap_append, List.mem_append] at hr
    obtain hr | hr := hr
    · exact ⟨(h.regs_new r hr).1, Nat.le_trans (h.regs_new r hr).2 h'.regs_le⟩
    · exact ⟨Nat.lt_of_le_of_lt h.regs_le (h'.regs_new r hr).1, (h'.regs_new r hr).2⟩
  regs_nodup := by
    rw [List.flatMap_append, List.map_append, List.nodup_append']
    refine ⟨h.regs_nodup, h'.regs_nodup, fun n hn hn' => ?_⟩
    obtain ⟨r, hr, rfl⟩ := List.mem_map.1 hn
    obtain ⟨r', hr', he⟩ := List.mem_map.1 hn'
    have h1 := (h.regs_new r hr).2
    have h2 := (h'.regs_new r' hr').1
    omega
  isScalar hb := h'.isScalar (h.isScalar hb)

/-- Instructions were added whose registers were reserved before. -/
lemma Adds.emit {i : Instr} (hi : Regular env.layouts i) (hc : b'.code = b.code ++ [i])
    (hle : b.regs ≤ b'.regs) (hr : ∀ r ∈ i.defines, b.regs < r.id ∧ r.id ≤ b'.regs)
    (hn : (i.defines.map Reg.id).Nodup) (hl : b.IsScalar → b'.IsScalar) : Adds env b b' [i] :=
  ⟨hc, hle, by simpa using hi, by simpa using hr, by simpa using hn, hl⟩

/-- Registers that were reserved before other code are assigned after it. -/
lemma Adds.reserved {k : Nat} {i : Instr} (hk : b.regs ≤ k)
    (h : Adds env { b with regs := k } b' is) (hi : Regular env.layouts i)
    (hr : ∀ r ∈ i.defines, b.regs < r.id ∧ r.id ≤ k) (hn : (i.defines.map Reg.id).Nodup) :
    Adds env b { b' with code := b'.code ++ [i] } (is ++ [i]) where
  code_eq := by
    show b'.code ++ [i] = b.code ++ (is ++ [i])
    rw [h.code_eq, List.append_assoc]
  regs_le := Nat.le_trans hk h.regs_le
  regular j hj := by
    obtain hj | hj := List.mem_append.1 hj
    · exact h.regular j hj
    · exact List.mem_singleton.1 hj ▸ hi
  regs_new r h' := by
    simp only [List.flatMap_append, List.flatMap_singleton, List.mem_append] at h'
    obtain h' | h' := h'
    · exact ⟨Nat.lt_of_le_of_lt hk (h.regs_new r h').1, (h.regs_new r h').2⟩
    · exact ⟨(hr r h').1, Nat.le_trans (hr r h').2 h.regs_le⟩
  regs_nodup := by
    simp only [List.flatMap_append, List.flatMap_singleton, List.map_append, List.nodup_append']
    refine ⟨h.regs_nodup, hn, fun n hn hn' => ?_⟩
    obtain ⟨r, h1, rfl⟩ := List.mem_map.1 hn
    obtain ⟨r', h2, he⟩ := List.mem_map.1 hn'
    have h3 : k < r.id := (h.regs_new r h1).1
    have h4 := (hr r' h2).2
    omega
  isScalar hb := h.isScalar hb

end Adds

section Keeps

variable {α β γ : Type} {env : Env} {m : Lower α} {f : α → Lower β} {R R' : α → Prop}
  {S : β → Prop}

/-! ## Computations one after the other -/

/-- A computation without effects adds nothing. -/
lemma Keeps.pure {a : α} (h : R a) : Keeps env (pure a) R where
  of_run b a' b' _ hrun := by
    obtain ⟨rfl, rfl⟩ := Prod.mk.inj (Except.ok.inj hrun)
    exact ⟨⟨[], .nil rfl (Nat.le_refl _) id⟩, h⟩

/-- Regular computations in sequence. -/
lemma Keeps.bind (hm : Keeps env m R) (hf : ∀ a, R a → Keeps env (f a) S) :
    Keeps env (m >>= f) S where
  of_run b c b'' hb hrun := by
    obtain ⟨a, b', hm', hf'⟩ := of_run_bind hrun
    obtain ⟨⟨is, his⟩, hR⟩ := hm.of_run b a b' hb hm'
    obtain ⟨⟨js, hjs⟩, hS⟩ := (hf a hR).of_run b' c b'' (his.isScalar hb) hf'
    exact ⟨⟨is ++ js, his.trans hjs⟩, hS⟩

/-- A weaker result. -/
lemma Keeps.weaken (hm : Keeps env m R') (h : ∀ a, R' a → R a) : Keeps env m R where
  of_run b a b' hb hrun := (hm.of_run b a b' hb hrun).imp_right (h a)

/-- Nothing is to be shown of a computation that does not succeed. -/
lemma Keeps.fails (h : Fails env m) : Keeps env m R where
  of_run b a b' _ hrun := by
    obtain ⟨x, hx⟩ := h b
    cases hrun.symm.trans hx

/-- The builder is looked at. -/
lemma Keeps.get {g : Builder → Lower β} (hg : ∀ b, b.IsScalar → Keeps env (g b) S) :
    Keeps env (get >>= g) S :=
  ⟨fun b c b' hb hrun => (hg b hb).of_run b c b' hb hrun⟩

/-- The environment is read. -/
lemma Keeps.read {g : Env → Lower β} (hg : Keeps env (g env) S) : Keeps env (read >>= g) S :=
  ⟨fun b => hg.of_run b⟩

/-- A value that has to be there. -/
lemma Keeps.need {a : Option α} (h : ∀ x, a = some x → R x) : Keeps env (need a) R := by
  cases a with
  | none => exact .fails (Fails.throw _)
  | some a => exact .pure (h a rfl)

/-- The builder changes, but neither its code nor its registers. -/
lemma Keeps.modifyGet {g : Builder → α × Builder}
    (h : ∀ b, (g b).2.code = b.code ∧ (g b).2.regs = b.regs ∧ (b.IsScalar → (g b).2.IsScalar))
    (hR : ∀ b, R (g b).1) : Keeps env (modifyGet g) R where
  of_run b a b' _ hrun := by
    obtain ⟨ha, rfl⟩ := Prod.mk.inj (Except.ok.inj hrun)
    exact ⟨⟨[], .nil (h b).1 (Nat.le_of_eq (h b).2.1.symm) (h b).2.2⟩, ha ▸ hR b⟩

/-- An instruction that assigns no register. -/
lemma Keeps.emit {i : Instr} (hi : Regular env.layouts i) (hd : i.defines = []) :
    Keeps env (emit i) fun _ => True where
  of_run b a b' _ hrun := by
    obtain ⟨-, rfl⟩ := Prod.mk.inj (Except.ok.inj hrun)
    exact ⟨⟨[i], .emit hi rfl (Nat.le_refl _) (by simp [hd]) (by simp [hd]) id⟩, trivial⟩

/-- A register is reserved that an instruction assigns after other code. -/
lemma Keeps.defineAfter {t : VType} {i : Operand → γ → Instr} {k : Lower γ} {P : γ → Prop}
    {f : Operand → γ → Lower β} (hk : Keeps env k P)
    (hi : ∀ (r : Reg) (a : γ), r.type = t → P a →
      Regular env.layouts (i (.reg r) a) ∧ (i (.reg r) a).defines = [r])
    (hf : ∀ (r : Reg) (a : γ), r.type = t → P a → Keeps env (f (.reg r) a) S) :
    Keeps env (do
      let r ← newReg t
      let a ← k
      Lowering.emit (i r a)
      f r a) S where
  of_run b c b'' hb hrun := by
    let r : Reg := ⟨b.regs + 1, t⟩
    obtain ⟨o, b₁, hreg, hrun⟩ := of_run_bind hrun
    obtain ⟨rfl, rfl⟩ := Prod.mk.inj (Except.ok.inj hreg)
    obtain ⟨a, b₂, hk', hrun⟩ := of_run_bind hrun
    obtain ⟨⟨is, his⟩, hP⟩ := hk.of_run { b with regs := b.regs + 1 } a b₂ hb hk'
    obtain ⟨_, b₃, hemit, hrun⟩ := of_run_bind hrun
    obtain ⟨-, rfl⟩ := Prod.mk.inj (Except.ok.inj hemit)
    obtain ⟨hreg, hdef⟩ := hi r a rfl hP
    have hthen := his.reserved (Nat.le_succ b.regs) hreg
      (by simp [hdef, r]) (by simp [hdef])
    obtain ⟨⟨js, hjs⟩, hS⟩ := (hf r a rfl hP).of_run _ c b'' (hthen.isScalar hb) hrun
    exact ⟨⟨_, hthen.trans hjs⟩, hS⟩

/-- An instruction assigns a new register. -/
lemma Keeps.define {t : VType} {i : Operand → Instr} {f : Operand → Lower β}
    (hi : ∀ r : Reg, r.type = t → Regular env.layouts (i (.reg r)) ∧ (i (.reg r)).defines = [r])
    (hf : ∀ r : Reg, r.type = t → Keeps env (f (.reg r)) S) :
    Keeps env (do
      let r ← newReg t
      Lowering.emit (i r)
      f r) S :=
  Keeps.defineAfter (k := Pure.pure ()) (i := fun o _ => i o) (f := fun o _ => f o)
    (P := fun _ => True) (.pure trivial) (fun r _ hr _ => hi r hr) fun r _ hr _ => hf r hr

/-- A new variable is a scalar. -/
lemma Keeps.newVar (name : String) {t : VType} (ht : t.lanes = 0) :
    Keeps env (newVar name t) fun v => (Operand.var v).IsScalar :=
  .modifyGet (fun _ => ⟨rfl, rfl, id⟩) fun _ => ht

/-- A new slot is a scalar. -/
lemma Keeps.newSlot (name : String) (size align : Int64) (struct : Option String) :
    Keeps env (newSlot name size align struct) Operand.IsScalar :=
  .modifyGet (fun _ => ⟨rfl, rfl, id⟩) fun _ => rfl

/-- A new label. -/
lemma Keeps.newLabel (hint : String) : Keeps env (newLabel hint) fun _ => True :=
  .modifyGet (fun _ => ⟨rfl, rfl, id⟩) fun _ => trivial

/-- A local gets storage. -/
lemma Keeps.setStorage (id : Nat) {s : Storage} (hs : s.IsScalar) :
    Keeps env (setStorage id s) fun _ => True :=
  .modifyGet (fun _ => ⟨rfl, rfl, fun hb => List.forall_mem_cons.2 ⟨hs, hb⟩⟩) fun _ => trivial

/-! ## Places and containers -/

/-- **Regular places**: variables are scalars, and paths in memory end in a member. -/
def Place.Regular (l : Layouts) : Place → Prop
  | .var v _ => (Operand.var v).IsScalar
  | .memory a o _ => a.IsScalar ∧ l.Leads o

variable {l : Layouts} {p q : Place} {o : Operand}

/-- No offset leads to no member. -/
lemma Layouts.leads_none (l : Layouts) : l.Leads none := nofun

/-- An offset leads to the member of its last step. -/
lemma Layouts.leads_step {x : StructMember} (h : l.Has x) (o : Option Offset) :
    l.Leads (some (Offset.step o x)) := by
  intro m hm
  rw [Offset.last?_step] at hm
  exact Option.some.inj hm ▸ h

/-- The base of a regular place is a scalar. -/
lemma Place.Regular.base (h : p.Regular l) : p.base.IsScalar := by
  cases p with
  | var => rfl
  | memory => exact h.1

/-- A member of a regular place. -/
lemma Place.Regular.field (h : p.Regular l) {x : StructMember} (hx : l.Has x) (t : Ty) :
    (p.field x t).Regular l :=
  ⟨h.base, l.leads_step hx _⟩

/-- The place of storage. -/
lemma Place.regular_ofStorage {s : Storage} (h : s.IsScalar) (t : Ty) :
    (Place.ofStorage t s).Regular l := by
  cases s with
  | var => exact h
  | memory => exact ⟨h, l.leads_none⟩

/-- Types have scalar codes. -/
lemma lanes_code (t : Ty) : t.code.lanes = 0 := by cases t <;> rfl

/-- A register of a scalar type is a scalar. -/
lemma isScalar_reg {r : Reg} {t : VType} (hr : r.type = t) (ht : t.lanes = 0) :
    (Operand.reg r).IsScalar :=
  (congrArg VType.lanes hr).trans ht

/-- A computed value. -/
lemma compute_keeps {kind : AssignKind} {t : VType} {args : List Operand} (ht : t.lanes = 0)
    (h : ∀ a ∈ args, a.IsScalar) : Keeps env (compute kind t args) Operand.IsScalar := by
  refine .define (fun r hr => ⟨⟨?_, fun o ho => ?_, env.layouts.leads_none⟩, rfl⟩)
    fun r hr => .pure (isScalar_reg hr ht)
  · exact List.forall_mem_cons.2 ⟨isScalar_reg hr ht, h⟩
  · cases kind <;> first | exact ⟨r, List.mem_singleton.1 ho⟩ | cases ho

/-- The entry of a member is in the layouts. -/
lemma memberOf_keeps (v : MemberVar) : Keeps env (memberOf v) env.layouts.Has := by
  refine .read ?_
  split
  · exact .fails (Fails.throw _)
  · rename_i s hs
    exact .need fun m hm => .inr (.inr ⟨v.cls, s, hs,
      List.mem_reverse.1 (List.mem_of_find?_eq_some hm)⟩)

/-- The size of a type. -/
lemma sizeOf_keeps (t : Ty) : Keeps env (sizeOf t) fun _ => True := by
  unfold sizeOf
  split
  · refine .read ?_
    split
    · exact .pure trivial
    · exact .fails (Fails.throw _)
  · exact .pure trivial
  · exact .pure trivial

/-- A slot for a type is a scalar. -/
lemma slotFor_keeps (name : String) (t : Ty) : Keeps env (slotFor name t) Operand.IsScalar :=
  .bind (sizeOf_keeps t) fun _ _ => .read (.newSlot ..)

/-- The storage of a local that is known. -/
lemma isScalar_of_lookup {b : Builder} {id : Nat} {s : Storage} (hb : b.IsScalar)
    (h : b.locals.lookup id = some s) : s.IsScalar := by
  obtain ⟨l₁, l₂, hl, -⟩ := List.lookup_eq_some_iff.1 h
  exact hb (id, s) (by simp [hl])

/-- The storage of a local is a scalar. -/
lemma storageOf_keeps (x : Local) : Keeps env (storageOf x) Storage.IsScalar := by
  refine .get fun b hb => ?_
  split
  · rename_i s hs
    exact .pure (isScalar_of_lookup hb hs)
  · exact .fails (Fails.bug _)

/-- A local that is declared gets storage that is a scalar. -/
lemma bindLocal_keeps (x : Local) : Keeps env (bindLocal x) Storage.IsScalar := by
  have bound : ∀ s : Storage, s.IsScalar → Keeps env (do
      setStorage x.id s
      return s) Storage.IsScalar := fun s hs => .bind (.setStorage _ hs) fun _ _ => .pure hs
  refine .get fun b hb => ?_
  split
  · rename_i s hs
    exact .pure (isScalar_of_lookup hb hs)
  · split
    · exact .bind (.newVar _ (lanes_code _)) fun v hv => bound (.var v) hv
    · exact .bind (slotFor_keeps ..) fun a ha => bound (.memory a) ha

/-- The address of a regular place is a scalar. -/
lemma address_keeps (hp : p.Regular env.layouts) : Keeps env (address p) Operand.IsScalar := by
  unfold address
  split
  · exact .fails (Fails.bug _)
  · split
    · exact .pure hp.1
    · refine .define (fun r hr => ⟨⟨?_, ?_, hp.2⟩, rfl⟩) fun r hr => .pure (isScalar_reg hr rfl)
      · simpa [Instr.operands] using ⟨isScalar_reg hr rfl, hp.1⟩
      · simp [Instr.fresh]

/-- A value that is loaded. -/
lemma load_keeps {t : VType} {a : Operand} {o : Option Offset} (ht : t.lanes = 0)
    (ha : a.IsScalar) (ho : env.layouts.Leads o) : Keeps env (do
      let r ← newReg t
      emit (.load r a o)
      return r) Operand.IsScalar := by
  refine .define (fun r hr => ⟨⟨?_, ?_, ho⟩, rfl⟩) fun r hr => .pure (isScalar_reg hr ht)
  · simpa [Instr.operands] using ⟨isScalar_reg hr ht, ha⟩
  · simp [Instr.fresh]

/-- A value that is stored. -/
lemma store_keeps {a : Operand} {o : Option Offset} {src : Operand} (ha : a.IsScalar)
    (ho : env.layouts.Leads o) (hs : src.IsScalar) :
    Keeps env (emit (.store a o src)) fun _ => True :=
  .emit ⟨by simpa [Instr.operands] using ⟨ha, hs⟩, by simp [Instr.fresh], ho⟩ rfl

/-- A value that is moved to a variable. -/
lemma move_keeps {v : Var} {src : Operand} (hv : (Operand.var v).IsScalar) (hs : src.IsScalar) :
    Keeps env (emit (.assign .move (.var v) [src])) fun _ => True :=
  .emit ⟨by simpa [Instr.operands] using ⟨hv, hs⟩, by simp [Instr.fresh],
    env.layouts.leads_none⟩ rfl

/-- What is read from a regular place is a scalar. -/
lemma fetch_keeps (hp : p.Regular env.layouts) : Keeps env (fetch p) Operand.IsScalar := by
  unfold fetch
  split
  · exact .pure hp
  · split
    · exact address_keeps hp
    · exact load_keeps (lanes_code _) hp.1 hp.2

/-- A scalar is put in a regular place. -/
lemma put_keeps (hp : p.Regular env.layouts) (ho : o.IsScalar) :
    Keeps env (put p o) fun _ => True := by
  unfold put
  split
  · exact move_keeps hp ho
  · exact store_keeps hp.1 hp.2 ho

/-- The fields of a header. -/
def IsField (m : StructMember) : Prop := m = .headerData ∨ m = .headerLen

/-- The members of the header are in all layouts. -/
lemma IsField.has {m : StructMember} (h : IsField m) : l.Has m := h.imp_right .inl

/-- A member of the header is read. -/
lemma loadField_keeps (hp : p.Regular env.layouts) {m : StructMember} (hm : IsField m) :
    Keeps env (loadField p m) Operand.IsScalar :=
  load_keeps (by obtain rfl | rfl := hm <;> rfl) hp.base (Layouts.leads_step hm.has _)

/-- A member of the header is written. -/
lemma storeField_keeps (hp : p.Regular env.layouts) {m : StructMember} (hm : IsField m)
    (ho : o.IsScalar) : Keeps env (storeField p m o) fun _ => True :=
  store_keeps hp.base (Layouts.leads_step hm.has _) ho

/-- A header is set. -/
lemma storeHeader_keeps (hp : p.Regular env.layouts) {data n : Operand} (hd : data.IsScalar)
    (hn : n.IsScalar) : Keeps env (do
      storeField p .headerData data
      storeField p .headerLen n) fun _ => True :=
  .bind (storeField_keeps hp (.inl rfl) hd) fun _ _ => storeField_keeps hp (.inr rfl) hn

/-- An empty container is made. -/
lemma emptyContainer_keeps (hp : p.Regular env.layouts) :
    Keeps env (emptyContainer p) fun _ => True :=
  storeHeader_keeps hp rfl rfl

/-- A number of elements is made a number of bytes. -/
lemma scaled_keeps (t : Ty) {n : Operand} (hn : n.IsScalar) : Keeps env (do
      let (size, _) ← sizeOf t
      if size = 1 then return n
      compute .mul .index [n, .const (.ofInt .index size.toUInt64)]) Operand.IsScalar := by
  refine .bind (sizeOf_keeps t) fun s _ => ?_
  dsimp only
  split
  · exact .pure hn
  · exact compute_keeps rfl (by simpa using ⟨hn, rfl⟩)

/-- The size of elements is a scalar. -/
lemma byteSize_keeps (kind : SeqKind) (t : Ty) {n : Operand} (hn : n.IsScalar) :
    Keeps env (byteSize kind t n) Operand.IsScalar := by
  refine .read ?_
  cases kind with
  | simd =>
    exact .bind (compute_keeps rfl (by simpa using ⟨hn, rfl⟩)) fun _ hsum =>
      .bind (compute_keeps rfl (by simpa using ⟨hsum, rfl⟩)) fun _ hcount => scaled_keeps t hcount
  | array => exact .bind (.pure hn) fun _ hcount => scaled_keeps t hcount

/-- An allocation defines its register. -/
lemma alloc_regular {r : Reg} {n : Operand} (hr : r.type = .ptr) (hn : n.IsScalar) :
    Regular l (.alloc (.reg r) n) ∧ (Instr.alloc (.reg r) n).defines = [r] := by
  refine ⟨⟨?_, by simp [Instr.fresh], l.leads_none⟩, rfl⟩
  simpa [Instr.operands] using ⟨isScalar_reg hr rfl, hn⟩

/-- A container is allocated. -/
lemma allocContainer_keeps (hp : p.Regular env.layouts) {n : Operand} (hn : n.IsScalar) :
    Keeps env (allocContainer p n) fun _ => True := by
  unfold allocContainer
  split
  · exact .defineAfter (byteSize_keeps _ _ hn) (fun _ _ hr ha => alloc_regular hr ha)
      fun r _ hr _ => storeHeader_keeps hp (isScalar_reg hr rfl) hn
  · exact .fails (Fails.throw _)

/-- A container is copied. -/
lemma copyContainer_keeps (hp : p.Regular env.layouts) (hq : q.Regular env.layouts) :
    Keeps env (copyContainer p q) fun _ => True := by
  unfold copyContainer
  split
  · refine .bind (loadField_keeps hq (.inl rfl)) fun data hdata =>
      .bind (loadField_keeps hq (.inr rfl)) fun n hn => .bind (byteSize_keeps _ _ hn)
      fun bytes hbytes => .define (fun _ hr => alloc_regular hr hbytes) fun r hr => ?_
    have hr : (Operand.reg r).IsScalar := isScalar_reg hr rfl
    refine .bind (.emit ⟨?_, by simp [Instr.fresh], Layouts.leads_none _⟩ rfl) fun _ _ =>
      storeHeader_keeps hp hr hn
    simpa [Instr.operands] using ⟨hr, hdata, hbytes⟩
  · exact .fails (Fails.throw _)

/-! ## Creates and assigns -/

/-- The declaration of a function. -/
lemma declOf_keeps (f : MemberFunction) : Keeps env (declOf f) fun _ => True := by
  refine .read ?_
  split
  · exact .pure trivial
  · exact .fails (Fails.bug _)

/-- A call that returns nothing. -/
lemma emitCall_keeps (d : FuncDecl) {ins : List Operand} (h : ∀ a ∈ ins, a.IsScalar) :
    Keeps env (emit (.call d ins [])) fun _ => True :=
  .emit ⟨by simpa [Instr.operands] using h, by simp [Instr.fresh], env.layouts.leads_none⟩ rfl

/-- A function is called with scalars. -/
lemma invoke_keeps (f : MemberFunction) {self : Operand} {args : List Operand}
    (hself : self.IsScalar) (hargs : ∀ a ∈ args, a.IsScalar) :
    Keeps env (invoke f self args) fun _ => True := by
  refine .bind (declOf_keeps f) fun d _ => ?_
  split
  · exact emitCall_keeps d (List.forall_mem_cons.2 ⟨hself, hargs⟩)
  · exact .pure trivial

/-- The addresses of regular places are scalars. -/
lemma addresses_keeps : ∀ {ps : List Place}, (∀ p ∈ ps, p.Regular env.layouts) →
    Keeps env (addresses ps) fun as => ∀ a ∈ as, a.IsScalar
  | [], _ => .pure (by simp)
  | p :: ps, h => by
    obtain ⟨hp, hps⟩ := List.forall_mem_cons.1 h
    exact .bind (address_keeps hp) fun a ha => .bind (addresses_keeps hps) fun as has =>
      .pure (List.forall_mem_cons.2 ⟨ha, has⟩)

/-- A function is called with regular places. -/
lemma invokeAt_keeps (f : MemberFunction) {self : Place} {args : List Place}
    (hself : self.Regular env.layouts) (hargs : ∀ q ∈ args, q.Regular env.layouts) :
    Keeps env (invokeAt f self args) fun _ => True := by
  refine .bind (declOf_keeps f) fun d _ => ?_
  split
  · exact .bind (addresses_keeps hargs) fun as has => .bind (address_keeps hself) fun a ha =>
      emitCall_keeps d (List.forall_mem_cons.2 ⟨ha, has⟩)
  · exact .pure trivial

/-- The selected create or assign, if there is one, is called. -/
lemma selectAt_keeps (c : ClassRef) (kind : FuncKind) (ts : List Ty) {self : Place}
    {args : List Place} (hself : self.Regular env.layouts)
    (hargs : ∀ q ∈ args, q.Regular env.layouts) : Keeps env (do
      match ← select c kind ts with
      | some f => invokeAt f self args
      | none => return) fun _ => True := by
  refine .bind (.read (.pure trivial) : Keeps env (select c kind ts) fun _ => True) fun o _ => ?_
  split
  · exact invokeAt_keeps _ hself hargs
  · exact .pure trivial

/-- A value is copied to a regular place. -/
lemma copyValue_keeps (hp : p.Regular env.layouts) (hq : q.Regular env.layouts) :
    Keeps env (copyValue p q) fun _ => True := by
  unfold copyValue
  split
  · exact copyContainer_keeps hp hq
  · exact selectAt_keeps _ _ _ hp (by simpa using hq)
  · exact .bind (fetch_keeps hq) fun o ho => put_keeps hp ho

/-- A default value is put in a regular place. -/
lemma defaultValue_keeps (hp : p.Regular env.layouts) :
    Keeps env (defaultValue p) fun _ => True := by
  unfold defaultValue
  split
  · exact emptyContainer_keeps hp
  · exact selectAt_keeps _ _ _ hp (by simp)
  · exact put_keeps hp (lanes_code _)

/-- A value is assigned to a regular place. -/
lemma assignValue_keeps (hp : p.Regular env.layouts) (hq : q.Regular env.layouts) :
    Keeps env (assignValue p q) fun _ => True := by
  unfold assignValue
  split
  · exact selectAt_keeps _ _ _ hp (by simpa using hq)
  · exact copyValue_keeps hp hq

end Keeps

end Lane.Lowering
