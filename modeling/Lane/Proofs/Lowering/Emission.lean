import Lane.Lowering.Program
import Lane.Proofs.Code.Typed

set_option relaxedAutoImplicit false
set_option autoImplicit false

/-!
# What lowering emits

Reasoning about computations that emit straight-line code. Such a computation gives a result, and
only adds instructions to the code, which assign new registers, each of them once. Whether these
instructions are well typed is part of what is shown, under a condition: the code of a program whose
class has the name of a scalar is emitted all the same.

## Main definitions

* `Lane.Lowering.Grows`, `Lane.Lowering.Emits`: code, or straight-line code, was added.
* `Lane.Lowering.Lowers`: computations that succeed and add straight-line code.
* `Lane.Lowering.Yields`: the same, for computations that leave the locals alone.
* `Lane.Lowering.Fails`: computations that do not succeed.

## Main results

* `Lane.Lowering.Lowers.bind`, `Lane.Lowering.Yields.bind`: computations one after the other.
-/

namespace Lane.Lowering

open Code

/-- Where locals live, the newest entry first. -/
abbrev Locals := List (Nat × Storage)

/-- What code may call. -/
def Env.Calls (env : Env) (d : FuncDecl) : Prop :=
  d ∈ env.decls.map Prod.snd ∨ d ∈ env.foreigns.map Prod.snd

/-- **Added code**: the instructions `is` were added, which are well typed if `T` holds. The
registers that they assign are new, and assigned once. -/
structure Grows (env : Env) (T : Prop) (b b' : Builder) (is : List Instr) : Prop where
  code_eq : b'.code = b.code ++ is
  regs_le : b.regs ≤ b'.regs
  typed : T → ∀ i ∈ is, i.WellTyped env.Calls
  regs_new : ∀ r ∈ assignedRegs is, b.regs < r.id ∧ r.id ≤ b'.regs
  regs_nodup : ((assignedRegs is).map Reg.id).Nodup

/-- **Emitted code**: straight-line code was added, and no label made. -/
structure Emits (env : Env) (T : Prop) (b b' : Builder) (is : List Instr) : Prop
    extends Grows env T b b' is where
  labels_eq : b'.labels = b.labels
  straight : ∀ i ∈ is, i.isStraight

/-- **Computations that emit code**: from the locals `L` they give a result, and add straight-line
code. -/
def Lowers {α : Type} (env : Env) (T : Prop) (L : Locals) (m : Lower α)
    (Q : α → Locals → Prop) : Prop :=
  ∀ b : Builder, b.locals = L →
    ∃ a b' is, (m.run env).run b = .ok (a, b') ∧ Emits env T b b' is ∧ Q a b'.locals

/-- Computations that emit code and leave the locals alone. -/
def Yields {α : Type} (env : Env) (T : Prop) (L : Locals) (m : Lower α) (R : α → Prop) : Prop :=
  Lowers env T L m fun a L' => L' = L ∧ R a

/-- **Computations that do not succeed**, whatever was built before. -/
def Fails {α : Type} (env : Env) (m : Lower α) : Prop :=
  ∀ b : Builder, ∃ x, (m.run env).run b = .error x

section Emits

variable {env : Env} {T : Prop} {b b' b'' : Builder} {is js : List Instr}

/-- No code was added. -/
lemma Grows.nil (hc : b'.code = b.code) (hr : b.regs ≤ b'.regs) : Grows env T b b' [] :=
  ⟨by simp [hc], hr, by simp, by simp, by simp⟩

/-- Code was added, and then more of it. -/
lemma Grows.trans (h : Grows env T b b' is) (h' : Grows env T b' b'' js) :
    Grows env T b b'' (is ++ js) where
  code_eq := by rw [h'.code_eq, h.code_eq, List.append_assoc]
  regs_le := Nat.le_trans h.regs_le h'.regs_le
  typed hT i hi := (List.mem_append.1 hi).elim (h.typed hT i) (h'.typed hT i)
  regs_new r hr := by
    rw [assignedRegs_append, List.mem_append] at hr
    obtain hr | hr := hr
    · exact ⟨(h.regs_new r hr).1, Nat.le_trans (h.regs_new r hr).2 h'.regs_le⟩
    · exact ⟨Nat.lt_of_le_of_lt h.regs_le (h'.regs_new r hr).1, (h'.regs_new r hr).2⟩
  regs_nodup := by
    rw [assignedRegs_append, List.map_append, List.nodup_append']
    refine ⟨h.regs_nodup, h'.regs_nodup, fun n hn hn' => ?_⟩
    obtain ⟨r, hr, rfl⟩ := List.mem_map.1 hn
    obtain ⟨r', hr', he⟩ := List.mem_map.1 hn'
    have h1 := (h.regs_new r hr).2
    have h2 := (h'.regs_new r' hr').1
    omega

/-- One instruction was added that assigns no register. -/
lemma Grows.single {i : Instr} (hr : i.reg? = none) (ht : T → i.WellTyped env.Calls) :
    Grows env T b { b with code := b.code ++ [i] } [i] where
  code_eq := rfl
  regs_le := Nat.le_refl _
  typed hT j hj := List.mem_singleton.1 hj ▸ ht hT
  regs_new r h := by simp [assignedRegs_cons, hr] at h
  regs_nodup := by simp [assignedRegs_cons, hr]

/-- Nothing is emitted. -/
lemma Emits.nil (hc : b'.code = b.code) (hl : b'.labels = b.labels) (hr : b.regs ≤ b'.regs) :
    Emits env T b b' [] :=
  ⟨.nil hc hr, hl, by simp⟩

/-- Nothing is emitted by nothing. -/
lemma Emits.refl : Emits env T b b [] := .nil rfl rfl (Nat.le_refl _)

/-- What is emitted in two parts. -/
lemma Emits.trans (h : Emits env T b b' is) (h' : Emits env T b' b'' js) :
    Emits env T b b'' (is ++ js) where
  toGrows := h.toGrows.trans h'.toGrows
  labels_eq := h'.labels_eq.trans h.labels_eq
  straight i hi := (List.mem_append.1 hi).elim (h.straight i) (h'.straight i)

/-- A single instruction is emitted. -/
lemma Emits.single {i : Instr} (hs : i.isStraight) (hr : i.reg? = none)
    (ht : T → i.WellTyped env.Calls) :
    Emits env T b { b with code := b.code ++ [i] } [i] where
  toGrows := .single hr ht
  labels_eq := rfl
  straight _ hj := List.mem_singleton.1 hj ▸ hs

/-- One instruction was added that assigns a register which was reserved before other code. -/
lemma Emits.reserved {i : Instr} {t : VType} (h : Emits env T { b with regs := b.regs + 1 } b' is)
    (hs : i.isStraight) (hr : i.reg? = some ⟨b.regs + 1, t⟩) (ht : T → i.WellTyped env.Calls) :
    Emits env T b { b' with code := b'.code ++ [i] } (is ++ [i]) where
  code_eq := by
    show b'.code ++ [i] = b.code ++ (is ++ [i])
    rw [h.code_eq, List.append_assoc]
  labels_eq := h.labels_eq
  regs_le := Nat.le_trans (Nat.le_succ _) h.regs_le
  straight j hj := by
    obtain hj | hj := List.mem_append.1 hj
    · exact h.straight j hj
    · exact List.mem_singleton.1 hj ▸ hs
  typed hT j hj := by
    obtain hj | hj := List.mem_append.1 hj
    · exact h.typed hT j hj
    · exact List.mem_singleton.1 hj ▸ ht hT
  regs_new r hr' := by
    have hle : b.regs + 1 ≤ b'.regs := h.regs_le
    simp only [assignedRegs_append, assignedRegs_cons, hr, assignedRegs_nil, Option.toList_some,
      List.append_nil, List.mem_append, List.mem_singleton] at hr'
    obtain hr' | rfl := hr'
    · have := h.regs_new r hr'
      exact ⟨Nat.lt_of_succ_lt this.1, this.2⟩
    · exact ⟨Nat.lt_succ_self _, hle⟩
  regs_nodup := by
    simp only [assignedRegs_append, assignedRegs_cons, hr, assignedRegs_nil, Option.toList_some,
      List.append_nil, List.map_append, List.map_cons, List.map_nil, List.nodup_append']
    refine ⟨h.regs_nodup, by simp, fun n hn hn' => ?_⟩
    obtain ⟨r, hr, rfl⟩ := List.mem_map.1 hn
    have h1 : b.regs + 1 < r.id := (h.regs_new r hr).1
    have h2 : r.id = b.regs + 1 := List.mem_singleton.1 hn'
    omega

end Emits

section Lowers

variable {α β : Type} {env : Env} {T : Prop} {L : Locals} {m : Lower α} {f : α → Lower β}
  {Q Q' : α → Locals → Prop} {S : β → Locals → Prop} {R R' : α → Prop}

/-! ## Computations one after the other -/

/-- A run goes on after a part that succeeds. -/
lemma run_bind {b b' : Builder} {a : α} (h : (m.run env).run b = .ok (a, b')) :
    ((m >>= f).run env).run b = ((f a).run env).run b' := by
  rw [ReaderT.run_bind, StateT.run_bind, h]
  rfl

/-- A result is lowered to nothing. -/
lemma Lowers.pure {a : α} (h : Q a L) : Lowers env T L (pure a) Q := by
  rintro b rfl
  exact ⟨a, b, [], rfl, .refl, h⟩

/-- One computation is lowered after the other. -/
lemma Lowers.bind (hm : Lowers env T L m Q)
    (hf : ∀ a L', Q a L' → Lowers env T L' (f a) S) : Lowers env T L (m >>= f) S := by
  intro b hb
  obtain ⟨a, b', is, hrun, he, hQ⟩ := hm b hb
  obtain ⟨a', b'', js, hrun', he', hS⟩ := hf a b'.locals hQ b' rfl
  exact ⟨a', b'', is ++ js, (run_bind hrun).trans hrun', he.trans he', hS⟩

/-- Less may be said about the result. -/
lemma Lowers.weaken (hm : Lowers env T L m Q') (h : ∀ a L', Q' a L' → Q a L') :
    Lowers env T L m Q := by
  intro b hb
  obtain ⟨a, b', is, hrun, he, hQ⟩ := hm b hb
  exact ⟨a, b', is, hrun, he, h _ _ hQ⟩

/-- A result is yielded. -/
lemma Yields.pure {a : α} (h : R a) : Yields env T L (pure a) R := Lowers.pure ⟨rfl, h⟩

/-- What one computation yields is lowered by the next. -/
lemma Yields.bind (hm : Yields env T L m R) (hf : ∀ a, R a → Lowers env T L (f a) S) :
    Lowers env T L (m >>= f) S := by
  refine Lowers.bind hm fun a L' h => ?_
  obtain ⟨rfl, h⟩ := h
  exact hf a h

/-- Less may be said about what is yielded. -/
lemma Yields.weaken (hm : Yields env T L m R') (h : ∀ a, R' a → R a) : Yields env T L m R :=
  Lowers.weaken hm fun a _ => And.imp_right (h a)

/-- The environment is read. -/
lemma Yields.read : Yields env T L read (· = env) := by
  rintro b rfl
  exact ⟨env, b, [], rfl, .refl, rfl, rfl⟩

/-- The locals are looked at. -/
lemma Lowers.get {f : Builder → Lower β} (hf : ∀ b, b.locals = L → Lowers env T L (f b) S) :
    Lowers env T L (get >>= f) S := by
  intro b hb
  exact hf b hb b hb

/-- What is there is yielded. -/
lemma Yields.need {a : α} (h : R a) : Yields env T L (need (some a)) R := Yields.pure h

/-- Computations for the entries of a list. -/
lemma Lowers.forM {γ : Type} {g : γ → Lower Unit} : ∀ {l : List γ} {P : List γ → Locals → Prop},
    P l L → (∀ a l' L', a :: l' <:+ l → P (a :: l') L' →
      Lowers env T L' (g a) fun _ L'' => P l' L'') →
    ∀ {Q : Unit → Locals → Prop}, (∀ L', P [] L' → Q () L') → Lowers env T L (l.forM g) Q := by
  intro l
  induction l generalizing L with
  | nil => exact fun hP _ _ hQ => Lowers.pure (hQ _ hP)
  | cons a l ih =>
    intro P hP hg Q hQ
    exact Lowers.bind (hg a l L (List.suffix_refl _) hP) fun _ L' hP' =>
      ih hP' (fun a' l' L'' h => hg a' l' L'' (h.trans (List.suffix_cons a l))) hQ

/-! ## Single steps -/

/-- A straight instruction is emitted. -/
lemma Yields.emit {i : Instr} (hs : i.isStraight) (hr : i.reg? = none)
    (ht : T → i.WellTyped env.Calls) : Yields env T L (emit i) fun _ => True := by
  rintro b rfl
  exact ⟨(), _, [i], rfl, .single hs hr ht, rfl, trivial⟩

/-- An instruction assigns a new register. -/
lemma Lowers.define {t : VType} {i : Operand → Instr} {f : Operand → Lower β}
    (hi : ∀ r, (i (.reg r)).isStraight ∧ (i (.reg r)).reg? = some r)
    (ht : ∀ r : Reg, r.type = t → T → (i (.reg r)).WellTyped env.Calls)
    (hf : ∀ r : Reg, r.type = t → Lowers env T L (f (.reg r)) S) :
    Lowers env T L (do
      let r ← newReg t
      emit (i r)
      f r) S := by
  intro b hb
  let r : Reg := ⟨b.regs + 1, t⟩
  obtain ⟨a, b', is, hrun, he, hS⟩ := hf r rfl
    { b with regs := b.regs + 1, code := b.code ++ [i (.reg r)] } hb
  exact ⟨a, b', _, hrun, (Emits.reserved .refl (hi r).1 (hi r).2 (ht r rfl)).trans he, hS⟩

/-- A register is reserved that an instruction assigns only after other code. -/
lemma Lowers.defineAfter {γ : Type} {t : VType} {m : Lower γ} {R : γ → Prop}
    {i : Operand → γ → Instr} {f : Operand → γ → Lower β} (hm : Yields env T L m R)
    (hi : ∀ r a, (i (.reg r) a).isStraight ∧ (i (.reg r) a).reg? = some r)
    (ht : ∀ (r : Reg) (a : γ), r.type = t → R a → T → (i (.reg r) a).WellTyped env.Calls)
    (hf : ∀ (r : Reg) (a : γ), r.type = t → R a → Lowers env T L (f (.reg r) a) S) :
    Lowers env T L (do
      let r ← newReg t
      let a ← m
      emit (i r a)
      f r a) S := by
  intro b hb
  let r : Reg := ⟨b.regs + 1, t⟩
  obtain ⟨a, b', is, hrun, he, hl, hR⟩ := hm { b with regs := b.regs + 1 } hb
  obtain ⟨c, b'', js, hrun', he', hS⟩ := hf r a rfl hR
    { b' with code := b'.code ++ [i (.reg r) a] } hl
  refine ⟨c, b'', _, ?_, (he.reserved (hi r a).1 (hi r a).2 (ht r a rfl hR)).trans he', hS⟩
  have hreg : ((newReg t).run env).run b = .ok (.reg r, { b with regs := b.regs + 1 }) := rfl
  exact (run_bind hreg).trans ((run_bind hrun).trans hrun')

/-- A new slot has its struct and its size. -/
lemma Yields.newSlot (name : String) (size align : Int64) (struct : Option String) :
    Yields env T L (newSlot name size align struct) fun o =>
      ∃ s : Slot, o = .slot s ∧ s.struct = struct ∧ s.size = size := by
  rintro b rfl
  exact ⟨_, _, [], rfl, .nil rfl rfl (Nat.le_refl _), rfl, _, rfl, rfl, rfl⟩

/-- A new variable has its type. -/
lemma Yields.newVar (name : String) (t : VType) :
    Yields env T L (newVar name t) fun v => v.type = t := by
  rintro b rfl
  exact ⟨_, _, [], rfl, .nil rfl rfl (Nat.le_refl _), rfl, rfl⟩

/-- A register that is assigned by the call of a function only. -/
lemma Yields.newReg (t : VType) :
    Yields env T L (newReg t) fun o => ∃ r : Reg, o = .reg r ∧ r.type = t := by
  rintro b rfl
  exact ⟨_, _, [], rfl, .nil rfl rfl (Nat.le_succ _), rfl, _, rfl, rfl⟩

/-- Storage is put on record. -/
lemma Lowers.setStorage (id : Nat) (s : Storage) :
    Lowers env T L (setStorage id s) fun _ L' => L' = (id, s) :: L := by
  rintro b rfl
  exact ⟨(), _, [], rfl, .nil rfl rfl (Nat.le_refl _), rfl⟩

end Lowers

section Fails

variable {α β : Type} {env : Env} {m : Lower α} {f : α → Lower β}

/-! ## Failures -/

/-- A fault that is thrown fails. -/
lemma Fails.throw (x : Fault) : Fails env (throw x : Lower α) := fun _ => ⟨x, rfl⟩

/-- A fault of the compiler fails. -/
lemma Fails.bug (what : String) : Fails env (bug what : Lower α) := fun _ => ⟨_, rfl⟩

/-- What follows a failure does not matter. -/
lemma Fails.bind (hm : Fails env m) : Fails env (m >>= f) := by
  intro b
  obtain ⟨x, hx⟩ := hm b
  exact ⟨x, by rw [ReaderT.run_bind, StateT.run_bind, hx]; rfl⟩

/-- What comes before a failure may fail itself. -/
lemma Fails.of_bind (hf : ∀ a, Fails env (f a)) : Fails env (m >>= f) := by
  intro b
  rw [ReaderT.run_bind, StateT.run_bind]
  cases h : (m.run env).run b with
  | error x => exact ⟨x, rfl⟩
  | ok q => exact hf q.1 q.2

end Fails

end Lane.Lowering
