import Lane.Llvm.Emit
import Lane.Proofs.Packing.Confined
import Lane.Proofs.Packing.Program

set_option relaxedAutoImplicit false
set_option autoImplicit false

/-!
# Values in LLVM blocks

In the LLVM functions of well-formed code every result is used in the block that makes it, after it
is made. The addresses of variables and stack slots are no results: they are allocated in the first
block, and known by name in all of them.

## Main definitions

* `Lane.Llvm.Op.values`, `Lane.Llvm.Terminator.values`: the values that are used.
* `Lane.Llvm.Block.IsClosed`, `Lane.Llvm.Function.IsClosed`: results are used in their blocks.
* `Lane.Llvm.Keeps`, `Lane.Llvm.Sounds`: computations that add to a function.
* `Lane.Code.Module.WellFormed`: well-formed registers and labels, in LLVM as well.

## Main results

* `Lane.Llvm.emitInstr_keeps`: instructions between labels and jumps.
* `Lane.Llvm.emitBody_sounds`: whole bodies.
* `Lane.Code.Module.isClosed_of_toLlvm`: the LLVM functions of well-formed code are closed.
* `Lane.Accepted.modules_wellFormed`: the code and the packed code of accepted programs.
-/

namespace Lane.Code

/-! ## Confined code, instruction by instruction -/

/-- **Confined code**: what an instruction uses was assigned in its block. -/
lemma confined_iff : ∀ {is : List Instr} {L : List Reg}, Confined L is ↔
    ∀ before i after r, is = before ++ i :: after → .reg r ∈ i.uses → r ∈ live L before
  | [], L => by simp
  | i :: is, L => by
    rw [Confined, confined_iff]
    constructor
    · rintro ⟨hi, his⟩ before j after r heq hr
      cases before with
      | nil =>
        obtain ⟨rfl, -⟩ := List.cons.inj heq
        exact hi r hr
      | cons k before =>
        obtain ⟨rfl, hrest⟩ := List.cons.inj heq
        exact his before j after r hrest hr
    · intro h
      exact ⟨fun r hr => h [] i is r rfl hr,
        fun before j after r heq hr => h (i :: before) j after r (by rw [heq]; rfl) hr⟩

/-- Code that may be a function is confined. -/
lemma Function.WellFormed.confined_body {f : Function} (h : f.WellFormed) :
    Confined [] f.body := by
  refine confined_iff.2 fun before i after r heq hr => ?_
  obtain ⟨earlier, d, between, rfl, hd, hb⟩ := h.confined before i after r heq hr
  rw [live_append, live_cons]
  refine Packing.subset_live hb ?_
  rw [Instr.after_of_isStraight]
  · exact List.mem_append_left _ hd
  · by_contra hnot
    rw [Instr.defines_of_not_isStraight (Bool.eq_false_iff.2 hnot)] at hd
    cases hd

end Lane.Code

namespace Lane.Llvm

open Lane.Code (Operand AssignKind Label Offset VType FuncDecl Reg Confined confined_append)

/-! ## Values that are used -/

/-- **The values that an instruction uses**. -/
def Op.values : Op → List Value
  | .alloca .. => []
  | .load _ x | .bitcast x _ | .fneg x | .cast _ x _ | .extractValue _ x _ => [x]
  | .store x y | .gep _ x y | .binary _ x y | .compare _ _ x y | .insertValue x y _ => [x, y]
  | .select x y z | .insertElement x y z | .shuffle _ x y z => [x, y, z]
  | .call _ _ args => args

/-- **The values that the end of a block uses**. -/
def Terminator.values : Terminator → List Value
  | .jump _ => []
  | .branch c _ _ => [c]
  | .ret v => v.toList

/-- The results that are made in a block. -/
def Block.keys (k : Block) : List Nat := k.instrs.toList.map Instr.key

/-- **Closed blocks**: a result that is used was made before it in the same block. -/
structure Block.IsClosed (k : Block) : Prop where
  instrs : ∀ before i after key t, k.instrs.toList = before ++ i :: after →
    .result key t ∈ i.op.values → key ∈ before.map Instr.key
  terminator : ∀ e, k.terminator = some e → ∀ key t, .result key t ∈ e.values → key ∈ k.keys

/-- **Closed functions**: a result is made once, and used in the block that makes it only. -/
structure Function.IsClosed (f : Function) : Prop where
  closed : ∀ (n : Nat) (k : Block), f.blocks[n]? = some k → k.IsClosed
  nodup : ∀ (n : Nat) (k : Block), f.blocks[n]? = some k → k.keys.Nodup
  apart : ∀ (n m : Nat) (k l : Block) key, f.blocks[n]? = some k → f.blocks[m]? = some l →
    key ∈ k.keys → key ∈ l.keys → n = m

/-- Closed functions in which the next result is new. -/
structure Function.IsSound (f : Function) : Prop extends f.IsClosed where
  lt : ∀ (n : Nat) (k : Block), f.blocks[n]? = some k → ∀ key ∈ k.keys, key < f.made

section Blocks

variable {f : Function} {k l : Block} {n : Nat}

/-- A block is changed, in which nothing is made but the next result. -/
lemma Function.IsSound.modify (h : f.IsSound) (hk : f.blocks[n]? = some k) {g : Block → Block}
    {made : Nat} (hclosed : (g k).IsClosed) (hnodup : (g k).keys.Nodup) (hmade : f.made ≤ made)
    (hkeys : ∀ key ∈ (g k).keys, key ∈ k.keys ∨ key = f.made ∧ f.made < made) :
    Function.IsSound { f with blocks := f.blocks.modify n g, made } := by
  have hget : ∀ (m : Nat) (l : Block), (f.blocks.modify n g)[m]? = some l →
      m = n ∧ l = g k ∨ m ≠ n ∧ f.blocks[m]? = some l := by
    intro m l hl
    rw [Array.getElem?_modify] at hl
    by_cases hm : n = m
    · subst hm
      rw [if_pos rfl, hk] at hl
      exact .inl ⟨rfl, (Option.some.inj hl).symm⟩
    · rw [if_neg hm] at hl
      exact .inr ⟨fun h => hm h.symm, hl⟩
  have hlt : ∀ (m : Nat) (l : Block), f.blocks[m]? = some l → f.made ∉ l.keys := fun m l hl hmem =>
    Nat.lt_irrefl _ (h.lt m l hl _ hmem)
  refine ⟨⟨fun m l hl => ?_, fun m l hl => ?_, fun m m' l l' key hl hl' hmem hmem' => ?_⟩,
    fun m l hl key hmem => ?_⟩
  · obtain ⟨-, rfl⟩ | ⟨-, hl⟩ := hget m l hl
    · exact hclosed
    · exact h.closed m l hl
  · obtain ⟨-, rfl⟩ | ⟨-, hl⟩ := hget m l hl
    · exact hnodup
    · exact h.nodup m l hl
  · obtain ⟨rfl, rfl⟩ | ⟨-, hold⟩ := hget m l hl <;>
      obtain ⟨rfl, rfl⟩ | ⟨-, hold'⟩ := hget m' l' hl'
    · rfl
    · obtain hmem | ⟨rfl, -⟩ := hkeys key hmem
      · exact h.apart _ _ _ _ key hk hold' hmem hmem'
      · exact absurd hmem' (hlt _ _ hold')
    · obtain hmem' | ⟨rfl, -⟩ := hkeys key hmem'
      · exact h.apart _ _ _ _ key hold hk hmem hmem'
      · exact absurd hmem (hlt _ _ hold)
    · exact h.apart m m' l l' key hold hold' hmem hmem'
  · obtain ⟨-, rfl⟩ | ⟨-, hl⟩ := hget m l hl
    · obtain hmem | ⟨rfl, hlt⟩ := hkeys key hmem
      · exact Nat.lt_of_lt_of_le (h.lt n k hk key hmem) hmade
      · exact hlt
    · exact Nat.lt_of_lt_of_le (h.lt m l hl key hmem) hmade

/-- A block is added. -/
lemma Function.IsSound.push (h : f.IsSound) (name : String) :
    Function.IsSound { f with blocks := f.blocks.push { name } } := by
  have hget : ∀ (m : Nat) (l : Block), (f.blocks.push { name })[m]? = some l →
      l = { name } ∨ f.blocks[m]? = some l := by
    intro m l hl
    rw [Array.getElem?_push] at hl
    split at hl
    · exact .inl (Option.some.inj hl).symm
    · exact .inr hl
  have hempty : (Block.keys { name }) = [] := rfl
  refine ⟨⟨fun m l hl => ?_, fun m l hl => ?_, fun m m' l l' key hl hl' hmem hmem' => ?_⟩,
    fun m l hl key hmem => ?_⟩
  · obtain rfl | hl := hget m l hl
    · exact ⟨fun before i after key t heq => by simp at heq, nofun⟩
    · exact h.closed m l hl
  · obtain rfl | hl := hget m l hl
    · exact List.nodup_nil
    · exact h.nodup m l hl
  · obtain rfl | hl := hget m l hl
    · simp [hempty] at hmem
    · obtain rfl | hl' := hget m' l' hl'
      · simp [hempty] at hmem'
      · exact h.apart m m' l l' key hl hl' hmem hmem'
  · obtain rfl | hl := hget m l hl
    · simp [hempty] at hmem
    · exact h.lt m l hl key hmem

/-- An instruction is added to a block that makes what it uses. -/
lemma Block.IsClosed.push (h : k.IsClosed) {i : Instr}
    (hi : ∀ key t, .result key t ∈ i.op.values → key ∈ k.keys) :
    Block.IsClosed { k with instrs := k.instrs.push i } where
  instrs before j after key t heq hmem := by
    rw [Array.toList_push] at heq
    obtain ⟨as, rfl, hrest⟩ | ⟨as, hkeys, hrest⟩ := List.append_eq_append_iff.1 heq
    · cases as with
      | nil =>
        obtain ⟨rfl, -⟩ := List.cons.inj hrest
        simpa [Block.keys] using hi key t hmem
      | cons a as => simp at hrest
    · cases as with
      | nil =>
        obtain ⟨rfl, -⟩ := List.cons.inj hrest
        rw [List.append_nil] at hkeys
        exact hkeys ▸ hi key t hmem
      | cons a as =>
        obtain ⟨rfl, -⟩ := List.cons.inj hrest
        exact h.instrs before j as key t hkeys hmem
  terminator e he key t hmem := by
    rw [Block.keys, Array.toList_push, List.map_append]
    exact List.mem_append_left _ (h.terminator e he key t hmem)

end Blocks

/-! ## Builders -/

namespace Builder

/-- The block that code is added to. -/
def block? (b : Builder) : Option Block := b.function.blocks[b.current]?

/-- The results that are made in the current block. -/
def keys (b : Builder) : List Nat := (b.block?.map Block.keys).getD []

/-- Whether the current block has an end. -/
def isEnded (b : Builder) : Bool := (b.block?.bind Block.terminator).isSome

/-- **Sound builders**: the function is sound, and blocks are given by numbers that it has. -/
structure IsSound (b : Builder) : Prop where
  function : b.function.IsSound
  current : b.current < b.function.blocks.size
  labels : ∀ p ∈ b.labels, p.2 < b.function.blocks.size

/-- A value that may be used in the current block. -/
def Has (b : Builder) (v : Value) : Prop := ∀ key t, v = .result key t → key ∈ b.keys

/-- An operand that may be read in the current block. -/
def Holds (b : Builder) (o : Operand) : Prop :=
  ∀ r v, o = .reg r → b.regs.lookup r.id = some v → b.Has v

/-- **Continued builders**: more code was added to the same block. -/
structure Continues (b b' : Builder) : Prop where
  keys : b.keys ⊆ b'.keys
  holds : ∀ o, b.Holds o → b'.Holds o
  isEnded : b'.isEnded = b.isEnded

end Builder

namespace Builder

variable {b b' b'' : Builder} {v : Value} {o : Operand}

/-- A builder continues itself. -/
lemma Continues.refl (b : Builder) : b.Continues b := ⟨List.Subset.refl _, fun _ => id, rfl⟩

/-- What continues a continuation continues the first. -/
lemma Continues.trans (h : b.Continues b') (h' : b'.Continues b'') : b.Continues b'' :=
  ⟨List.Subset.trans h.keys h'.keys, fun o ho => h'.holds o (h.holds o ho),
    h'.isEnded.trans h.isEnded⟩

/-- Values that were there are there. -/
lemma Continues.has (h : b.Continues b') (hv : b.Has v) : b'.Has v :=
  fun key t heq => h.keys (hv key t heq)

/-- The registers are the same, and no result of the current block is lost. -/
lemma Continues.of_regs_eq (hk : b.keys ⊆ b'.keys) (hr : b'.regs = b.regs)
    (he : b'.isEnded = b.isEnded) : b.Continues b' :=
  ⟨hk, fun _ ho r v hor hv key t heq => hk (ho r v hor (hr ▸ hv) key t heq), he⟩

/-- Whatever is no result may be used anywhere. -/
lemma has_of_ne_result (h : ∀ key t, v ≠ .result key t) : b.Has v :=
  fun key t heq => absurd heq (h key t)

/-- What is no register is held by any builder. -/
lemma holds_of_ne_reg (h : ∀ r, o ≠ .reg r) : b.Holds o := fun r _ heq => absurd heq (h r)

/-- The current block of a sound builder. -/
lemma IsSound.exists_block? (h : b.IsSound) : ∃ k, b.block? = some k ∧ b.keys = k.keys := by
  obtain ⟨k, hk⟩ : ∃ k, b.block? = some k := ⟨_, Array.getElem?_eq_getElem h.current⟩
  exact ⟨k, hk, by rw [keys, hk]; rfl⟩

/-- An instruction is added to the current block. -/
def pushInstr (b : Builder) (op : Op) : Builder :=
  let added := b.modifyBlock fun k => { k with instrs := k.instrs.push ⟨b.function.made, op⟩ }
  { added with function := { added.function with made := b.function.made + 1 } }

/-- A block is added, and code goes to the same block as before. -/
def pushBlock (b : Builder) (name : String) : Builder :=
  { b with function := { b.function with blocks := b.function.blocks.push { name } } }

/-- The current block is changed. -/
lemma block?_modifyBlock {k : Block} (hk : b.block? = some k) (g : Block → Block) :
    (b.modifyBlock g).block? = some (g k) := by
  rw [block?, modifyBlock, Array.getElem?_modify, if_pos rfl, ← block?, hk]
  rfl

/-- An instruction is added to sound code, and its result is there. -/
lemma IsSound.pushInstr (h : b.IsSound) {op : Op} (hop : ∀ v ∈ op.values, b.Has v) :
    (b.pushInstr op).IsSound ∧ b.Continues (b.pushInstr op) ∧
      (b.pushInstr op).Has (.result b.function.made op.type) := by
  obtain ⟨k, hk, hkeys⟩ := h.exists_block?
  have hblock : (b.pushInstr op).block? =
      some { k with instrs := k.instrs.push ⟨b.function.made, op⟩ } := block?_modifyBlock hk _
  have hadded : Block.keys { k with instrs := k.instrs.push ⟨b.function.made, op⟩ } =
      k.keys ++ [b.function.made] := by simp [Block.keys]
  have hkeys' : (b.pushInstr op).keys = b.keys ++ [b.function.made] := by
    rw [keys, hblock, hkeys]
    exact hadded
  refine ⟨⟨?_, ?_, ?_⟩, .of_regs_eq ?_ rfl ?_, fun key t heq => ?_⟩
  · refine h.function.modify (g := fun k => { k with instrs := k.instrs.push _ }) hk ?_ ?_
      (Nat.le_succ _) fun key hmem => ?_
    · exact (h.function.closed _ k hk).push fun key t hmem => hkeys ▸ hop _ hmem key t rfl
    · refine hadded ▸ (h.function.nodup _ k hk).append (List.nodup_singleton _) ?_
      exact List.disjoint_singleton.2 fun hmem => Nat.lt_irrefl _ (h.function.lt _ k hk _ hmem)
    · rw [hadded, List.mem_append, List.mem_singleton] at hmem
      exact hmem.imp id fun hmem => ⟨hmem, Nat.lt_succ_self _⟩
  · simpa [Builder.pushInstr, modifyBlock] using h.current
  · simpa [Builder.pushInstr, modifyBlock] using h.labels
  · exact hkeys' ▸ List.subset_append_left _ _
  · rw [isEnded, isEnded, hblock, hk]
    rfl
  · obtain ⟨rfl, -⟩ := Value.result.inj heq
    exact hkeys' ▸ List.mem_append_right _ (List.mem_singleton_self _)

/-- A block is added to sound code. -/
lemma IsSound.pushBlock (h : b.IsSound) (name : String) :
    (b.pushBlock name).IsSound ∧ b.Continues (b.pushBlock name) := by
  have hblock : (b.pushBlock name).block? = b.block? := by
    rw [block?, block?, Builder.pushBlock, Array.getElem?_push, if_neg (Nat.ne_of_lt h.current)]
  refine ⟨⟨h.function.push name, ?_, fun p hp => ?_⟩, .of_regs_eq ?_ rfl ?_⟩
  · simpa [Builder.pushBlock] using Nat.lt_succ_of_lt h.current
  · simpa [Builder.pushBlock] using Nat.lt_succ_of_lt (h.labels p hp)
  · rw [keys, keys, hblock]
    exact List.Subset.refl _
  · rw [isEnded, isEnded, hblock]

/-- The current block gets another end. -/
lemma IsSound.terminate (h : b.IsSound) {t : Terminator} (ht : ∀ v ∈ t.values, b.Has v) :
    (b.modifyBlock fun k => { k with terminator := some t }).IsSound := by
  obtain ⟨k, hk, hkeys⟩ := h.exists_block?
  refine ⟨?_, ?_, ?_⟩
  · refine h.function.modify hk ⟨?_, ?_⟩ ?_ (Nat.le_refl _) fun key => Or.inl
    · exact (h.function.closed _ k hk).instrs
    · intro e he key t' hmem
      obtain rfl := Option.some.inj he
      exact hkeys ▸ ht _ hmem key t' rfl
    · exact h.function.nodup _ k hk
  · simpa [modifyBlock] using h.current
  · simpa [modifyBlock] using h.labels

end Builder

/-! ## Computations -/

/-- **Straight computations** add to the current block. -/
def Keeps {α : Type} (env : EmitEnv) (b : Builder) (m : Emit α) (R : Builder → α → Prop) : Prop :=
  ∀ a b', (m.run env).run b = .ok (a, b') → b.IsSound → b'.IsSound ∧ b.Continues b' ∧ R b' a

/-- **Computations that keep builders sound**, whatever they do to the current block. -/
def Sounds {α : Type} (env : EmitEnv) (b : Builder) (m : Emit α) : Prop :=
  ∀ a b', (m.run env).run b = .ok (a, b') → b.IsSound → b'.IsSound

section Computations

variable {env : EmitEnv} {b : Builder} {α β : Type} {m : Emit α} {f : α → Emit β}
  {R R' : Builder → α → Prop} {S : Builder → β → Prop}

/-- A run of two emissions is a run of each. -/
lemma of_run_bind {c : β} {b'' : Builder} (h : ((m >>= f).run env).run b = .ok (c, b'')) :
    ∃ a b', (m.run env).run b = .ok (a, b') ∧ ((f a).run env).run b' = .ok (c, b'') := by
  rw [ReaderT.run_bind, StateT.run_bind] at h
  cases hm : (m.run env).run b with
  | error x =>
    rw [hm] at h
    cases h
  | ok q =>
    rw [hm] at h
    exact ⟨q.1, q.2, rfl, h⟩

/-- A result keeps code sound. -/
lemma Keeps.pure {a : α} (h : R b a) : Keeps env b (pure a) R := by
  intro a' b' hrun hb
  obtain ⟨rfl, rfl⟩ := Prod.mk.inj (Except.ok.inj hrun)
  exact ⟨hb, .refl b, h⟩

/-- One emission after the other keeps code sound. -/
lemma Keeps.bind (hm : Keeps env b m R)
    (hf : ∀ b' a, b.Continues b' → R b' a → Keeps env b' (f a) S) : Keeps env b (m >>= f) S := by
  intro c b'' hrun hb
  obtain ⟨a, b', hrun, hrun'⟩ := of_run_bind hrun
  obtain ⟨hb', hcont, ha⟩ := hm a b' hrun hb
  obtain ⟨hb'', hcont', hc⟩ := hf b' a hcont ha c b'' hrun' hb'
  exact ⟨hb'', hcont.trans hcont', hc⟩

/-- What fails keeps anything. -/
lemma Keeps.throw (x : EmitError) : Keeps env b (throw x : Emit α) R :=
  fun _ _ hrun => by cases hrun

/-- The environment is looked at. -/
lemma Keeps.read {g : EmitEnv → Emit α} (h : Keeps env b (g env) R) :
    Keeps env b (read >>= g) R := h

/-- The builder is looked at. -/
lemma Keeps.get {g : Builder → Emit α} (h : Keeps env b (g b) R) : Keeps env b (get >>= g) R := h

/-- What is rejected keeps anything. -/
lemma Keeps.reject (r : Rejection) : Keeps env b (reject r : Emit α) R := .throw _

/-- What is a fault keeps anything. -/
lemma Keeps.bug (what : String) : Keeps env b (bug what : Emit α) R := .throw _

/-- Less may be said about the result. -/
lemma Keeps.weaken (hm : Keeps env b m R) (h : ∀ b' a, R b' a → R' b' a) : Keeps env b m R' := by
  intro a b' hrun hb
  obtain ⟨hb', hcont, ha⟩ := hm a b' hrun hb
  exact ⟨hb', hcont, h b' a ha⟩

/-- What is known when a computation ends includes that the builder is continued. -/
lemma Keeps.with (hm : Keeps env b m R) (h : ∀ b' a, b.Continues b' → R b' a → R' b' a) :
    Keeps env b m R' := by
  intro a b' hrun hb
  obtain ⟨hb', hcont, ha⟩ := hm a b' hrun hb
  exact ⟨hb', hcont, h b' a hcont ha⟩

/-- What keeps code sound ends in sound code. -/
lemma Keeps.sounds (hm : Keeps env b m R) :
    Sounds env b m := fun a b' hrun hb => (hm a b' hrun hb).1

/-- Emission after code that was kept sound ends in sound code. -/
lemma Keeps.sounds_bind (hm : Keeps env b m R)
    (hf : ∀ b' a, b.Continues b' → R b' a → Sounds env b' (f a)) : Sounds env b (m >>= f) := by
  intro c b'' hrun hb
  obtain ⟨a, b', hrun, hrun'⟩ := of_run_bind hrun
  obtain ⟨hb', hcont, ha⟩ := hm a b' hrun hb
  exact hf b' a hcont ha c b'' hrun' hb'

/-- A computation that is rejected in some cases. -/
lemma Keeps.guard {c : Prop} [Decidable c] {r : Rejection} {f : Unit → Emit α}
    (h : Keeps env b (f ()) R) :
    Keeps env b (if c then Llvm.reject r >>= f else f ()) R := by
  split
  · exact .bind (R := fun _ _ => False) (.reject r) fun _ _ _ => False.elim
  · exact h

/-- Both alternatives keep code sound. -/
lemma Keeps.ite {c : Prop} [Decidable c] {m' : Emit α} (h : Keeps env b m R)
    (h' : Keeps env b m' R) : Keeps env b (if c then m else m') R := by
  split
  · exact h
  · exact h'

end Computations

/-! ## Instructions between labels and jumps -/

section Straight

variable {env : EmitEnv} {b : Builder} {v x y : Value} {o : Operand}

/-- A value that may be used. -/
abbrev GivesValue (env : EmitEnv) (b : Builder) (m : Emit Value) : Prop :=
  Keeps env b m fun b' v => b'.Has v

/-- **An instruction is added** that uses results of the current block. -/
lemma instr_keeps {op : Op} (h : ∀ v ∈ op.values, b.Has v) : GivesValue env b (instr op) := by
  intro v b' hrun hb
  obtain ⟨rfl, rfl⟩ := Prod.mk.inj (Except.ok.inj hrun)
  exact hb.pushInstr h

/-- A constant is made without instructions. -/
lemma constOf_keeps (c : Code.Const) : Keeps env b (constOf c) fun _ _ => True := by
  unfold constOf
  exact .ite (.pure trivial) (.ite (.pure trivial) (.ite (.reject _) (.pure trivial)))

/-- Constants are always there. -/
lemma has_const (c : Const) : b.Has (.const c) := Builder.has_of_ne_result nofun

/-- Values are stored at places. -/
lemma storeTo_keeps (hx : b.Has x) (hy : b.Has y) : Keeps env b (storeTo x y) fun _ _ => True := by
  have hstore : Keeps env b (do let _ ← instr (.store x y)) fun _ _ => True :=
    .bind (instr_keeps (by simp [Op.values, hx, hy])) fun _ _ _ _ => .pure trivial
  have hreject : ∀ r, Keeps env b (do reject r; let _ ← instr (.store x y)) fun _ _ => True :=
    fun r => .bind (R := fun _ _ => False) (.reject r) fun _ _ _ => False.elim
  unfold storeTo
  split
  · exact .guard hstore
  · exact hreject _

/-- Operands are read. -/
lemma value_keeps (ho : b.Holds o) : GivesValue env b (value o) := by
  cases o with
  | const c => exact .bind (constOf_keeps c) fun _ _ _ _ => .pure (has_const _)
  | reg r =>
    refine .get ?_
    split
    · rename_i v hv
      exact .pure (ho r v rfl hv)
    · exact .read (.bug _)
  | var v =>
    have hplace : ∀ key t, varPlace v ≠ .result key t := nofun
    exact instr_keeps (by simpa [Op.values] using Builder.has_of_ne_result hplace)
  | slot s => exact .pure (Builder.has_of_ne_result (nofun : ∀ key t, slotPlace s ≠ .result key t))
  | absent => exact .bug _

/-- The values of operands are there. -/
lemma values_keeps : ∀ {b : Builder} {os : List Operand}, (∀ o ∈ os, b.Holds o) →
    Keeps env b (values os) fun b' vs => ∀ v ∈ vs, b'.Has v
  | _, [], _ => .pure (List.forall_mem_nil _)
  | _, o :: os, h => by
    obtain ⟨ho, hos⟩ := List.forall_mem_cons.1 h
    refine .bind (value_keeps ho) fun b₁ v h₁ hv => ?_
    refine .bind (values_keeps fun o ho => h₁.holds o (hos o ho)) fun b₂ vs h₂ hvs => ?_
    exact .pure (List.forall_mem_cons.2 ⟨h₂.has hv, hvs⟩)

/-- **An operand is given a value**, which it holds from then on. -/
lemma define_keeps (hv : b.Has v) : Keeps env b (define o v) fun b' _ => b'.Holds o := by
  cases o with
  | reg r =>
    intro _ b' hrun hb
    obtain ⟨rfl, rfl⟩ := Prod.mk.inj (Except.ok.inj hrun)
    have hlookup : ∀ s w, List.lookup s ((r.id, v) :: b.regs) = some w →
        w = v ∨ b.regs.lookup s = some w := by
      intro s w hw
      rw [List.lookup_cons] at hw
      split at hw
      · exact .inl (Option.some.inj hw).symm
      · exact .inr hw
    refine ⟨⟨hb.function, hb.current, hb.labels⟩,
      ⟨List.Subset.refl _, fun o ho s w hs hw => ?_, rfl⟩,
      fun s w hs hw => ?_⟩
    · obtain rfl | hw := hlookup _ _ hw
      · exact hv
      · exact ho s w hs hw
    · obtain rfl := Operand.reg.inj hs
      rw [List.lookup_cons_self] at hw
      exact Option.some.inj hw ▸ hv
  | var x =>
    refine Keeps.weaken (m := storeTo v (varPlace x)) (storeTo_keeps hv ?_) fun _ _ _ =>
      Builder.holds_of_ne_reg (nofun : ∀ r, Operand.var x ≠ .reg r)
    exact Builder.has_of_ne_result (nofun : ∀ key t, varPlace x ≠ .result key t)
  | const c => exact .bug _
  | slot s => exact .bug _
  | absent => exact .bug _

/-- The type of an operand is looked up. -/
lemma typeOf_keeps : Keeps env b (typeOf o) fun _ _ => True := by
  cases o with
  | absent => exact .reject _
  | _ => exact .pure trivial

/-! ### Addresses -/

/-- An address is moved by a value that is there. -/
lemma moveAddress_keeps (hx : b.Has x) (hy : b.Has y) : GivesValue env b (moveAddress x y) := by
  unfold moveAddress
  refine Keeps.guard ?_
  split
  · exact instr_keeps (by simp [Op.values, hx, hy])
  · exact .reject _

/-- The address of an operand is there. -/
lemma address_keeps (ho : b.Holds o) (off : Option Offset) : GivesValue env b (address o off) := by
  refine .bind (value_keeps ho) fun b₁ p _ hp => ?_
  exact .ite (.pure hp) (moveAddress_keeps hp (has_const _))

/-- An address is computed from one that is there. -/
lemma addressTo_keeps (hx : b.Has x) (t : VType) : GivesValue env b (addressTo x t) :=
  instr_keeps (by simp [Op.values, hx])

/-! ### Assignments -/

section Assignments

variable {k : Code.Kind} {kind : AssignKind} {args : List Operand}

/-- Arithmetic gives a value that is there. -/
lemma arithmetic_keeps (real signed unsigned : String) (hx : b.Has x) (hy : b.Has y) :
    GivesValue env b (arithmetic k real signed unsigned x y) :=
  instr_keeps (by simp [Op.values, hx, hy])

/-- A comparison gives a value that is there. -/
lemma compare_keeps (hx : b.Has x) (hy : b.Has y) : GivesValue env b (compare k kind x y) := by
  unfold compare
  split
  · exact instr_keeps (by simp [Op.values, hx, hy])
  · exact .reject _

/-- A value is narrowed to one that is there. -/
lemma narrow_keeps (hx : b.Has x) (t : LType) : GivesValue env b (narrow x t) := by
  unfold narrow
  exact Keeps.guard (instr_keeps (by simp [Op.values, hx]))

/-- A converted value is there. -/
lemma convert_keeps (hx : b.Has x) (source target : VType) :
    GivesValue env b (convert x source target) := by
  have hcast : ∀ word, GivesValue env b (instr (.cast word x target.llvm)) :=
    fun word => instr_keeps (by simp [Op.values, hx])
  unfold convert
  refine .ite (.pure hx) (.ite (.ite (hcast _) (hcast _)) (.ite (hcast _) (.ite (hcast _) ?_)))
  exact .ite (.pure hx) (.ite (narrow_keeps hx _) (.ite (hcast _) (hcast _)))

/-- A value that was spread is there. -/
lemma splat_keeps (hx : b.Has x) (t : VType) : GivesValue env b (splat x t) := by
  unfold splat
  split
  · refine .bind (instr_keeps (by simp [Op.values, hx, has_const])) fun b₁ one h₁ hone => ?_
    exact instr_keeps (by simp [Op.values, hone, has_const])
  · exact .reject _

/-- An assigned value is there. -/
lemma assignment_keeps (h : ∀ o ∈ args, b.Holds o) : GivesValue env b (assignment kind o args) := by
  refine .bind (values_keeps h) fun b₁ vs _ hvs => ?_
  dsimp only
  have hx : ∀ {x : Value} {vs : List Value}, (∀ v ∈ x :: vs, b₁.Has v) → b₁.Has x :=
    fun h => (List.forall_mem_cons.1 h).1
  have hy : ∀ {x y : Value} {vs : List Value}, (∀ v ∈ x :: y :: vs, b₁.Has v) → b₁.Has y :=
    fun h => hx (List.forall_mem_cons.1 h).2
  have hbinary : ∀ {x y : Value} {vs : List Value} {word : String}, (∀ v ∈ x :: y :: vs, b₁.Has v) →
      GivesValue env b₁ (instr (.binary word x y)) :=
    fun h => instr_keeps (List.forall_mem_cons.2 ⟨hx h, List.forall_mem_singleton.2 (hy h)⟩)
  split
  case h_1 => exact .pure (hx hvs)
  case h_2 | h_3 | h_4 | h_5 | h_6 => exact arithmetic_keeps _ _ _ (hx hvs) (hy hvs)
  case h_7 | h_8 | h_9 => exact hbinary hvs
  case h_10 =>
    refine .ite (instr_keeps (List.forall_mem_singleton.2 (hx hvs))) ?_
    refine .bind (constOf_keeps _) fun b₂ c h₂ _ => instr_keeps (List.forall_mem_cons.2 ?_)
    exact ⟨has_const c, List.forall_mem_singleton.2 (h₂.has (hx hvs))⟩
  case h_11 =>
    refine .bind (constOf_keeps _) fun b₂ c h₂ _ => instr_keeps (List.forall_mem_cons.2 ?_)
    exact ⟨h₂.has (hx hvs), List.forall_mem_singleton.2 (has_const c)⟩
  case h_12 => exact .bind typeOf_keeps fun b₂ t h₂ _ => convert_keeps (h₂.has (hx hvs)) _ t
  case h_13 => exact moveAddress_keeps (hx hvs) (hy hvs)
  case h_14 => exact .bind typeOf_keeps fun b₂ t h₂ _ => splat_keeps (h₂.has (hx hvs)) t
  case h_15 c x y _ =>
    obtain ⟨hc, hrest⟩ := List.forall_mem_cons.1 hvs
    exact instr_keeps (List.forall_mem_cons.2 ⟨hc, List.forall_mem_cons.2
      ⟨hx hrest, List.forall_mem_singleton.2 (hy hrest)⟩⟩)
  case h_16 | h_17 | h_18 | h_19 | h_20 | h_21 => exact compare_keeps (hx hvs) (hy hvs)
  case h_22 => exact .reject _

end Assignments

/-! ### Calls -/

/-- The result of a call is there. -/
lemma callFunction_keeps {f : Function} {args : List Value} (h : ∀ v ∈ args, b.Has v) :
    GivesValue env b (callFunction f args) :=
  instr_keeps h

/-- Registers hold the parts of a value that is there. -/
lemma defineParts_keeps : ∀ {b : Builder} {v : Value} {i : Nat} {os : List Operand}, b.Has v →
    Keeps env b (defineParts v i os) fun b' _ => ∀ o ∈ os, b'.Holds o
  | _, _, _, [], _ => .pure (List.forall_mem_nil _)
  | b, v, i, o :: os, hv => by
    unfold defineParts
    split
    · exact .reject _
    · refine .bind (instr_keeps (List.forall_mem_singleton.2 hv)) fun b₁ w h₁ hw => ?_
      refine .bind (define_keeps hw) fun b₂ _ h₂ ho => ?_
      refine (defineParts_keeps ((h₁.trans h₂).has hv)).with fun b₃ _ h₃ hos => ?_
      exact List.forall_mem_cons.2 ⟨h₃.holds o ho, hos⟩

/-- Registers hold what a call returns. -/
lemma emitCall_keeps {callee : FuncDecl} {ins outs : List Operand} (h : ∀ o ∈ ins, b.Holds o) :
    Keeps env b (emitCall callee ins outs) fun b' _ => ∀ o ∈ outs, b'.Holds o := by
  refine .bind (values_keeps h) fun b₁ args _ hargs => .read ?_
  split
  · exact .bug _
  · refine .bind (callFunction_keeps hargs) fun b₂ v _ hv => ?_
    split
    · exact .pure (List.forall_mem_nil _)
    · exact (define_keeps hv).weaken fun _ _ ho => List.forall_mem_singleton.2 ho
    · exact defineParts_keeps hv

/-- The destination of an instruction is given a value. -/
lemma define_keeps_defines {i : Code.Instr} (hi : i.defines = o.reg?.toList) (hv : b.Has v) :
    Keeps env b (define o v) fun b' _ => ∀ r ∈ i.defines, b'.Holds (.reg r) := by
  refine (define_keeps hv).weaken fun b' _ ho r hr => ?_
  rw [hi, Option.mem_toList] at hr
  cases o <;> cases hr
  exact ho

/-- **Instructions between labels and jumps** may use the registers that are held, and hold what
they assign. -/
theorem emitInstr_keeps {i : Code.Instr} (hs : i.isStraight) (h : ∀ o ∈ i.uses, b.Holds o) :
    Keeps env b (emitInstr i) fun b' _ => ∀ r ∈ i.defines, b'.Holds (.reg r) := by
  cases i with
  | label l => cases hs
  | goto l => cases hs
  | branch c yes no => cases hs
  | params => cases hs
  | results => cases hs
  | assign kind dst args =>
    exact .bind (assignment_keeps h) fun b₁ v _ hv => define_keeps_defines (by cases dst <;> rfl) hv
  | load dst ptr o =>
    refine .bind typeOf_keeps fun b₁ t h₁ _ => ?_
    refine .bind (address_keeps (h₁.holds ptr (h ptr (.head _))) o) fun b₂ p _ hp => ?_
    refine .bind (addressTo_keeps hp t) fun b₃ p _ hp => ?_
    refine .bind (instr_keeps (List.forall_mem_singleton.2 hp)) fun b₄ v _ hv => ?_
    exact define_keeps_defines (by cases dst <;> rfl) hv
  | store ptr o src =>
    obtain ⟨hptr, hsrc⟩ := List.forall_mem_cons.1 h
    refine .bind typeOf_keeps fun b₁ t h₁ _ => ?_
    refine .bind (address_keeps (h₁.holds ptr hptr) o) fun b₂ p h₂ hp => ?_
    refine .bind (addressTo_keeps hp t) fun b₃ p h₃ hp => ?_
    have hsrc := ((h₁.trans h₂).trans h₃).holds src (List.forall_mem_singleton.1 hsrc)
    refine .bind (value_keeps hsrc) fun b₄ v h₄ hv => ?_
    exact (storeTo_keeps hv (h₄.has hp)).weaken fun _ _ _ => List.forall_mem_nil _
  | lea dst ptr o =>
    refine .bind (address_keeps (h ptr (.head _)) o) fun b₁ v _ hv => ?_
    exact define_keeps_defines (by cases dst <;> rfl) hv
  | alloc dst n =>
    refine .bind (value_keeps (h n (.head _))) fun b₁ n _ hn => .read ?_
    refine .bind (callFunction_keeps (List.forall_mem_singleton.2 hn)) fun b₂ v _ hv => ?_
    exact define_keeps_defines (by cases dst <;> rfl) hv
  | memcpy dst src n =>
    refine .bind (values_keeps h) fun b₁ args _ hargs => .read ?_
    exact .bind (callFunction_keeps hargs) fun _ _ _ _ => .pure (List.forall_mem_nil _)
  | call f ins outs =>
    refine (emitCall_keeps h).weaken fun b' _ houts r hr => ?_
    obtain ⟨o, ho, hor⟩ := List.mem_filterMap.1 hr
    cases o <;> cases hor
    exact houts _ ho

end Straight

/-! ## Labels, jumps and results -/

section Jumps

variable {env : EmitEnv} {b : Builder}

/-- A block ends with values that are there. -/
lemma terminate_sounds {t : Terminator} (ht : ∀ v ∈ t.values, b.Has v) :
    Sounds env b (terminate t) := by
  intro _ b' hrun hb
  obtain ⟨-, rfl⟩ := Prod.mk.inj (Except.ok.inj hrun)
  exact hb.terminate ht

/-- A new block has a number. -/
lemma newBlock_keeps (name : String) :
    Keeps env b (newBlock name) fun b' n => n < b'.function.blocks.size := by
  intro n b' hrun hb
  obtain ⟨rfl, rfl⟩ := Prod.mk.inj (Except.ok.inj hrun)
  obtain ⟨hsound, hcont⟩ := hb.pushBlock name
  exact ⟨hsound, hcont, by simp⟩

/-- The block of a label is there from the first use of the label. -/
lemma blockOf_keeps (l : Label) :
    Keeps env b (blockOf l) fun b' n => n < b'.function.blocks.size := by
  intro n b' hrun hb
  obtain ⟨b₁, b₂, hget, hrun⟩ := of_run_bind hrun
  obtain ⟨rfl, rfl⟩ := Prod.mk.inj (Except.ok.inj hget)
  split at hrun
  · rename_i m hm
    obtain ⟨rfl, rfl⟩ := Prod.mk.inj (Except.ok.inj hrun)
    obtain ⟨_, _, hsplit, -⟩ := List.lookup_eq_some_iff.1 hm
    exact ⟨hb, .refl _, hb.labels (l.id, m) (by simp [hsplit])⟩
  · obtain ⟨m, b₃, hnew, hrun⟩ := of_run_bind hrun
    obtain ⟨hb', hcont, hm⟩ := newBlock_keeps _ m b₃ hnew hb
    obtain ⟨rfl, rfl⟩ := Prod.mk.inj (Except.ok.inj hrun)
    refine ⟨⟨hb'.function, hb'.current, List.forall_mem_cons.2 ⟨hm, hb'.labels⟩⟩, ?_, hm⟩
    exact hcont.trans (.of_regs_eq (List.Subset.refl _) rfl rfl)

/-- Another block becomes the current one. -/
lemma setBlock_sounds {n : Nat} (hn : n < b.function.blocks.size) : Sounds env b (setBlock n) := by
  intro _ b' hrun hb
  obtain ⟨-, rfl⟩ := Prod.mk.inj (Except.ok.inj hrun)
  exact ⟨hb.function, hn, hb.labels⟩

/-- The builder is looked at. -/
lemma Sounds.get {α : Type} {g : Builder → Emit α} (h : Sounds env b (g b)) :
    Sounds env b (get >>= g) := h

/-- The environment is looked at. -/
lemma Sounds.read {α : Type} {g : EmitEnv → Emit α} (h : Sounds env b (g env)) :
    Sounds env b (read >>= g) := h

/-- Whether the block has ended is looked at. -/
lemma Sounds.isEnded {α : Type} {g : Bool → Emit α} (h : Sounds env b (g b.isEnded)) :
    Sounds env b (isEnded >>= g) := h

/-- A label is entered in sound code. -/
lemma enter_sounds (l : Label) : Sounds env b (enter l) := by
  refine (blockOf_keeps l).sounds_bind fun b₁ n _ hn => .isEnded ?_
  have hset : Sounds env b₁ (setBlock n) := setBlock_sounds hn
  split
  · intro _ b' hrun hb
    obtain ⟨_, b₂, hend, hrun⟩ := of_run_bind hrun
    have hb₂ := terminate_sounds (List.forall_mem_nil _) _ _ hend hb
    obtain ⟨-, rfl⟩ := Prod.mk.inj (Except.ok.inj hend)
    exact setBlock_sounds (by simpa [Builder.modifyBlock] using hn) _ _ hrun hb₂
  · exact hset

/-- Results are collected in a value that is there. -/
lemma collect_keeps : ∀ {b : Builder} {v : Value} {i : Nat} {os : List Operand}, b.Has v →
    (∀ o ∈ os, b.Holds o) → GivesValue env b (collect v i os)
  | _, _, _, [], hv, _ => .pure hv
  | b, v, i, o :: os, hv, h => by
    obtain ⟨ho, hos⟩ := List.forall_mem_cons.1 h
    refine .bind (value_keeps ho) fun b₁ w h₁ hw => ?_
    dsimp only
    split
    · exact .reject _
    · refine Keeps.guard (.bind (instr_keeps ?_) fun b₂ v h₂ hv => ?_)
      · exact List.forall_mem_cons.2 ⟨h₁.has hv, List.forall_mem_singleton.2 hw⟩
      · exact collect_keeps hv fun o ho => (h₁.trans h₂).holds o (hos o ho)

/-- The results are handed back, which are in no registers of other blocks. -/
lemma emitResults_sounds {os : List Operand} (h : ∀ o ∈ os, b.Holds o) :
    Sounds env b (emitResults os) := by
  unfold emitResults
  split
  · exact terminate_sounds (List.forall_mem_nil _)
  · refine (value_keeps (h _ (.head _))).sounds_bind fun b₁ v _ hv => ?_
    exact terminate_sounds (List.forall_mem_singleton.2 hv)
  · refine .get ((collect_keeps (has_const _) h).sounds_bind fun b₁ v _ hv => ?_)
    exact terminate_sounds (List.forall_mem_singleton.2 hv)

/-- Code after a jump goes to a block of its own. -/
lemma Sounds.openBlock {α : Type} {f : Unit → Emit α}
    (h : ∀ b', b'.isEnded = false → Sounds env b' (f ())) :
    Sounds env b (do let n ← newBlock ""; setBlock n >>= f) := by
  intro a b' hrun hb
  obtain ⟨n, b₁, hnew, hrun⟩ := of_run_bind hrun
  obtain ⟨_, b₂, hset, hrun⟩ := of_run_bind hrun
  obtain ⟨hb₁, -, hn⟩ := newBlock_keeps _ n b₁ hnew hb
  have hb₂ := setBlock_sounds hn _ b₂ hset hb₁
  obtain ⟨rfl, rfl⟩ := Prod.mk.inj (Except.ok.inj hnew)
  obtain ⟨-, rfl⟩ := Prod.mk.inj (Except.ok.inj hset)
  refine h _ ?_ a b' hrun hb₂
  simp [Builder.isEnded, Builder.block?]

/-- One emission after the other ends in sound code. -/
lemma Sounds.bind {α β : Type} {m : Emit α} {f : α → Emit β} (hm : Sounds env b m)
    (hf : ∀ b' a, Sounds env b' (f a)) : Sounds env b (m >>= f) := by
  intro c b'' hrun hb
  obtain ⟨a, b', hrun, hrun'⟩ := of_run_bind hrun
  exact hf b' a c b'' hrun' (hm a b' hrun hb)

/-- Jumps use registers of their block. -/
lemma emitInstr_sounds {i : Code.Instr} (h : ∀ o ∈ i.uses, b.Holds o) :
    Sounds env b (emitInstr i) := by
  cases hs : i.isStraight with
  | true => exact (emitInstr_keeps hs h).sounds
  | false =>
    cases i with
    | goto l =>
      exact (blockOf_keeps l).sounds_bind fun b₁ n _ _ => terminate_sounds (List.forall_mem_nil _)
    | branch c yes no =>
      refine (value_keeps (h c (.head _))).sounds_bind fun b₁ v _ hv => ?_
      refine (blockOf_keeps yes).sounds_bind fun b₂ y h₂ _ => ?_
      refine (blockOf_keeps no).sounds_bind fun b₃ n h₃ _ => ?_
      exact terminate_sounds (List.forall_mem_singleton.2 ((h₂.trans h₃).has hv))
    | label l => exact fun _ _ hrun _ => by cases hrun
    | params => exact fun _ _ hrun _ => by cases hrun
    | results => exact fun _ _ hrun _ => by cases hrun
    | _ => cases hs

/-- **Confined code** keeps builders sound. What is live is held, and is nothing once the block has
an end. -/
theorem emitBody_sounds (hres : ∀ r, .reg r ∉ env.code.results) :
    ∀ {is : List Code.Instr} {L : List Reg} {b : Builder}, Confined L is →
      (∀ r ∈ L, b.Holds (.reg r)) → (b.isEnded = true → L = []) → Sounds env b (emitBody is)
  | [], _, _, _, _, _ => Keeps.sounds (R := fun _ _ => True) (.pure trivial)
  | i :: is, L, b, hc, hL, hend => by
    have hbarrier : ∀ b', Confined [] is → Sounds env b' (emitBody is) := fun b' h =>
      emitBody_sounds hres h (List.forall_mem_nil _) fun _ => rfl
    have hstep : ∀ b', b'.isEnded = false → (∀ r ∈ L, b'.Holds (.reg r)) →
        Sounds env b' (emitInstr i >>= fun _ => emitBody is) := by
      intro b' hend hL
      have huses : ∀ o ∈ i.uses, b'.Holds o := fun o ho r v hr =>
        hL r (hc.1 r (hr ▸ ho)) r v rfl
      have hafter := hc.2
      cases hs : i.isStraight with
      | true =>
        rw [Code.Instr.after_of_isStraight L hs] at hafter
        refine (emitInstr_keeps hs huses).sounds_bind fun b₁ _ h₁ hdef => ?_
        refine emitBody_sounds hres hafter (fun r hr => ?_) fun h => ?_
        · exact (List.mem_append.1 hr).elim (hdef r) fun hr => h₁.holds _ (hL r hr)
        · rw [h₁.isEnded, hend] at h
          cases h
      | false =>
        rw [Code.Instr.after, if_neg (Bool.eq_false_iff.1 hs)] at hafter
        exact .bind (emitInstr_sounds huses) fun b₁ _ => hbarrier b₁ hafter
    unfold emitBody
    dsimp only
    split
    · exact .bind (enter_sounds _) fun b' _ => hbarrier b' hc.2
    · refine .read (.bind (emitResults_sounds fun o ho => ?_) fun b' _ => hbarrier b' hc.2)
      exact Builder.holds_of_ne_reg fun r hr => hres r (hr ▸ ho)
    · refine .isEnded ?_
      split
      · rename_i h
        refine .openBlock fun b' hb' => hstep b' hb' ?_
        rw [hend h]
        exact List.forall_mem_nil _
      · rename_i h
        exact hstep b (Bool.eq_false_iff.2 h) hL

end Jumps

/-! ## Functions and modules -/

section Functions

variable {env : EmitEnv} {b : Builder}

/-- Parameters are bound in sound code. -/
lemma bindParams_keeps (ps : List Param) : ∀ {b : Builder} {i : Nat} {os : List Operand},
    Keeps env b (bindParams ps i os) fun _ _ => True
  | _, _, [] => .pure trivial
  | b, i, o :: os => by
    unfold bindParams
    split
    · exact .reject _
    · rename_i p _
      refine .bind (define_keeps ?_) fun _ _ _ _ => bindParams_keeps ps
      exact Builder.has_of_ne_result (nofun : ∀ key t, Value.param i p.type ≠ .result key t)

/-- Each element of a list keeps code sound. -/
lemma Keeps.forM {α : Type} {f : α → Emit Unit} (hf : ∀ b a, Keeps env b (f a) fun _ _ => True) :
    ∀ {b : Builder} {as : List α}, Keeps env b (as.forM f) fun _ _ => True
  | _, [] => .pure trivial
  | b, a :: _ => .bind (hf b a) fun _ _ _ _ => Keeps.forM hf

/-- Variables are allocated in sound code. -/
lemma allocateVars_keeps (vs : List Code.Var) :
    Keeps env b (allocateVars vs) fun _ _ => True :=
  .forM fun _ _ => .bind (instr_keeps (List.forall_mem_nil _)) fun _ _ _ _ => .pure trivial

/-- Slots are allocated in sound code. -/
lemma allocateSlots_keeps (ss : List Code.Slot) :
    Keeps env b (allocateSlots ss) fun _ _ => True :=
  .forM fun _ _ => .bind (instr_keeps (List.forall_mem_nil _)) fun _ _ _ _ => .pure trivial

/-- The code after the parameters of a well-formed function is confined. -/
lemma confined_dropWhile {f : Code.Function} (h : f.WellFormed) :
    Confined [] ((f.body.dropWhile fun i => !i.isParams).drop 1) := by
  cases hbody : f.body.dropWhile fun i => !i.isParams with
  | nil => exact trivial
  | cons i is =>
    have hi : i.isParams = true := by
      have hne : (f.body.dropWhile fun i => !i.isParams) ≠ [] := by simp [hbody]
      simpa [hbody] using List.head_dropWhile_not _ hne
    have hc : Confined [] (f.body.takeWhile (fun i => !i.isParams) ++ i :: is) := by
      rw [← hbody, List.takeWhile_append_dropWhile]
      exact h.confined_body
    have hafter := (confined_append.1 hc).2.2
    cases i <;> cases hi
    exact hafter

/-- **A well-formed function** is emitted into a sound one. -/
theorem isSound_of_emitFunction {f : Code.Function} (h : f.WellFormed) (he : env.code = f)
    (hb : b.function.IsSound) {u : Unit} {b' : Builder}
    (hrun : ((emitFunction f).run env).run b = .ok (u, b')) : b'.function.IsSound := by
  obtain ⟨n, b₁, hnew, hrun⟩ := of_run_bind hrun
  obtain ⟨rfl, rfl⟩ := Prod.mk.inj (Except.ok.inj hnew)
  obtain ⟨_, b₂, hset, hrun⟩ := of_run_bind hrun
  obtain ⟨-, rfl⟩ := Prod.mk.inj (Except.ok.inj hset)
  obtain ⟨_, b₃, hlabels, hrun⟩ := of_run_bind hrun
  obtain ⟨-, rfl⟩ := Prod.mk.inj (Except.ok.inj hlabels)
  have hrest : ∀ b, Sounds env b (do
      allocateVars f.vars
      allocateSlots f.slots
      bindParams (← get).function.params 0 f.params
      emitBody ((f.body.dropWhile fun i => !i.isParams).drop 1)) := by
    intro b
    refine (allocateVars_keeps _).sounds_bind fun _ _ _ _ => ?_
    refine (allocateSlots_keeps _).sounds_bind fun _ _ _ _ => .get ?_
    refine (bindParams_keeps _).sounds_bind fun b' _ _ _ => ?_
    refine emitBody_sounds (fun r hr => ?_) (confined_dropWhile h) (List.forall_mem_nil _) fun _ =>
      rfl
    exact h.bound r (List.mem_append_right _ (he ▸ hr))
  refine (hrest _ u b' hrun ⟨hb.push "entry", by simp, ?_⟩).function
  exact List.forall_mem_singleton.2 (by simp)

/-- The functions of well-formed code are sound, if those of the same names were. -/
lemma isSound_of_emitFunctions {malloc memcpy : Function} {declared : List (String × Function)} :
    ∀ {fs : List Code.Function} {gs gs' : List Function}, (∀ f ∈ fs, f.WellFormed) →
      (∀ g ∈ gs, g.IsSound) → emitFunctions malloc memcpy declared fs gs = .ok gs' →
      ∀ g ∈ gs', g.IsSound
  | [], gs, gs', _, hgs, hrun => by
    obtain rfl := Except.ok.inj hrun
    exact hgs
  | f :: fs, gs, gs', hfs, hgs, hrun => by
    obtain ⟨hf, hfs⟩ := List.forall_mem_cons.1 hfs
    unfold emitFunctions at hrun
    split at hrun
    · cases hrun
    · rename_i g hg
      dsimp only at hrun
      cases hemit : ((emitFunction f).run ⟨declared, malloc, memcpy, f⟩).run ⟨g, 0, [], []⟩ with
      | error x =>
        rw [hemit] at hrun
        cases hrun
      | ok q =>
        rw [hemit] at hrun
        refine isSound_of_emitFunctions hfs (fun g' hg' => ?_) hrun
        obtain ⟨k, hk, rfl⟩ := List.mem_map.1 hg'
        split
        · exact isSound_of_emitFunction hf rfl (hgs g (List.mem_of_find?_eq_some hg)) hemit
        · exact hgs k hk

/-- Functions without blocks are sound. -/
lemma isSound_of_blocks_eq {f : Function} (h : f.blocks = #[]) : f.IsSound := by
  refine ⟨⟨?_, ?_, ?_⟩, ?_⟩ <;> simp [h]

end Functions

end Lane.Llvm

namespace Lane.Code.Module

open Lane.Llvm

/-- **The LLVM functions of well-formed code** use results in their blocks only. -/
theorem isClosed_of_toLlvm {m : Module} {llvm : Llvm.Module} (h : ∀ f ∈ m.functions, f.WellFormed)
    (hrun : m.toLlvm = .ok llvm) : ∀ f ∈ llvm.functions, f.IsClosed := by
  have hruntime : ∀ {fs : List Llvm.Function} {f : Llvm.Function}, f.blocks = #[] →
      (∀ g ∈ fs, g.IsSound) → ∀ g ∈ (withRuntime fs f).2, g.IsSound := by
    intro fs f hf hfs
    unfold withRuntime
    split
    · exact hfs
    · exact List.forall_mem_append.2 ⟨hfs, List.forall_mem_singleton.2 (isSound_of_blocks_eq hf)⟩
  have hdecls : ∀ g ∈ m.registry.decls.map declared, g.IsSound := fun g hg => by
    obtain ⟨d, -, rfl⟩ := List.mem_map.1 hg
    exact isSound_of_blocks_eq rfl
  unfold toLlvm at hrun
  cases hemit : emitFunctions (withRuntime (m.registry.decls.map declared) mallocDecl).1
      (withRuntime (withRuntime (m.registry.decls.map declared) mallocDecl).2 memcpyDecl).1
      (m.registry.decls.map fun d => (d.id, declared d)) m.functions
      (withRuntime (withRuntime (m.registry.decls.map declared) mallocDecl).2 memcpyDecl).2 with
  | error x =>
    dsimp only at hrun
    rw [hemit] at hrun
    cases hrun
  | ok fs =>
    dsimp only at hrun
    rw [hemit] at hrun
    obtain rfl := Except.ok.inj hrun
    exact fun f hf => (isSound_of_emitFunctions h (hruntime rfl (hruntime rfl hdecls)) hemit f
      hf).toIsClosed

/-- **Well-formed registers and labels** of all functions, and of their LLVM if there is any. -/
structure WellFormed (m : Module) : Prop where
  functions : ∀ f ∈ m.functions, f.WellFormed
  llvm : ∀ llvm, m.toLlvm = .ok llvm → ∀ f ∈ llvm.functions, f.IsClosed

end Lane.Code.Module

namespace Lane.Accepted

open Lane.Lowering Lane.Packing

variable {e : Elaborated} {p : LoweredProgram} {file name : String} {text : List Rune} {width : Int}
  {ds : Diagnostics}

/-- **The code of an accepted program, and its packed code**, have well-formed registers and labels:
a register is assigned once and used in the block that assigns it, a label is inserted once, and
jumps lead to labels. Therefore the LLVM of both uses results in the blocks that make them. -/
theorem modules_wellFormed (h : Accepted file text e) (hp : (e.lower name width ds).2 = .ok p) :
    p.module.WellFormed ∧ ∀ ds' q, (p.pack e ds').2 = .ok q → q.module.WellFormed := by
  have hof : ∀ {m : Code.Module}, (∀ f ∈ m.functions, f.WellFormed) → m.WellFormed :=
    fun hm => ⟨hm, fun _ => Code.Module.isClosed_of_toLlvm hm⟩
  exact ⟨hof (h.lowered_wellFormed hp), fun ds' q hq => hof (h.packed_wellFormed hp hq)⟩

/-- A `simd` function with a branch. -/
def branches : String :=
  "simd class P { var x: real; simd writer w(b: bool) { if b { self.x = self.x + self.x; } } }"

/-- Well-formed packed code of a branch, with LLVM of more than one block. -/
theorem modules_wellFormed_branch : ∃ e p q, vectorize? branches = some (e, p, q) ∧
    (∃ llvm, q.module.toLlvm = .ok llvm ∧ ∃ f ∈ llvm.functions, 1 < f.blocks.size) ∧
    p.module.WellFormed ∧ q.module.WellFormed := by
  have hrun : (vectorize? branches).any fun (_, _, q) =>
      q.module.toLlvm.toOption.any fun llvm =>
        llvm.functions.any fun f => decide (1 < f.blocks.size) := by
    rw [vectorize?, compile?, branches, Rune.ascii_ofList]
    decide +kernel
  obtain ⟨⟨e, p, q⟩, hv, hrun⟩ := (Option.any_eq_true ..).1 hrun
  obtain ⟨llvm, hllvm, hblocks⟩ := (Option.any_eq_true ..).1 hrun
  obtain ⟨f, hf, hsize⟩ := List.any_eq_true.1 hblocks
  obtain ⟨hacc, hp, hq⟩ := of_vectorize? hv
  obtain ⟨hwell, hwell'⟩ := hacc.modules_wellFormed hp
  refine ⟨e, p, q, hv, ⟨llvm, ?_, f, hf, of_decide_eq_true hsize⟩, hwell, hwell' {} q hq⟩
  cases hm : q.module.toLlvm with
  | error x => simp [hm, Except.toOption] at hllvm
  | ok m => simpa [hm, Except.toOption] using hllvm

end Lane.Accepted
