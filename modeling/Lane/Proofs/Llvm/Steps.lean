import Lane.Proofs.Code.Stretches
import Lane.Proofs.Llvm.Pieces
import Mathlib.Data.List.Perm.Basic

set_option relaxedAutoImplicit false
set_option autoImplicit false

/-!
# Blocks, instruction by instruction

A label has a block from the first jump to it, or from where it stands. An instruction adds to the
current block, a jump ends it, and a label goes on with its own block, to which nothing was added
yet.

## Main definitions

* `Lane.Llvm.emitEnding`, `Lane.Llvm.emitStretch`: what a stretch of code adds to a block.
* `Lane.Llvm.Builder.supply`: the blocks that are still to be filled.
* `Lane.Llvm.Builder.Awaits`: builders that are ready for code.
* `Lane.Llvm.emitStep`: what emission does for one instruction.

## Main results

* `Lane.Llvm.step_cases`: what one instruction does.
* `Lane.Llvm.Builder.Awaits.step`: one instruction leaves a builder that is ready for the others.
-/

namespace Lane.Llvm

open Lane.Code (Operand Label Ending Stretch cut Precedes)

/-! ## What a stretch adds -/

/-- The value that is handed back, if there is any. -/
def resultsValue : List Operand → Emit (Option Value)
  | [] => return none
  | [o] => return some (← value o)
  | os => return some (← collect (.const (.undef (← get).function.result)) 0 os)

/-- How a block ends, labels standing for the blocks at these places. -/
def emitEnding (results : List Operand) (place : Label → Nat) : Ending → Emit Terminator
  | .goto l | .fall l => return .jump (place l)
  | .branch c yes no => return .branch (← value c) (place yes) (place no)
  | .results => return .ret (← resultsValue results)

/-- The instructions of a stretch, and how it ends. -/
def emitStretch (results : List Operand) (place : Label → Nat) (s : Stretch) :
    Emit (Option Terminator) := do
  s.code.forM emitInstr
  match s.ending with
  | none => return none
  | some e => return some (← emitEnding results place e)

section Straight

variable {env : EmitEnv}

/-- The value of the results is made by straight emission. -/
lemma isStraight_resultsValue (os : List Operand) : IsStraight env (resultsValue os) := by
  unfold resultsValue
  split
  · exact .pure
  · exact .bind (isStraight_value _) fun _ => .pure
  · refine .get (fun b => .bind (isStraight_collect _ _ _) fun _ => .pure) fun b b' h => ?_
    rw [show b.function.result = b'.function.result from congrArg View.result h]

/-- An ending is made by straight emission. -/
lemma isStraight_emitEnding (results : List Operand) (place : Label → Nat) (e : Ending) :
    IsStraight env (emitEnding results place e) := by
  cases e with
  | goto l => exact .pure
  | branch c yes no => exact .bind (isStraight_value c) fun _ => .pure
  | results => exact .bind (isStraight_resultsValue _) fun _ => .pure
  | fall l => exact .pure

/-- What ends no stretch jumps nowhere. -/
lemma targets_of_ending?_eq_none {i : Code.Instr} (h : i.ending? = none) : i.targets = [] := by
  cases i <;> first | rfl | cases h

/-- A stretch is made by straight emission. -/
lemma isStraight_emitStretch (results : List Operand) (place : Label → Nat) {s : Stretch}
    (h : ∀ i ∈ s.code, i.ending? = none) : IsStraight env (emitStretch results place s) := by
  refine .bind (.forM fun i hi => isStraight_emitInstr (targets_of_ending?_eq_none (h i hi)))
    fun _ => ?_
  split
  · exact .pure
  · exact .bind (isStraight_emitEnding _ _ _) fun _ => .pure

end Straight

/-! ## Builders -/

namespace Builder

/-- The number of blocks. -/
abbrev count (b : Builder) : Nat := b.function.blocks.size

/-- The block with a number. -/
abbrev at? (b : Builder) (n : Nat) : Option Block := b.function.blocks[n]?

/-- The number of the block of a label. -/
def place (b : Builder) (l : Label) : Nat := (b.labels.lookup l.id).getD 0

/-- A builder that has a block for a label. -/
def need (b : Builder) (l : Label) : Builder :=
  match b.labels.lookup l.id with
  | some _ => b
  | none => { b.pushBlock l.ref with labels := (l.id, b.count) :: b.labels }

/-- A builder whose current block has an end. -/
def ended (b : Builder) (t : Terminator) : Builder :=
  b.modifyBlock fun k => { k with terminator := some t }

/-- A builder whose current block has no end, which is a new one if the last one had an end. -/
def opened (b : Builder) : Builder :=
  if b.isEnded then { b.pushBlock "" with current := b.count } else b

/-- A builder that goes on with the block of a label. -/
def entered (b : Builder) (l : Label) : Builder :=
  let b' := b.need l
  { (if b'.isEnded then b' else b'.ended (.jump (b'.place l))) with current := b'.place l }

end Builder

/-! ### Runs -/

section Runs

variable {env : EmitEnv} {b : Builder}

/-- The block of a label is there, or it is made. -/
lemma run_blockOf (l : Label) :
    ((blockOf l).run env).run b = .ok ((b.need l).place l, b.need l) := by
  cases h : b.labels.lookup l.id with
  | none =>
    have hplace : (b.need l).place l = b.count := by simp [Builder.place, Builder.need, h]
    rw [hplace, Builder.need, h]
    unfold blockOf
    rw [run_bind_of_ok (show ((get : Emit Builder).run env).run b = .ok (b, b) from rfl), h]
    rfl
  | some n =>
    have hplace : (b.need l).place l = n := by simp [Builder.place, Builder.need, h]
    rw [hplace, Builder.need, h]
    unfold blockOf
    rw [run_bind_of_ok (show ((get : Emit Builder).run env).run b = .ok (b, b) from rfl), h]
    rfl

/-- Whether the block has ended is read off the builder. -/
lemma run_isEnded : ((isEnded).run env).run b = .ok (b.isEnded, b) := rfl

/-- A label is entered. -/
lemma run_enter (l : Label) : ((enter l).run env).run b = .ok ((), b.entered l) := by
  unfold enter
  rw [run_bind_of_ok (run_blockOf l), run_bind_of_ok run_isEnded, Builder.entered]
  cases (b.need l).isEnded <;> rfl

/-- The part of `emitBody` for one instruction. -/
def emitStep (i : Code.Instr) : Emit Unit := do
  match i with
  | .label l => enter l
  | .results => emitResults (← read).code.results
  | i =>
    if ← isEnded then setBlock (← newBlock "")
    emitInstr i

/-- A body is emitted step by step. -/
lemma emitBody_cons (i : Code.Instr) (is : List Code.Instr) :
    emitBody (i :: is) = emitStep i >>= fun _ => emitBody is := by
  cases i
  case label | results => simp [emitBody, emitStep]
  all_goals
    simp only [emitBody, emitStep, bind_assoc]
    refine bind_congr fun e => ?_
    cases e <;> simp

/-- Instructions other than labels and the results open a block if there is none. -/
lemma run_emitStep {i : Code.Instr} (hl : i.isLabel = false) (hr : i.isResults = false) :
    ((emitStep i).run env).run b = ((emitInstr i).run env).run b.opened := by
  have hstep : emitStep i = (do
      if (← isEnded) then setBlock (← newBlock "")
      emitInstr i) := by
    cases i
    case label => cases hl
    case results => cases hr
    all_goals rfl
  rw [hstep, run_bind_of_ok run_isEnded, Builder.opened]
  cases b.isEnded <;> rfl

/-- Results end the block with their value. -/
lemma run_emitResults (os : List Operand) : ((emitResults os).run env).run b =
    (((resultsValue os).run env).run b).map fun q => ((), q.2.ended (.ret q.1)) := by
  have hmap : ∀ {m : Emit Value}, ((do terminate (.ret (some (← m)))).run env).run b =
      (((do return some (← m)).run env).run b).map
        fun q : Option Value × Builder => ((), q.2.ended (.ret q.1)) := by
    intro m
    cases h : (m.run env).run b with
    | error x => rw [run_bind_of_error h, run_bind_of_error h]; rfl
    | ok q => rw [run_bind_of_ok h, run_bind_of_ok h]; rfl
  match os with
  | [] => rfl
  | [o] => exact hmap
  | o :: o' :: os =>
    have hget : ((get : Emit Builder).run env).run b = .ok (b, b) := rfl
    rw [emitResults, resultsValue, run_bind_of_ok hget, run_bind_of_ok hget]
    · exact hmap
    all_goals simp

end Runs

/-! ### What happens to blocks -/

namespace Builder

variable {b b' b'' : Builder} {l : Label} {ids : List Nat} {n : Nat}

/-- The numbers of the blocks that are still to be filled, of `N` blocks in all: those of labels
with these numbers, and those that are not there yet. -/
def supply (b : Builder) (ids : List Nat) (N : Nat) : List Nat :=
  (b.labels.filter fun p => decide (p.1 ∈ ids)).map Prod.snd ++ List.range' b.count (N - b.count)

/-- Builders with the same blocks and labels supply the same numbers. -/
lemma supply_congr (hc : b'.count = b.count) (hl : b'.labels = b.labels)
    (ids : List Nat) (N : Nat) : b'.supply ids N = b.supply ids N := by rw [supply, supply, hl, hc]

/-- **Growing builders**: labels keep their blocks, and no block is lost or filled out of turn. -/
structure Grows (b b' : Builder) (ids : List Nat) : Prop where
  lookup : ∀ id n, b.labels.lookup id = some n → b'.labels.lookup id = some n
  count_le : b.count ≤ b'.count
  supply : ∀ N, b'.count ≤ N → (b'.supply ids N).Perm (b.supply ids N)

/-- A builder grows into itself. -/
lemma Grows.refl (b : Builder) (ids : List Nat) : b.Grows b ids :=
  ⟨fun _ _ => id, Nat.le_refl _, fun _ _ => .refl _⟩

/-- What grows in two steps grows. -/
lemma Grows.trans (h : b.Grows b' ids) (h' : b'.Grows b'' ids) : b.Grows b'' ids :=
  ⟨fun id n hn => h'.lookup id n (h.lookup id n hn), Nat.le_trans h.count_le h'.count_le,
    fun N hN => (h'.supply N hN).trans (h.supply N (Nat.le_trans h'.count_le hN))⟩

/-- Instructions make no blocks. -/
@[simp] lemma count_add (ops : List Op) (regs : List (Nat × Value)) :
    (b.add ops regs).count = b.count := by
  simp [count, add]

/-- Endings make no blocks. -/
@[simp] lemma count_ended (t : Terminator) : (b.ended t).count = b.count := by
  simp [count, ended, modifyBlock]

/-- Instructions are added to the current block. -/
lemma at?_add (ops : List Op) (regs : List (Nat × Value)) (n : Nat) : (b.add ops regs).at? n =
    if b.current = n then (b.at? n).map fun k =>
      { k with instrs := k.instrs ++ (numbered b.function.made ops).toArray } else b.at? n :=
  Array.getElem?_modify

/-- An ending is put at the end of the current block. -/
lemma at?_ended (t : Terminator) (n : Nat) : (b.ended t).at? n =
    if b.current = n then (b.at? n).map fun k => { k with terminator := some t } else b.at? n :=
  Array.getElem?_modify

/-- A new block is the last one. -/
lemma at?_pushBlock (name : String) (n : Nat) : (b.pushBlock name).at? n =
    if n = b.count then some { name } else b.at? n := Array.getElem?_push

/-- The current block, after instructions were added. -/
lemma block?_add {k : Block} (hk : b.block? = some k) (ops : List Op) (regs : List (Nat × Value)) :
    (b.add ops regs).block? =
      some { k with instrs := k.instrs ++ (numbered b.function.made ops).toArray } := by
  have h := b.at?_add ops regs b.current
  rwa [if_pos rfl, show b.at? b.current = some k from hk] at h

/-- The current block, after its ending was added. -/
lemma block?_ended {k : Block} (hk : b.block? = some k) (t : Terminator) :
    (b.ended t).block? = some { k with terminator := some t } := by
  have h := b.at?_ended t b.current
  rwa [if_pos rfl, show b.at? b.current = some k from hk] at h

/-- A block has not ended by its instructions. -/
lemma isEnded_add (ops : List Op) (regs : List (Nat × Value)) :
    (b.add ops regs).isEnded = b.isEnded := by
  have h := b.at?_add ops regs b.current
  rw [if_pos rfl] at h
  unfold isEnded
  rw [show (b.add ops regs).block? = _ from h]
  cases hk : b.block? <;> simp [show b.at? b.current = _ from hk]

/-- A block ends with its ending. -/
lemma isEnded_ended (h : b.current < b.count) (t : Terminator) : (b.ended t).isEnded = true := by
  unfold isEnded
  rw [block?_ended (Array.getElem?_eq_getElem h) t]
  rfl

/-! #### Blocks of labels -/

/-- A block that is there is not made again. -/
lemma need_of_some (h : b.labels.lookup l.id = some n) : b.need l = b := by rw [need, h]

/-- A block that is not there is made. -/
lemma need_of_none (h : b.labels.lookup l.id = none) :
    b.need l = { b.pushBlock l.ref with labels := (l.id, b.count) :: b.labels } := by rw [need, h]

/-- The need of a block does not change the current one. -/
@[simp] lemma current_need : (b.need l).current = b.current := by
  unfold need
  split <;> rfl

/-- The need of a block shows nowhere else. -/
@[simp] lemma view_need : (b.need l).view = b.view := by
  unfold need
  split <;> rfl

/-- A label that is needed has a block. -/
lemma lookup_need : (b.need l).labels.lookup l.id = some ((b.need l).place l) := by
  cases h : b.labels.lookup l.id with
  | none => simp [need_of_none h, place]
  | some n => simp [need_of_some h, place, h]

/-- The blocks that are there stay as they are. -/
lemma at?_need (h : n < b.count) : (b.need l).at? n = b.at? n := by
  cases hl : b.labels.lookup l.id with
  | none =>
    rw [need_of_none hl]
    exact (at?_pushBlock _ _).trans (if_neg (Nat.ne_of_lt h))
  | some m => rw [need_of_some hl]

/-- The place of a label that has a block. -/
lemma place_eq_of_lookup (h : b.labels.lookup l.id = some n) : b.place l = n := by
  rw [place, h, Option.getD_some]

/-- The place of a label stays. -/
lemma Grows.place_eq (h : b.Grows b' ids) (hl : b.labels.lookup l.id = some (b.place l)) :
    b'.place l = b.place l := place_eq_of_lookup (h.lookup _ _ hl)

/-- A label of these, or one that has a block. -/
def Knows (b : Builder) (ids : List Nat) (l : Label) : Prop :=
  l.id ∈ ids ∨ ∃ n, b.labels.lookup l.id = some n

/-- Blocks that labels have stay theirs. -/
lemma lookup_need_of_some {id : Nat} (hn : b.labels.lookup id = some n) :
    (b.need l).labels.lookup id = some n := by
  cases h : b.labels.lookup l.id with
  | some m => rwa [need_of_some h]
  | none =>
    rw [need_of_none h, List.lookup_cons]
    split
    · rename_i heq
      rw [beq_iff_eq.1 heq, h] at hn
      cases hn
    · exact hn

/-- **A block for a label** is taken from those that are not there yet. -/
lemma grows_need (hl : b.Knows ids l) : b.Grows (b.need l) ids := by
  cases h : b.labels.lookup l.id with
  | some n =>
    rw [need_of_some h]
    exact .refl b ids
  | none =>
    have hid : l.id ∈ ids := hl.resolve_right fun ⟨n, hn⟩ => by simp [h] at hn
    have hcount : (b.need l).count = b.count + 1 := by simp [count, need_of_none h, pushBlock]
    have hlabels : (b.need l).labels = (l.id, b.count) :: b.labels := by rw [need_of_none h]
    refine ⟨fun id n hn => lookup_need_of_some hn, by omega, fun N hN => ?_⟩
    have hlen : N - b.count = N - (b.count + 1) + 1 := by omega
    rw [Builder.supply, hcount, hlabels, List.filter_cons_of_pos (by exact decide_eq_true hid),
      Builder.supply, hlen, List.range'_succ]
    exact List.perm_middle.symm

/-! #### Builders that are ready for code -/

/-- The numbers of the labels in code. -/
abbrev idsOf (is : List Code.Instr) : List Nat := (is.filterMap Code.Instr.label?).map Label.id

/-- **Ready builders**: jumps in the code lead to labels of it, or to labels that have blocks, and
nothing was added yet to the blocks of its labels. The results are handed back behind a label. -/
structure Awaits (b : Builder) (is : List Code.Instr) : Prop where
  current : b.current < b.count
  keys_nodup : (b.labels.map Prod.fst).Nodup
  numbers_nodup : (b.labels.map Prod.snd).Nodup
  lt : ∀ p ∈ b.labels, p.2 < b.count
  ids_nodup : (idsOf is).Nodup
  targets : ∀ i ∈ is, ∀ t ∈ i.targets,
    t ∈ is.filterMap Code.Instr.label? ∨ ∃ n, b.labels.lookup t.id = some n
  blank : ∀ l ∈ is.filterMap Code.Instr.label?, ∀ n, b.labels.lookup l.id = some n →
    b.at? n = some { name := l.ref } ∧ n ≠ b.current
  chain : is.IsChain fun i j => j.isResults → i.isLabel
  head : b.isEnded → ∀ i ∈ is.head?, i.isResults = false

section Awaits

variable {i : Code.Instr} {is : List Code.Instr}

/-- A label that is found is in the list. -/
lemma mem_of_lookup {id : Nat} (h : b.labels.lookup id = some n) : (id, n) ∈ b.labels := by
  obtain ⟨_, _, hsplit, -⟩ := List.lookup_eq_some_iff.1 h
  rw [hsplit]
  exact List.mem_append_right _ List.mem_cons_self

/-- A pair of a list with different keys is found by its key. -/
lemma lookup_of_mem : ∀ {ps : List (Nat × Nat)} {p : Nat × Nat}, (ps.map Prod.fst).Nodup → p ∈ ps →
    ps.lookup p.1 = some p.2
  | q :: ps, p, hn, hp => by
    obtain ⟨hq, hn⟩ := List.nodup_cons.1 hn
    obtain rfl | hp := List.mem_cons.1 hp
    · exact List.lookup_cons_self
    · have hne : p.1 ≠ q.1 := fun he => hq (he ▸ List.mem_map_of_mem hp)
      rw [List.lookup_cons, beq_eq_false_iff_ne.2 hne]
      exact lookup_of_mem hn hp

/-- The blocks that code waits for are there. -/
lemma Awaits.lookup_lt {id : Nat} (h : b.Awaits is) (hn : b.labels.lookup id = some n) :
    n < b.count := h.lt _ (mem_of_lookup hn)

/-- Labels of the code are told apart by their numbers. -/
lemma Awaits.eq_of_id_eq {m : Label} (h : b.Awaits is) (hl : l ∈ is.filterMap Code.Instr.label?)
    (hm : m ∈ is.filterMap Code.Instr.label?) (he : l.id = m.id) : l = m :=
  List.inj_on_of_nodup_map h.ids_nodup hl hm he

/-- Labels with the same block have the same number. -/
lemma Awaits.lookup_injective {id id' : Nat} (h : b.Awaits is) (hn : b.labels.lookup id = some n)
    (hn' : b.labels.lookup id' = some n) : id = id' :=
  congrArg Prod.fst
    (List.inj_on_of_nodup_map h.numbers_nodup (mem_of_lookup hn) (mem_of_lookup hn') rfl)

/-- Blocks that are to be filled belong to labels of the code, or are not there yet. -/
lemma Awaits.notMem_supply (h : b.Awaits is) (hn : n < b.count)
    (hl : ∀ l ∈ is.filterMap Code.Instr.label?, b.labels.lookup l.id ≠ some n) (N : Nat) :
    n ∉ b.supply (idsOf is) N := by
  intro hmem
  obtain hmem | hmem := List.mem_append.1 hmem
  · obtain ⟨p, hp, rfl⟩ := List.mem_map.1 hmem
    obtain ⟨hp, hid⟩ := List.mem_filter.1 hp
    obtain ⟨l, hmem, hpl⟩ := List.mem_map.1 (of_decide_eq_true hid)
    exact hl l hmem (hpl ▸ lookup_of_mem h.keys_nodup hp)
  · exact absurd hn (Nat.not_lt.2 (List.mem_range'_1.1 hmem).1)

/-- **The current block** is not one of those to be filled. -/
lemma Awaits.current_notMem_supply (h : b.Awaits is) (N : Nat) :
    b.current ∉ b.supply (idsOf is) N :=
  h.notMem_supply h.current (fun l hl hn => (h.blank l hl _ hn).2 rfl) N

/-- **A block that has an end** is not one of those to be filled. -/
lemma Awaits.ended_notMem_supply {k : Block} (h : b.Awaits is) (hk : b.at? n = some k)
    (hend : k.terminator.isSome) (N : Nat) : n ∉ b.supply (idsOf is) N := by
  refine h.notMem_supply (Array.getElem?_eq_some_iff.1 hk).1 (fun l hl hn => ?_) N
  rw [(h.blank l hl n hn).1] at hk
  rw [← Option.some.inj hk] at hend
  cases hend

/-- The block of a label is among those to be filled. -/
lemma Awaits.supply_label (h : b.Awaits (.label l :: is)) (hn : b.labels.lookup l.id = some n)
    (N : Nat) : (b.supply (idsOf (.label l :: is)) N).Perm (n :: b.supply (idsOf is) N) := by
  obtain ⟨before, after, hsplit, hbefore⟩ := List.lookup_eq_some_iff.1 hn
  have hkeys := h.keys_nodup
  rw [hsplit, List.map_append, List.map_cons, List.nodup_middle, List.nodup_cons] at hkeys
  have hfilter : ∀ ps : List (Nat × Nat), (∀ p ∈ ps, p.1 ≠ l.id) →
      ps.filter (fun p => decide (p.1 ∈ idsOf (.label l :: is))) =
        ps.filter fun p => decide (p.1 ∈ idsOf is) := fun ps hps =>
    List.filter_congr fun p hp => decide_eq_decide.2
      ⟨fun hmem => (List.mem_cons.1 hmem).resolve_left (hps p hp), List.mem_cons_of_mem _⟩
  have hne : ∀ p ∈ before ++ after, p.1 ≠ l.id := by
    intro p hp he
    have hmem := List.mem_map_of_mem (f := Prod.fst) hp
    rw [he, List.map_append] at hmem
    exact hkeys.1 hmem
  obtain ⟨hnotMem, -⟩ := List.nodup_cons.1 h.ids_nodup
  rw [supply, supply, hsplit, List.filter_append, List.filter_append,
    List.filter_cons_of_pos (by simp [idsOf, Code.Instr.label?]),
    List.filter_cons_of_neg (by simpa [idsOf] using hnotMem),
    hfilter before fun p hp => hne p (List.mem_append_left _ hp),
    hfilter after fun p hp => hne p (List.mem_append_right _ hp)]
  simp only [List.map_append, List.map_cons, List.append_assoc, List.cons_append]
  exact List.perm_middle

/-- Something is done to the current block only. -/
lemma Awaits.of_frame (h : b.Awaits is) (hlabels : b'.labels = b.labels)
    (hcurrent : b'.current = b.current) (hcount : b'.count = b.count)
    (hframe : ∀ n, n ≠ b.current → b'.at? n = b.at? n)
    (hhead : b'.isEnded → ∀ i ∈ is.head?, i.isResults = false) : b'.Awaits is where
  current := by rw [hcurrent, hcount]; exact h.current
  keys_nodup := hlabels ▸ h.keys_nodup
  numbers_nodup := hlabels ▸ h.numbers_nodup
  lt := by rw [hlabels, hcount]; exact h.lt
  ids_nodup := h.ids_nodup
  targets := hlabels ▸ h.targets
  blank l hl n hn := by
    obtain ⟨hat, hne⟩ := h.blank l hl n (hlabels ▸ hn)
    exact ⟨(hframe n hne).trans hat, hcurrent ▸ hne⟩
  chain := h.chain
  head := hhead

/-- Behind an instruction that is no label, the results are not handed back. -/
lemma Awaits.isResults_eq_false (h : b.Awaits (i :: is)) (hi : i.isLabel = false) :
    ∀ j ∈ is.head?, j.isResults = false := by
  intro j hj
  by_contra hres
  have := (List.isChain_cons.1 h.chain).1 j hj (Bool.eq_true_of_not_eq_false hres)
  rw [hi] at this
  cases this

/-- Code waits for what comes after its first instruction. -/
lemma Awaits.tail (h : b.Awaits (i :: is)) (hi : i.isLabel = false) : b.Awaits is := by
  have hlabels : (i :: is).filterMap Code.Instr.label? = is.filterMap Code.Instr.label? :=
    List.filterMap_cons_none (Code.label?_of_isLabel hi)
  refine ⟨h.current, h.keys_nodup, h.numbers_nodup, h.lt, ?_, fun j hj t ht => ?_, fun l hl => ?_,
    (List.isChain_cons.1 h.chain).2, fun _ => h.isResults_eq_false hi⟩
  · have := h.ids_nodup
    rwa [idsOf, hlabels] at this
  · exact hlabels ▸ h.targets j (List.mem_cons_of_mem _ hj) t ht
  · exact h.blank l (hlabels ▸ hl)

/-- Code still waits once instructions were added. -/
lemma Awaits.add (h : b.Awaits is) (ho : b.isEnded = false) (ops : List Op)
    (regs : List (Nat × Value)) : (b.add ops regs).Awaits is := by
  refine h.of_frame rfl rfl (count_add ops regs) (fun n hn => ?_) fun he => ?_
  · rw [at?_add, if_neg hn.symm]
  · rw [isEnded_add, ho] at he
    cases he

/-- Code still waits once a block has ended. -/
lemma Awaits.ended (h : b.Awaits is) (t : Terminator)
    (hhead : ∀ i ∈ is.head?, i.isResults = false) : (b.ended t).Awaits is :=
  h.of_frame rfl rfl (count_ended t) (fun n hn => by rw [at?_ended, if_neg hn.symm]) fun _ => hhead

/-- The need of a block ends no block. -/
lemma Awaits.isEnded_need (h : b.Awaits is) : (b.need l).isEnded = b.isEnded := by
  unfold isEnded
  rw [show (b.need l).block? = b.block? by
    unfold block?
    rw [current_need]
    exact at?_need h.current]

/-- A block is added for a label. -/
lemma Awaits.need (h : b.Awaits is)
    (hl : l ∈ is.filterMap Code.Instr.label? ∨ ∃ n, b.labels.lookup l.id = some n) :
    (b.need l).Awaits is := by
  cases hb : b.labels.lookup l.id with
  | some n =>
    rw [need_of_some hb]
    exact h
  | none =>
    have hl : l ∈ is.filterMap Code.Instr.label? :=
      hl.resolve_right fun ⟨n, hn⟩ => by simp [hb] at hn
    -- The block is the last one, and the only new entry of the table leads to it.
    have hlabels : (b.need l).labels = (l.id, b.count) :: b.labels := by rw [need_of_none hb]
    have hcount : (b.need l).count = b.count + 1 := by simp [count, need_of_none hb, pushBlock]
    have hnew : (b.need l).at? b.count = some { name := l.ref } := by
      rw [need_of_none hb]
      exact (at?_pushBlock _ _).trans (if_pos rfl)
    have hlookup : ∀ id n, (b.need l).labels.lookup id = some n →
        id = l.id ∧ n = b.count ∨ b.labels.lookup id = some n := by
      intro id n hn
      rw [hlabels, List.lookup_cons] at hn
      split at hn
      · rename_i heq
        exact .inl ⟨beq_iff_eq.1 heq, (Option.some.inj hn).symm⟩
      · exact .inr hn
    -- What awaited its labels still does: old entries lead to old blocks, and the new block is
    -- blank.
    refine ⟨?_, ?_, ?_, ?_, h.ids_nodup, fun i hi t ht => ?_, fun m hm n hn => ?_, h.chain, ?_⟩
    · rw [current_need, hcount]
      exact Nat.lt_succ_of_lt h.current
    · rw [hlabels, List.map_cons, List.nodup_cons]
      refine ⟨fun hmem => ?_, h.keys_nodup⟩
      obtain ⟨p, hp, hpl⟩ := List.mem_map.1 hmem
      have := lookup_of_mem h.keys_nodup hp
      rw [hpl, hb] at this
      cases this
    · rw [hlabels, List.map_cons, List.nodup_cons]
      refine ⟨fun hmem => ?_, h.numbers_nodup⟩
      obtain ⟨p, hp, hpn⟩ := List.mem_map.1 hmem
      exact Nat.lt_irrefl _ (hpn ▸ h.lt p hp)
    · rw [hlabels, hcount]
      exact List.forall_mem_cons.2 ⟨Nat.lt_succ_self _, fun p hp => Nat.lt_succ_of_lt (h.lt p hp)⟩
    · refine (h.targets i hi t ht).imp_right fun ⟨n, hn⟩ => ⟨n, ?_⟩
      have hgrows : b.Grows (b.need l) (idsOf is) := grows_need (.inl (List.mem_map_of_mem hl))
      exact hgrows.lookup _ n hn
    · rw [current_need]
      obtain ⟨heq, rfl⟩ | hn := hlookup _ _ hn
      · obtain rfl := h.eq_of_id_eq hm hl heq
        exact ⟨hnew, Nat.ne_of_gt h.current⟩
      · obtain ⟨hat, hne⟩ := h.blank m hm n hn
        exact ⟨(at?_need (h.lookup_lt hn)).trans hat, hne⟩
    · rw [h.isEnded_need]
      exact h.head

/-- A block is opened behind a jump. -/
lemma Awaits.opened (h : b.Awaits is) : b.opened.Awaits is ∧ b.opened.isEnded = false := by
  cases he : b.isEnded with
  | false => simpa [Builder.opened, he] using h
  | true =>
    have hb : b.opened = { b.pushBlock "" with current := b.count } := by simp [Builder.opened, he]
    have hcount : b.opened.count = b.count + 1 := by simp [count, hb, pushBlock]
    have hopen : b.opened.isEnded = false := by simp [hb, isEnded, block?, pushBlock]
    refine ⟨⟨?_, ?_, ?_, ?_, h.ids_nodup, ?_, fun l hl n hn => ?_, h.chain, ?_⟩, hopen⟩
    · rw [hcount, hb]
      exact Nat.lt_succ_self _
    · exact hb ▸ h.keys_nodup
    · exact hb ▸ h.numbers_nodup
    · rw [hcount, hb]
      exact fun p hp => Nat.lt_succ_of_lt (h.lt p hp)
    · exact hb ▸ h.targets
    · rw [hb] at hn ⊢
      have hlt := Nat.ne_of_lt (h.lookup_lt hn)
      exact ⟨((at?_pushBlock _ _).trans (if_neg hlt)).trans (h.blank l hl n hn).1, hlt⟩
    · rw [hopen]
      intro hfalse
      cases hfalse

/-- **The block of a label** is entered: nothing was added to it yet. -/
lemma Awaits.entered (h : b.Awaits (.label l :: is)) : (b.entered l).Awaits is ∧
    (b.entered l).block? = some { name := l.ref } ∧ (b.entered l).isEnded = false := by
  have hl : l ∈ (Code.Instr.label l :: is).filterMap Code.Instr.label? := List.mem_cons_self
  have hneed : (b.need l).Awaits (.label l :: is) := h.need (.inl hl)
  obtain ⟨c, hc, hplace, hentered⟩ : ∃ c : Builder, c.Awaits (.label l :: is) ∧
      c.labels.lookup l.id = some ((b.need l).place l) ∧
      b.entered l = { c with current := (b.need l).place l } := by
    cases he : (b.need l).isEnded with
    | true => exact ⟨b.need l, hneed, lookup_need, by simp [Builder.entered, he]⟩
    | false =>
      refine ⟨(b.need l).ended (.jump ((b.need l).place l)), hneed.ended _ ?_, lookup_need, ?_⟩
      · exact fun i hi => Option.some.inj hi ▸ rfl
      · simp [Builder.entered, he]
  have hblock : (b.entered l).block? = some { name := l.ref } := by
    rw [hentered]
    exact (hc.blank l hl _ hplace).1
  have hopen : (b.entered l).isEnded = false := by rw [isEnded, hblock]; rfl
  obtain ⟨hl', hids⟩ := List.nodup_cons.1 hc.ids_nodup
  refine ⟨?_, hblock, hopen⟩
  rw [hentered] at hopen ⊢
  refine ⟨hc.lookup_lt hplace, hc.keys_nodup, hc.numbers_nodup, hc.lt, hids, fun i hi t ht => ?_,
    fun m hm n hn => ?_, (List.isChain_cons.1 hc.chain).2, fun he => by rw [hopen] at he; cases he⟩
  · obtain hmem | hn := hc.targets i (List.mem_cons_of_mem _ hi) t ht
    · obtain rfl | hmem := List.mem_cons.1 hmem
      · exact .inr ⟨_, hplace⟩
      · exact .inl hmem
    · exact .inr hn
  · obtain ⟨hat, -⟩ := hc.blank m (List.mem_cons_of_mem _ hm) n hn
    refine ⟨hat, fun heq => hl' ?_⟩
    exact hc.lookup_injective hplace (heq ▸ hn) ▸ List.mem_map_of_mem hm

end Awaits

/-- A builder that has blocks for labels. -/
def needs (b : Builder) (ls : List Label) : Builder := ls.foldl need b

/-- **Blocks for labels** change nothing else. -/
lemma Awaits.needs {is : List Code.Instr} : ∀ {b : Builder} {ls : List Label}, b.Awaits is →
    (∀ l ∈ ls, l ∈ is.filterMap Code.Instr.label? ∨ ∃ n, b.labels.lookup l.id = some n) →
    (b.needs ls).Awaits is ∧ b.Grows (b.needs ls) (idsOf is) ∧ (b.needs ls).current = b.current ∧
      (b.needs ls).view = b.view ∧ (∀ n < b.count, (b.needs ls).at? n = b.at? n) ∧
      ∀ l ∈ ls, (b.needs ls).labels.lookup l.id = some ((b.needs ls).place l)
  | b, [], h, _ => ⟨h, .refl b _, rfl, rfl, fun _ _ => rfl, List.forall_mem_nil _⟩
  | b, l :: ls, h, hls => by
    obtain ⟨hl, hls⟩ := List.forall_mem_cons.1 hls
    have hgrows : b.Grows (b.need l) (idsOf is) := grows_need (hl.imp_left List.mem_map_of_mem)
    obtain ⟨hready, hgrows', hcurrent, hview, hat, hplaces⟩ := (h.need hl).needs
      fun m (hm : m ∈ ls) => (hls m hm).imp_right fun ⟨n, hn⟩ => ⟨n, hgrows.lookup _ n hn⟩
    refine ⟨hready, hgrows.trans hgrows', hcurrent.trans current_need, hview.trans view_need,
      fun n hn => ?_, List.forall_mem_cons.2 ⟨?_, hplaces⟩⟩
    · exact (hat n (Nat.lt_of_lt_of_le hn hgrows.count_le)).trans (at?_need hn)
    · have hlookup := hgrows'.lookup _ _ (lookup_need (b := b) (l := l))
      exact hlookup.trans (congrArg some (hgrows'.place_eq lookup_need).symm)

/-- An entered label shows nowhere else. -/
lemma view_entered (b : Builder) (l : Label) : (b.entered l).view = b.view := by
  unfold entered
  dsimp only
  split <;> exact view_need

/-- An opened block shows nowhere else. -/
lemma view_opened : b.opened.view = b.view := by
  unfold opened
  split <;> rfl

end Builder

/-! ### Steps -/

section Steps

variable {env : EmitEnv} {b b' : Builder} {i : Code.Instr} {is : List Code.Instr} {e : Ending}

/-- **What a jump does**, unless it stops: the current block gets what the jump reads and its end,
and blocks are there for the labels. -/
lemma run_jump (env : EmitEnv) (h : i.ending? = some e) (hi : i.isLabel = false)
    (hr : b.isEnded → i.isResults = false) :
    (∃ p : Piece ((Label → Nat) → Terminator),
      (∀ place, Emits env b.view (emitEnding env.code.results place e)
        ⟨p.value place, p.ops, p.regs⟩) ∧
      (∀ place place', (∀ l ∈ i.targets, place l = place' l) → p.value place = p.value place') ∧
      ((emitStep i).run env).run b = .ok ((), ((b.opened.add p.ops p.regs).needs i.targets).ended
        (p.value ((b.opened.add p.ops p.regs).needs i.targets).place))) ∨
    ∃ x, (∀ place, Stops env b.view (emitEnding env.code.results place e) x) ∧
      ((emitStep i).run env).run b = .error x := by
  have hview : b.opened.view = b.view := b.view_opened
  -- Only these instructions end blocks; what they read is emitted without a jump.
  cases i with
  | goto l =>
    obtain rfl := Option.some.inj h
    refine .inl ⟨⟨fun place => .jump (place l), [], b.opened.regs⟩, fun place => ?_,
      fun place place' hp => congrArg Terminator.jump (hp l (List.mem_singleton_self l)), ?_⟩
    · rw [show b.opened.regs = b.view.regs from congrArg View.regs hview]
      exact .pure
    · rw [run_emitStep rfl rfl, Builder.add_nil, emitInstr, run_bind_of_ok (run_blockOf l)]
      rfl
  | branch c yes no =>
    obtain rfl := Option.some.inj h
    rw [run_emitStep rfl rfl, emitInstr]
    obtain ⟨p, hp, -⟩ | ⟨x, hx⟩ := (isStraight_value c : IsStraight env _) b.view
    · refine .inl ⟨⟨fun place => .branch p.value (place yes) (place no), p.ops, p.regs⟩,
        fun place => ?_, fun place place' hp => ?_, ?_⟩
      · have := hp.bind (f := fun v => Pure.pure (Terminator.branch v (place yes) (place no))) .pure
        rwa [List.append_nil] at this
      · exact congrArg₂ (Terminator.branch p.value) (hp yes List.mem_cons_self)
          (hp no (List.mem_cons_of_mem _ List.mem_cons_self))
      · rw [run_bind_of_ok (hp _ hview), run_bind_of_ok (run_blockOf yes),
          run_bind_of_ok (run_blockOf no)]
        have hyes := Builder.place_eq_of_lookup (Builder.lookup_need_of_some (l := no)
          (Builder.lookup_need (b := b.opened.add p.ops p.regs) (l := yes)))
        exact congrArg (fun n => Except.ok ((), Builder.ended _ (.branch p.value n _))) hyes.symm
    · refine .inr ⟨x, fun place b' hb' => run_bind_of_error (hx b' hb'),
        run_bind_of_error (hx _ hview)⟩
  | results =>
    obtain rfl := Option.some.inj h
    have hopen : b.opened = b := by
      rw [Builder.opened, if_neg fun he => by cases hr he]
    have hrun : ((emitStep .results).run env).run b =
        ((emitResults env.code.results).run env).run b := rfl
    rw [hrun, run_emitResults, hopen]
    obtain ⟨p, hp, -⟩ | ⟨x, hx⟩ :=
      (isStraight_resultsValue env.code.results : IsStraight env _) b.view
    · refine .inl ⟨⟨fun _ => .ret p.value, p.ops, p.regs⟩, fun place => ?_, fun _ _ _ => rfl, ?_⟩
      · have := hp.bind (f := fun v => Pure.pure (Terminator.ret v)) .pure
        rwa [List.append_nil] at this
      · rw [hp b rfl]
        rfl
    · refine .inr ⟨x, fun place b' hb' => run_bind_of_error (hx b' hb'), ?_⟩
      rw [hx b rfl]
      rfl
  | label l => cases hi
  | _ => cases h

/-- **What other instructions do**, unless they stop: they add to the current block. -/
lemma run_straight (env : EmitEnv) (b : Builder) (h : i.ending? = none) :
    (∃ p, Emits env b.view (emitInstr i) p ∧
      ((emitStep i).run env).run b = .ok ((), b.opened.add p.ops p.regs)) ∨
    ∃ x, Stops env b.view (emitInstr i) x ∧ ((emitStep i).run env).run b = .error x := by
  have hi : i.isLabel = false ∧ i.isResults = false := by
    cases i <;> first | exact ⟨rfl, rfl⟩ | cases h
  rw [run_emitStep hi.1 hi.2]
  refine (isStraight_emitInstr (targets_of_ending?_eq_none h) b.view).imp
    (fun ⟨p, hp, _⟩ => ⟨p, hp, hp _ b.view_opened⟩) fun ⟨x, hx⟩ => ⟨x, hx, hx _ b.view_opened⟩

/-- **What one instruction does**: it adds to the current block, which is a new one behind a jump;
it enters the block of a label; or it ends the current block, with blocks for the labels it may jump
to. -/
theorem step_cases (h : b.Awaits (i :: is)) (hrun : ((emitStep i).run env).run b = .ok ((), b')) :
    (i.ending? = none ∧ ∃ p, Emits env b.view (emitInstr i) p ∧ b' = b.opened.add p.ops p.regs) ∨
    (∃ l, i = .label l ∧ b' = b.entered l) ∨
    ∃ e, i.ending? = some e ∧ i.isLabel = false ∧ ∃ p : Piece ((Label → Nat) → Terminator),
      (∀ place, Emits env b.view (emitEnding env.code.results place e)
        ⟨p.value place, p.ops, p.regs⟩) ∧
      (∀ place place', (∀ l ∈ i.targets, place l = place' l) → p.value place = p.value place') ∧
      b' = ((b.opened.add p.ops p.regs).needs i.targets).ended
        (p.value ((b.opened.add p.ops p.regs).needs i.targets).place) := by
  have heq : ∀ {c : Builder}, ((emitStep i).run env).run b = .ok ((), c) → b' = c :=
    fun hok => (Prod.mk.inj (Except.ok.inj (hrun.symm.trans hok))).2
  have hne : ∀ {x : EmitError}, ((emitStep i).run env).run b ≠ .error x :=
    fun herr => by cases hrun.symm.trans herr
  obtain hnone | ⟨l, rfl⟩ | ⟨e, he, hi⟩ := i.ending_cases
  · obtain ⟨p, hp, hok⟩ | ⟨x, -, herr⟩ := run_straight env b hnone
    · exact .inl ⟨hnone, p, hp, heq hok⟩
    · exact absurd herr hne
  · exact .inr (.inl ⟨l, rfl, heq (run_enter l)⟩)
  · obtain ⟨p, hp, hplaces, hok⟩ | ⟨x, -, herr⟩ :=
      run_jump env he hi fun hb => h.head hb i rfl
    · exact .inr (.inr ⟨e, he, hi, p, hp, hplaces, heq hok⟩)
    · exact absurd herr hne

end Steps

namespace Builder

variable {env : EmitEnv} {b b' : Builder} {i : Code.Instr} {is : List Code.Instr}

/-- What ends no stretch is waited for no longer. -/
lemma Awaits.tail_of_ending?_eq_none (h : b.Awaits (i :: is)) (hi : i.ending? = none) :
    b.Awaits is := h.tail (by cases i <;> first | rfl | cases hi)

/-- **One instruction** leaves a builder that is ready for the others. -/
theorem Awaits.step (h : b.Awaits (i :: is))
    (hrun : ((emitStep i).run env).run b = .ok ((), b')) : b'.Awaits is := by
  obtain ⟨hnone, p, -, rfl⟩ | ⟨l, rfl, rfl⟩ | ⟨e, he, hi, p, -, -, rfl⟩ := step_cases h hrun
  · exact (h.opened.1.tail_of_ending?_eq_none hnone).add h.opened.2 _ _
  · exact h.entered.1
  · have hadd := h.opened.1.add h.opened.2 p.ops p.regs
    have hneeds := hadd.needs (hadd.targets i List.mem_cons_self)
    exact (hneeds.1.tail hi).ended _ (hneeds.1.isResults_eq_false hi)

end Builder

end Lane.Llvm
