import Lane.Proofs.Regular.Builder
import Mathlib.Data.List.Induction

set_option relaxedAutoImplicit false
set_option autoImplicit false

/-!
# Registers and blocks

Labels and jumps divide code into blocks. Code is confined if every register is used in the block
that assigns it, after it is assigned. What is known in registers is lost at labels and jumps, so
that one pass over the instructions decides it.

## Main definitions

* `Lane.Code.Instr.uses`: the operands that an instruction uses.
* `Lane.Code.live`: the registers that were assigned in the last block.
* `Lane.Code.Confined`: code that uses registers in their blocks only.
* `Lane.Code.Function.WellFormed`: functions with well-formed registers and labels.
* `Lane.Code.IsTidy`: the code that such functions are made of.

## Main results

* `Lane.Code.Confined.exists_defines`: a register that is used was assigned in the same block.
* `Lane.Code.IsTidy.wellFormed`: functions of tidy code are well formed.
-/

namespace Lane.Code

namespace Instr

/-- **The operands that an instruction uses**, those that it only assigns left out. -/
def uses : Instr → List Operand
  | .branch c _ _ => [c]
  | .assign _ _ args => args
  | .load _ p _ | .lea _ p _ => [p]
  | .store p _ s => [p, s]
  | .alloc _ n => [n]
  | .memcpy d s n => [d, s, n]
  | .call _ ins _ => ins
  | .label _ | .goto _ | .params | .results => []

/-- The label that an instruction inserts. -/
def label? : Instr → Option Label
  | .label l => some l
  | _ => none

/-- Whether an instruction is of the frame around code: it binds parameters or hands results
back. -/
def isOfFrame (i : Instr) : Bool := i.isParams || i.isResults

/-- The registers that were assigned in the block after an instruction. Labels and jumps start and
end blocks. -/
def after (L : List Reg) (i : Instr) : List Reg := if i.isStraight then i.defines ++ L else []

variable {i : Instr}

/-- Straight code has no labels. -/
lemma label?_of_isStraight (h : i.isStraight) : i.label? = none := by
  cases i <;> first | rfl | cases h

/-- Straight code has no marks of the frame. -/
lemma isOfFrame_of_isStraight (h : i.isStraight) : i.isOfFrame = false := by
  cases i <;> first | rfl | cases h

/-- After straight code its registers are live, and all before. -/
lemma after_of_isStraight (L : List Reg) (h : i.isStraight) : i.after L = i.defines ++ L := if_pos h

/-- Labels and jumps assign nothing. -/
lemma defines_of_not_isStraight (h : i.isStraight = false) : i.defines = [] := by
  cases i <;> first | rfl | cases h

end Instr

/-- **The registers that were assigned in the last block** of code. -/
def live (L : List Reg) (is : List Instr) : List Reg := is.foldl Instr.after L

/-- **Confined code**: the registers that an instruction uses were assigned in its block, or are in
`L` where the code starts. -/
def Confined : List Reg → List Instr → Prop
  | _, [] => True
  | L, i :: is => (∀ r, .reg r ∈ i.uses → r ∈ L) ∧ Confined (i.after L) is

section Confined

variable {L M : List Reg} {is js : List Instr} {i : Instr} {r : Reg}

/-- Without code, live registers stay. -/
@[simp] lemma live_nil : live L [] = L := rfl

/-- What is live after the first instruction goes on. -/
@[simp] lemma live_cons : live L (i :: is) = live (i.after L) is := rfl

/-- What is live after two parts of code. -/
@[simp] lemma live_append : live L (is ++ js) = live (live L is) js := List.foldl_append

/-- No code is confined. -/
@[simp] lemma confined_nil : Confined L [] := trivial

/-- Code is confined if its parts are, one after the other. -/
lemma confined_append : ∀ {L : List Reg} {is : List Instr},
    Confined L (is ++ js) ↔ Confined L is ∧ Confined (live L is) js
  | _, [] => by simp
  | L, i :: is => by
    rw [List.cons_append, Confined, Confined, confined_append, live_cons, and_assoc]

/-- An instruction is confined if the registers that it uses are live. -/
lemma confined_singleton : Confined L [i] ↔ ∀ r, .reg r ∈ i.uses → r ∈ L :=
  ⟨And.left, fun h => ⟨h, trivial⟩⟩

/-- More registers may be assigned before. -/
lemma Confined.mono : ∀ {is : List Instr} {L M : List Reg}, Confined L is → L ⊆ M → Confined M is
  | [], _, _, _, _ => trivial
  | i :: is, L, M, h, hs => by
    refine ⟨fun r hr => hs (h.1 r hr), h.2.mono ?_⟩
    unfold Instr.after
    split
    · exact List.append_subset.2 ⟨List.subset_append_left _ _,
        List.subset_append_of_subset_right _ hs⟩
    · exact List.Subset.refl _

/-- **Registers of the last block** are assigned by an instruction after which no block starts or
ends. -/
lemma exists_of_mem_live : ∀ {is : List Instr}, r ∈ live [] is → ∃ earlier d between,
    is = earlier ++ d :: between ∧ r ∈ d.defines ∧ ∀ j ∈ between, j.isStraight := by
  intro is
  induction is using List.reverseRecOn with
  | nil => exact nofun
  | append_singleton is i ih =>
    intro h
    rw [live_append, live_cons, live_nil, Instr.after] at h
    split at h
    · rename_i hi
      obtain h | h := List.mem_append.1 h
      · exact ⟨is, i, [], rfl, h, List.forall_mem_nil _⟩
      · obtain ⟨earlier, d, between, rfl, hd, hb⟩ := ih h
        refine ⟨earlier, d, between ++ [i], by simp, hd, ?_⟩
        exact List.forall_mem_append.2 ⟨hb, List.forall_mem_singleton.2 hi⟩
    · cases h

/-- **A register that is used** was assigned in the same block. -/
theorem Confined.exists_defines {before after : List Instr}
    (h : Confined [] (before ++ i :: after)) (hr : .reg r ∈ i.uses) : ∃ earlier d between,
      before = earlier ++ d :: between ∧ r ∈ d.defines ∧ ∀ j ∈ between, j.isStraight :=
  exists_of_mem_live ((confined_append.1 h).2.1 r hr)

/-- The code of a function is confined if what the frame was put around is. -/
lemma Confined.frame (h : Confined [] is) : Confined [] (Function.frame is) := by
  have hclose : ∀ L, Confined L [.label .epilogue, .results] := fun L => ⟨nofun, nofun, trivial⟩
  exact confined_append.2 ⟨confined_append.2 ⟨⟨nofun, nofun, trivial⟩, h⟩, hclose _⟩

end Confined

/-! ## Functions -/

namespace Function

/-- The labels that are inserted in a body. -/
def labels (f : Function) : List Label := f.body.filterMap Instr.label?

/-- The registers that are assigned in a body. -/
def defined (f : Function) : List Reg := f.body.flatMap Instr.defines

/-- **Well-formed registers and labels.** -/
structure WellFormed (f : Function) : Prop where
  /-- Every register that occurs is assigned by one instruction, counting what calls return. -/
  defined_once : ∀ i ∈ f.body, ∀ r, r ∈ i.defines ∨ .reg r ∈ i.uses → f.defined.count r = 1
  /-- Registers have numbers of their own. -/
  numbers_nodup : (f.defined.map Reg.id).Nodup
  /-- A register is used after it is assigned, without a label or jump in between. -/
  confined : ∀ before i after r, f.body = before ++ i :: after → .reg r ∈ i.uses →
    ∃ earlier d between, before = earlier ++ d :: between ∧ r ∈ d.defines ∧
      ∀ j ∈ between, j.isStraight
  /-- Every label is inserted once. -/
  labels_nodup : (f.labels.map Label.id).Nodup
  /-- Jumps lead to labels of the body. -/
  targets_mem : ∀ i ∈ f.body, ∀ l ∈ i.targets, l ∈ f.labels
  /-- The parameters and results are no registers. -/
  bound : ∀ r, .reg r ∉ f.params ++ f.results

end Function

/-- **Tidy code**: what the frame of a function may be put around. -/
structure IsTidy (code : List Instr) : Prop where
  confined : Confined [] code
  numbers_nodup : ((code.flatMap Instr.defines).map Reg.id).Nodup
  labels_nodup : ((code.filterMap Instr.label?).map Label.id).Nodup
  /-- Two labels are those of the frame. -/
  labels_new : ∀ l ∈ code.filterMap Instr.label?, l.id ≠ Label.entry.id ∧ l.id ≠ Label.epilogue.id
  targets_mem : ∀ i ∈ code, ∀ l ∈ i.targets, .label l ∈ Function.frame code

namespace IsTidy

variable {f : Function} {code : List Instr}

/-- The code is what stands between the parameters and the epilogue. -/
lemma instrs_eq (h : IsTidy code) (hf : f.body = Function.frame code) : f.instrs = code :=
  Function.instrs_of_frame hf fun l hl =>
    (h.labels_new l (List.mem_filterMap.2 ⟨.label l, hl, rfl⟩)).2

/-- **Functions of tidy code are well formed**. -/
theorem wellFormed (h : IsTidy code) (hf : f.body = Function.frame code)
    (hbound : ∀ r, .reg r ∉ f.params ++ f.results) : f.WellFormed := by
  have hdefined : f.defined = code.flatMap Instr.defines := by
    simp [Function.defined, hf, Function.frame, Instr.defines, Instr.reg?, Instr.dst?]
  have hlabels : f.labels = .entry :: (code.filterMap Instr.label? ++ [.epilogue]) := by
    simp [Function.labels, hf, Function.frame, List.filterMap_cons, Instr.label?]
  have hconfined : Confined [] f.body := hf ▸ h.confined.frame
  refine ⟨fun i hi r hr => ?_, hdefined ▸ h.numbers_nodup,
    fun before i after r hsplit hr => (hsplit ▸ hconfined).exists_defines hr, ?_,
    fun i hi l hl => ?_, hbound⟩
  · refine List.count_eq_one_of_mem (hdefined ▸ h.numbers_nodup.of_map) ?_
    obtain hr | hr := hr
    · exact List.mem_flatMap.2 ⟨i, hi, hr⟩
    · obtain ⟨before, after, hsplit⟩ := List.append_of_mem hi
      obtain ⟨earlier, d, between, hb, hd, -⟩ := (hsplit ▸ hconfined).exists_defines hr
      exact List.mem_flatMap.2 ⟨d, by simp [hsplit, hb], hd⟩
  · rw [hlabels, List.map_cons, List.map_append, List.nodup_cons, List.nodup_append']
    refine ⟨fun hmem => ?_, h.labels_nodup, List.nodup_singleton _, fun n hn hn' => ?_⟩
    · obtain hmem | hmem := List.mem_append.1 hmem
      · obtain ⟨l, hl, he⟩ := List.mem_map.1 hmem
        exact (h.labels_new l hl).1 he
      · exact absurd (List.mem_singleton.1 hmem) (by decide)
    · obtain ⟨l, hl, rfl⟩ := List.mem_map.1 hn
      exact (h.labels_new l hl).2 (List.mem_singleton.1 hn')
  · refine List.mem_filterMap.2 ⟨.label l, hf ▸ ?_, rfl⟩
    rw [hf] at hi
    simp only [Function.frame, List.mem_append, List.mem_cons, List.not_mem_nil, or_false] at hi
    obtain ((rfl | rfl) | hi) | rfl | rfl := hi
    · cases hl
    · cases hl
    · exact h.targets_mem i hi l hl
    · cases hl
    · cases hl

/-- **Functions of tidy code have no flaw**. -/
lemma verify_eq_none (h : IsTidy code) (hf : f.body = Function.frame code) : f.verify = none := by
  refine Function.verify_frame hf h.targets_mem (h.numbers_nodup.of_map.sublist ?_)
  clear h hf
  induction code with
  | nil => exact .slnil
  | cons i code ih =>
    rw [assignedRegs_cons, List.flatMap_cons]
    refine .append ?_ ih
    cases i with
    | call => exact List.nil_sublist _
    | _ => exact .refl _

end IsTidy

end Lane.Code
