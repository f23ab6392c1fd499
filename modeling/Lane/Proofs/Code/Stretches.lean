import Lane.Proofs.Code.Blocks
import Mathlib.Data.List.Chain

set_option relaxedAutoImplicit false
set_option autoImplicit false

/-!
# Stretches of code

Labels and jumps cut code into stretches. A stretch ends at a jump, where the results are handed
back, or at a label, with which the next stretch begins; code after a jump is a stretch without a
label.

## Main definitions

* `Lane.Code.Ending`, `Lane.Code.Stretch`: stretches of code, and how they end.
* `Lane.Code.cut`: the stretches of code.

## Main results

* `Lane.Code.instrs_cut`: the stretches make up the code.
* `Lane.Code.labels_cut`: there is a stretch for every label.
* `Lane.Code.isChain_cut`: stretches without a label follow a jump.
-/

namespace Lane.Code

/-- How a stretch of code ends. -/
inductive Ending where
  | goto (target : Label)
  | branch (cond : Operand) (yes no : Label)
  | results
  /-- A label is reached. -/
  | fall (next : Label)

/-- How code ends at an instruction, unless it goes on there. -/
def Instr.ending? : Instr → Option Ending
  | .label l => some (.fall l)
  | .goto l => some (.goto l)
  | .branch c yes no => some (.branch c yes no)
  | .results => some .results
  | _ => none

/-- The instruction at which code ends; a label is of the next stretch. -/
def Ending.instrs : Ending → List Instr
  | .goto l => [.goto l]
  | .branch c yes no => [.branch c yes no]
  | .results => [.results]
  | .fall _ => []

/-- A stretch of code, which has no end if the code of the function is over. -/
structure Stretch where
  code : List Instr
  ending : Option Ending

namespace Stretch

/-- The instructions of a stretch. -/
def instrs (s : Stretch) : List Instr := s.code ++ (s.ending.map Ending.instrs).getD []

/-- The stretch at which no instruction stands before a label, or before the end. -/
def isBlank (s : Stretch) : Bool :=
  s.code.isEmpty && match s.ending with
    | none | some (.fall _) => true
    | some _ => false

/-- The stretch after a jump, if there is any code before the next label. -/
def unlabelled (s : Stretch) : List (Option Label × Stretch) :=
  if s.isBlank then [] else [(none, s)]

end Stretch

/-- The stretches of code: the one with which the code goes on, and those after it. -/
def cut : List Instr → Stretch × List (Option Label × Stretch)
  | [] => (⟨[], none⟩, [])
  | i :: is =>
    match i.ending? with
    | none => (⟨i :: (cut is).1.code, (cut is).1.ending⟩, (cut is).2)
    | some (.fall l) => (⟨[], some (.fall l)⟩, (some l, (cut is).1) :: (cut is).2)
    | some e => (⟨[], some e⟩, (cut is).1.unlabelled ++ (cut is).2)

section Cut

variable {i : Instr} {is : List Instr} {e : Ending}

/-- An instruction that ends no stretch belongs to the first. -/
lemma cut_of_ending_none (h : i.ending? = none) :
    cut (i :: is) = (⟨i :: (cut is).1.code, (cut is).1.ending⟩, (cut is).2) := by
  rw [cut, h]

/-- A label ends a stretch, and begins the next. -/
@[simp] lemma cut_label (l : Label) :
    cut (.label l :: is) = (⟨[], some (.fall l)⟩, (some l, (cut is).1) :: (cut is).2) := rfl

/-- A jump ends a stretch, and what follows has no label. -/
lemma cut_of_jump (h : i.ending? = some e) (hi : i.isLabel = false) :
    cut (i :: is) = (⟨[], some e⟩, (cut is).1.unlabelled ++ (cut is).2) := by
  cases i <;> cases h <;> first | rfl | cases hi

/-- Code goes on at an instruction, a label begins there, or code ends at it. -/
lemma Instr.ending_cases (i : Instr) : i.ending? = none ∨ (∃ l, i = .label l) ∨
    ∃ e, i.ending? = some e ∧ i.isLabel = false := by
  cases i
  case label l => exact .inr (.inl ⟨l, rfl⟩)
  case goto | branch | results => exact .inr (.inr ⟨_, rfl, rfl⟩)
  all_goals exact .inl rfl

/-- What an instruction ends is made of it, unless it is a label. -/
lemma instrs_of_ending? (h : i.ending? = some e) (hi : i.isLabel = false) : e.instrs = [i] := by
  cases i <;> cases h <;> first | rfl | cases hi

/-- Only labels are fallen through to. -/
lemma ne_fall_of_ending? (h : i.ending? = some e) (hi : i.isLabel = false) (l : Label) :
    e ≠ .fall l := by
  rintro rfl
  cases i <;> cases h
  cases hi

/-- What is no label has none. -/
lemma label?_of_isLabel (hi : i.isLabel = false) : i.label? = none := by
  cases i <;> first | rfl | cases hi

/-! ## Properties of stretches -/

namespace Stretch

/-- Nothing stands in a blank stretch. -/
lemma instrs_of_isBlank {s : Stretch} (h : s.isBlank) : s.instrs = [] := by
  obtain ⟨code, ending⟩ := s
  obtain ⟨hcode, hending⟩ := Bool.and_eq_true_iff.1 h
  obtain rfl := List.isEmpty_iff.1 hcode
  cases ending with
  | none => rfl
  | some e =>
    cases e with
    | fall l => rfl
    | _ => cases hending

/-- A blank stretch ends at a label if it has an end. -/
lemma eq_fall_of_isBlank {s : Stretch} (h : s.isBlank) (he : s.ending = some e) :
    ∃ l, e = .fall l := by
  cases e with
  | fall l => exact ⟨l, rfl⟩
  | _ => simp [isBlank, he] at h

/-- What holds of a stretch and of those after it holds of those that remain after a jump. -/
lemma forall_mem_unlabelled {s : Stretch} {P : Option Label × Stretch → Prop} (h : P (none, s)) :
    ∀ p ∈ s.unlabelled, P p := by
  unfold unlabelled
  split
  · exact List.forall_mem_nil _
  · exact List.forall_mem_singleton.2 h

end Stretch

/-- **The stretches make up the code**: the first one, and each of the others behind its label. -/
theorem instrs_cut : ∀ is : List Instr, (cut is).1.instrs ++
    (cut is).2.flatMap (fun p => (p.1.map Instr.label).toList ++ p.2.instrs) = is
  | [] => rfl
  | i :: is => by
    have ih := instrs_cut is
    obtain h | ⟨l, rfl⟩ | ⟨e, h, hi⟩ := i.ending_cases
    · rw [cut_of_ending_none h]
      exact congrArg (i :: ·) ih
    · exact congrArg (Instr.label l :: ·) ih
    · have hun : (cut is).1.unlabelled.flatMap
          (fun p => (p.1.map Instr.label).toList ++ p.2.instrs) = (cut is).1.instrs := by
        unfold Stretch.unlabelled
        split
        · rename_i hblank
          exact (Stretch.instrs_of_isBlank hblank).symm
        · simp
      rw [cut_of_jump h hi, List.flatMap_append, hun, ih, Stretch.instrs, Option.map_some,
        Option.getD_some, instrs_of_ending? h hi]
      rfl

/-- **Every label** begins a stretch, in the order of the code. -/
theorem labels_cut : ∀ is : List Instr, (cut is).2.filterMap Prod.fst = is.filterMap Instr.label?
  | [] => rfl
  | i :: is => by
    have ih := labels_cut is
    obtain h | ⟨l, rfl⟩ | ⟨e, h, hi⟩ := i.ending_cases
    · rw [cut_of_ending_none h, ih, List.filterMap_cons_none]
      cases i <;> first | rfl | cases h
    · exact congrArg (l :: ·) ih
    · have hnone : (cut is).1.unlabelled.filterMap Prod.fst = [] := by
        unfold Stretch.unlabelled
        split <;> rfl
      rw [cut_of_jump h hi, List.filterMap_append, hnone, ih,
        List.filterMap_cons_none (label?_of_isLabel hi)]
      rfl

/-- **Inside a stretch** there are neither labels nor jumps. -/
theorem ending?_of_mem_cut : ∀ is : List Instr, (∀ i ∈ (cut is).1.code, i.ending? = none) ∧
    ∀ p ∈ (cut is).2, ∀ i ∈ p.2.code, i.ending? = none
  | [] => ⟨List.forall_mem_nil _, List.forall_mem_nil _⟩
  | i :: is => by
    obtain ⟨hfirst, hrest⟩ := ending?_of_mem_cut is
    obtain h | ⟨l, rfl⟩ | ⟨e, h, hi⟩ := i.ending_cases
    · rw [cut_of_ending_none h]
      exact ⟨List.forall_mem_cons.2 ⟨h, hfirst⟩, hrest⟩
    · exact ⟨List.forall_mem_nil _, List.forall_mem_cons.2 ⟨hfirst, hrest⟩⟩
    · rw [cut_of_jump h hi]
      exact ⟨List.forall_mem_nil _,
        List.forall_mem_append.2 ⟨Stretch.forall_mem_unlabelled hfirst, hrest⟩⟩

/-- **Every stretch has an end** in code that hands the results back last. -/
theorem ending_isSome_of_mem_cut : ∀ {is : List Instr}, is.getLast? = some .results →
    (cut is).1.ending.isSome ∧ ∀ p ∈ (cut is).2, p.2.ending.isSome
  | [], hlast => by cases hlast
  | [i], hlast => by
    obtain rfl := Option.some.inj hlast
    exact ⟨rfl, List.forall_mem_nil _⟩
  | i :: j :: is, hlast => by
    obtain ⟨hfirst, hrest⟩ := ending_isSome_of_mem_cut
      (show (j :: is).getLast? = some .results from hlast)
    obtain h | ⟨l, rfl⟩ | ⟨e, h, hi⟩ := i.ending_cases
    · rw [cut_of_ending_none h]
      exact ⟨hfirst, hrest⟩
    · exact ⟨rfl, List.forall_mem_cons.2 ⟨hfirst, hrest⟩⟩
    · rw [cut_of_jump h hi]
      exact ⟨rfl, List.forall_mem_append.2 ⟨Stretch.forall_mem_unlabelled hfirst, hrest⟩⟩

/-- What stands next to each other: a stretch ends at the label of the next one, or the next one has
a label or some code of its own. -/
def Precedes (p q : Option Label × Stretch) : Prop :=
  ∃ e, p.2.ending = some e ∧ (∀ l, e = .fall l → q.1 = some l) ∧ (q.1 = none → q.2.isBlank = false)

/-- **Stretches without a label** stand after a jump. -/
theorem isChain_cut : ∀ (o : Option Label) (is : List Instr),
    List.IsChain Precedes ((o, (cut is).1) :: (cut is).2)
  | _, [] => .singleton _
  | o, i :: is => by
    obtain h | ⟨l, rfl⟩ | ⟨e, h, hi⟩ := i.ending_cases
    · rw [cut_of_ending_none h]
      obtain ⟨hhead, htail⟩ := List.isChain_cons.1 (isChain_cut o is)
      exact List.isChain_cons.2 ⟨hhead, htail⟩
    · refine (isChain_cut (some l) is).cons_cons ⟨_, rfl, fun m hm => ?_, nofun⟩
      rw [Ending.fall.inj hm]
    · rw [cut_of_jump h hi]
      have hfall : ∀ l, e = .fall l → ∀ q : Option Label × Stretch, q.1 = some l :=
        fun l hl => absurd hl (ne_fall_of_ending? h hi l)
      unfold Stretch.unlabelled
      split
      · rename_i hblank
        obtain ⟨hhead, htail⟩ := List.isChain_cons.1 (isChain_cut none is)
        refine List.isChain_cons.2 ⟨fun q hq => ⟨e, rfl, fun l hl => hfall l hl q, fun hq' => ?_⟩,
          htail⟩
        obtain ⟨e', he', hlabel, -⟩ := hhead q hq
        obtain ⟨l, rfl⟩ := Stretch.eq_fall_of_isBlank hblank he'
        rw [hlabel l rfl] at hq'
        cases hq'
      · rename_i hblank
        exact (isChain_cut none is).cons_cons ⟨e, rfl, fun l hl => hfall l hl _,
          fun _ => Bool.eq_false_iff.2 hblank⟩

end Cut

/-! ## Functions -/

namespace Function

/-- The code behind the parameters, up to the results. -/
def code (f : Function) : List Instr := (f.body.dropWhile fun i => !i.isParams).drop 1

/-- **The stretches of a function**, the first of which begins with the parameters. -/
def stretches (f : Function) : List (Option Label × Stretch) :=
  (some .entry, (cut f.code).1) :: (cut f.code).2

end Function

end Lane.Code
