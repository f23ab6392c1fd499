import Lane.Code.Draft
import Lane.Proofs.Code.Chains

set_option relaxedAutoImplicit false
set_option autoImplicit false

/-!
# Runs of edits

However chains are edited, their links describe sequences, and each edit that succeeds changes one
of these just as the insertion or the deletion in a list would. An edit fails if and only if it
inserts an item that is in a chain already or goes beside a mark that is not in the chain, and then
changes nothing.

## Main definitions

* `Lane.Code.Edit`: edits of chains.
* `Lane.Code.Edit.editRow`: what an edit does to the row of its chain.
* `Lane.Code.Edit.Allowed`, `Lane.Code.Edit.Breaks`: edits that follow the rules, and faults of
  others.
* `Lane.Code.Edit.Refines`: edits that do what they do to rows.

## Main results

* `Lane.Code.Chains.Represents.refines`: what one edit does.
* `Lane.Code.Chains.runs_refine`: what all runs of edits do.
* `Lane.Code.Draft.emit_isLinked`, `insertAfter_isLinked`, `remove_isLinked`: the bodies of drafts
  stay linked.
-/

namespace Lane.Code

variable {κ : Type}

/-! ## Operations -/

namespace Chains

section Operations

variable [DecidableEq κ] (name : String) (n : Nat) (x mark : κ) (c : Chains κ)

/-- Only an element that is in no chain is let in. -/
lemma run_requireFree : (requireFree name x).run c =
    if (c.chain? x).isSome then .error (used name) c else .ok () c := by
  unfold requireFree
  cases h : (c.chain? x).isSome <;> simp [h]

/-- A mark has to be in the chain. -/
lemma run_requireMark : (requireMark n mark).run c =
    if c.contains n mark then .ok () c else .error badMark c := by
  unfold requireMark
  cases h : c.contains n mark <;> simp [h]

/-- What linking at the end does, and when it fails. -/
lemma run_linkLast : (linkLast name n x).run c =
    if (c.chain? x).isSome then .error (used name) c
    else .ok () (c.attach n x (c.before n none) none) := by
  unfold linkLast
  cases h : (c.chain? x).isSome <;> simp [run_requireFree, h]

/-- What linking before a mark does, and when it fails. -/
lemma run_linkBefore : (linkBefore name n x mark).run c =
    if (c.chain? x).isSome then .error (used name) c
    else if c.contains n mark then .ok () (c.attach n x (c.prev? mark) (some mark))
    else .error badMark c := by
  unfold linkBefore
  cases h : (c.chain? x).isSome <;> cases hmark : c.contains n mark <;>
    simp [run_requireFree, run_requireMark, h, hmark]

/-- Linking at the start is linking before the first element, if there is one. -/
lemma run_linkFirst : (linkFirst name n x).run c = match c.after n none with
    | none => (linkLast name n x).run c
    | some first => (linkBefore name n x first).run c := by
  unfold linkFirst
  cases h : c.after n none <;> simp [h]

/-- Linking after a mark is linking before the next element, if there is one. -/
lemma run_linkAfter : (linkAfter name n x mark).run c = match c.next? mark with
    | none => if c.contains n mark then (linkLast name n x).run c else .error badMark c
    | some next => (linkBefore name n x next).run c := by
  unfold linkAfter
  cases h : c.next? mark with
  | none => cases hmark : c.contains n mark <;> simp [run_requireMark, h, hmark]
  | some next => simp [h]

/-- An element is unlinked if it is there. -/
lemma run_unlink : (unlink n x).run c =
    .ok () (if c.contains n x then c.detach n x else c) := by
  unfold unlink
  cases h : c.contains n x <;> simp [h]

end Operations

end Chains

/-! ## Edits -/

/-- Edits of chains, with the number of the chain first. -/
inductive Edit (κ : Type) where
  | pushBack (n : Nat) (x : κ)
  | pushFront (n : Nat) (x : κ)
  | insertBefore (n : Nat) (x mark : κ)
  | insertAfter (n : Nat) (x mark : κ)
  | remove (n : Nat) (x : κ)

namespace Edit

/-- The operation of an edit. -/
def operation [DecidableEq κ] (name : κ → String) : Edit κ → Chains.Operation κ Unit
  | pushBack n x => Chains.linkLast (name x) n x
  | pushFront n x => Chains.linkFirst (name x) n x
  | insertBefore n x mark => Chains.linkBefore (name x) n x mark
  | insertAfter n x mark => Chains.linkAfter (name x) n x mark
  | remove n x => Chains.unlink n x

/-- The chain of an edit. -/
def chain : Edit κ → Nat
  | pushBack n _ | pushFront n _ | insertBefore n _ _ | insertAfter n _ _ | remove n _ => n

/-- What an edit does to the row of its chain. -/
def editRow [DecidableEq κ] : Edit κ → List κ → List κ
  | pushBack _ x, r => r ++ [x]
  | pushFront _ x, r => x :: r
  | insertBefore _ x mark, r => r.insertIdx (r.idxOf mark) x
  | insertAfter _ x mark, r => r.insertIdx (r.idxOf mark + 1) x
  | remove _ x, r => r.erase x

/-- The item that an edit inserts. -/
def inserted? : Edit κ → Option κ
  | pushBack _ x | pushFront _ x | insertBefore _ x _ | insertAfter _ x _ => some x
  | remove _ _ => none

/-- The mark of an edit. -/
def mark? : Edit κ → Option κ
  | insertBefore _ _ mark | insertAfter _ _ mark => some mark
  | pushBack _ _ | pushFront _ _ | remove _ _ => none

/-- **Edits that follow the rules**: what they insert is in no chain, and their mark is in the one
that they edit. -/
def Allowed (rows : Nat → List κ) (e : Edit κ) : Prop :=
  (∀ x, e.inserted? = some x → ∀ m, x ∉ rows m) ∧ ∀ y, e.mark? = some y → y ∈ rows e.chain

/-- **Faults of edits that break the rules**. -/
def Breaks (name : κ → String) (rows : Nat → List κ) (e : Edit κ) (f : Fault) : Prop :=
  (∃ x m, e.inserted? = some x ∧ x ∈ rows m ∧ f = Chains.used (name x)) ∨
    ∃ y, e.mark? = some y ∧ y ∉ rows e.chain ∧ f = Chains.badMark

/-- An edit that breaks a rule is not allowed. -/
lemma Breaks.not_allowed {name : κ → String} {rows : Nat → List κ} {e : Edit κ} {f : Fault}
    (h : e.Breaks name rows f) : ¬e.Allowed rows := by
  rintro ⟨hfree, hmark⟩
  obtain ⟨x, m, hx, hmem, -⟩ | ⟨y, hy, hmem, -⟩ := h
  · exact hfree x hx m hmem
  · exact hmem (hmark y hy)

/-- **Edits that do what they do to rows**: an edit that follows the rules changes the row of its
chain alone, and one that does not fails and leaves all chains as they were. -/
def Refines [DecidableEq κ] (name : κ → String) (c : Chains κ) (rows : Nat → List κ)
    (e : Edit κ) : Prop :=
  (e.Allowed rows ∧ ∃ d, (e.operation name).run c = .ok () d ∧
    d.Represents (Function.update rows e.chain (e.editRow (rows e.chain)))) ∨
  (¬e.Allowed rows ∧ ∃ f, e.Breaks name rows f ∧ (e.operation name).run c = .error f c)

section Refines

variable [DecidableEq κ] {name : κ → String} {c : Chains κ} {rows : Nat → List κ} {e e' : Edit κ}

/-- An edit that breaks a rule fails with the fault for it. -/
lemma Refines.of_breaks {f : Fault} (h : e.Breaks name rows f)
    (hrun : (e.operation name).run c = .error f c) : e.Refines name c rows :=
  .inr ⟨h.not_allowed, f, h, hrun⟩

/-- An edit that comes down to another one. -/
lemma Refines.congr (h : e.Refines name c rows)
    (hrun : (e'.operation name).run c = (e.operation name).run c) (hchain : e'.chain = e.chain)
    (hrow : e'.editRow (rows e.chain) = e.editRow (rows e.chain))
    (hallowed : e.Allowed rows → e'.Allowed rows)
    (hbreaks : ∀ f, e.Breaks name rows f → e'.Breaks name rows f) : e'.Refines name c rows := by
  obtain ⟨ha, d, hd, hrows⟩ | ⟨-, f, hb, hf⟩ := h
  · refine .inl ⟨hallowed ha, d, hrun.trans hd, ?_⟩
    rw [hchain, hrow]
    exact hrows
  · exact .of_breaks (hbreaks f hb) (hrun.trans hf)

end Refines

end Edit

namespace Chains

namespace Represents

variable [DecidableEq κ] {c : Chains κ} {rows : Nat → List κ} {n : Nat} {x mark : κ}
  {name : String}

omit [DecidableEq κ] in
/-- Insertion at the end of a part. -/
lemma insertIdx_length (a b : List κ) (x : κ) : (a ++ b).insertIdx a.length x = a ++ x :: b := by
  induction a with
  | nil => rfl
  | cons y a ih => simp [ih]

/-- The place of an element between two parts. -/
lemma idxOf_middle {a : List κ} (ha : x ∉ a) (b : List κ) : (a ++ x :: b).idxOf x = a.length := by
  rw [List.idxOf_append_of_notMem ha, List.idxOf_cons_self, Nat.add_zero]

/-- An item that is in a chain is not inserted at the end of one. -/
lemma run_linkLast_used (h : c.Represents rows) {m : Nat} (hx : x ∈ rows m) :
    (linkLast name n x).run c = .error (used name) c := by
  rw [run_linkLast, if_pos (h.isSome_chain?_iff.2 ⟨m, hx⟩)]

/-- An element that is free is linked at the end. -/
lemma run_linkLast_free (h : c.Represents rows) (hx : ∀ m, x ∉ rows m) :
    ∃ d, (linkLast name n x).run c = .ok () d ∧
      d.Represents (Function.update rows n (rows n ++ [x])) := by
  have hfree : ¬(c.chain? x).isSome := fun hs => (h.isSome_chain?_iff.1 hs).elim hx
  rw [run_linkLast, if_neg hfree, h.before_none]
  exact ⟨_, rfl, h.attach (List.append_nil _).symm hx⟩

/-- An element that is used is not linked again. -/
lemma run_linkBefore_used (h : c.Represents rows) {m : Nat} (hx : x ∈ rows m) :
    (linkBefore name n x mark).run c = .error (used name) c := by
  rw [run_linkBefore, if_pos (h.isSome_chain?_iff.2 ⟨m, hx⟩)]

/-- An element that is free is linked before a mark. -/
lemma run_linkBefore_free (h : c.Represents rows) (hx : ∀ m, x ∉ rows m) {a b : List κ}
    (hrow : rows n = a ++ mark :: b) :
    ∃ d, (linkBefore name n x mark).run c = .ok () d ∧
      d.Represents (Function.update rows n (a ++ x :: mark :: b)) := by
  have hfree : ¬(c.chain? x).isSome := fun hs => (h.isSome_chain?_iff.1 hs).elim hx
  have hmark : c.contains n mark := h.contains_iff.2 (by simp [hrow])
  rw [run_linkBefore, if_neg hfree, if_pos hmark, (h.neighbours hrow).1]
  exact ⟨_, rfl, h.attach hrow hx⟩

/-- An element is not linked before a mark that is not there. -/
lemma run_linkBefore_badMark (h : c.Represents rows) (hx : ∀ m, x ∉ rows m)
    (hmark : mark ∉ rows n) : (linkBefore name n x mark).run c = .error badMark c := by
  have hfree : ¬(c.chain? x).isSome := fun hs => (h.isSome_chain?_iff.1 hs).elim hx
  rw [run_linkBefore, if_neg hfree, if_neg fun hm => hmark (h.contains_iff.1 hm)]

variable (name : κ → String)

/-- Pushing at the end refines appending to the row. -/
lemma refines_pushBack (h : c.Represents rows) (n : Nat) (x : κ) :
    (Edit.pushBack n x).Refines name c rows := by
  by_cases hx : ∃ m, x ∈ rows m
  · obtain ⟨m, hx⟩ := hx
    exact .of_breaks (.inl ⟨x, m, rfl, hx, rfl⟩) (h.run_linkLast_used hx)
  · have hx : ∀ m, x ∉ rows m := not_exists.1 hx
    refine .inl ⟨?_, h.run_linkLast_free hx⟩
    simp [Edit.Allowed, Edit.inserted?, Edit.mark?, hx]

/-- Insertion before a mark refines insertion into the row. -/
lemma refines_insertBefore (h : c.Represents rows) (n : Nat) (x mark : κ) :
    (Edit.insertBefore n x mark).Refines name c rows := by
  by_cases hx : ∃ m, x ∈ rows m
  · obtain ⟨m, hx⟩ := hx
    exact .of_breaks (.inl ⟨x, m, rfl, hx, rfl⟩) (h.run_linkBefore_used hx)
  have hx : ∀ m, x ∉ rows m := not_exists.1 hx
  by_cases hmark : mark ∈ rows n
  · obtain ⟨a, b, hrow, ha⟩ := List.eq_append_cons_of_mem hmark
    have hedit : (Edit.insertBefore n x mark).editRow (rows n) = a ++ x :: mark :: b := by
      rw [Edit.editRow, hrow, idxOf_middle ha, insertIdx_length]
    refine .inl ⟨?_, ?_⟩
    · simp [Edit.Allowed, Edit.inserted?, Edit.mark?, Edit.chain, hx, hmark]
    · rw [Edit.chain, hedit]
      exact h.run_linkBefore_free hx hrow
  · exact .of_breaks (.inr ⟨mark, rfl, hmark, rfl⟩) (h.run_linkBefore_badMark hx hmark)

/-- An item goes to the start of a row as it goes before the first one, if there is one. -/
lemma refines_pushFront (h : c.Represents rows) (n : Nat) (x : κ) :
    (Edit.pushFront n x).Refines name c rows := by
  have hrun := run_linkFirst (name x) n x c
  rw [h.after_none] at hrun
  cases hrow : rows n with
  | nil =>
    rw [hrow] at hrun
    refine (h.refines_pushBack name n x).congr hrun rfl ?_ id fun _ => id
    rw [Edit.chain, hrow]
    rfl
  | cons first r =>
    rw [hrow] at hrun
    have hfirst : first ∈ rows n := hrow ▸ List.mem_cons_self
    refine (h.refines_insertBefore name n x first).congr hrun rfl ?_ ?_ ?_
    · rw [Edit.chain, hrow, Edit.editRow, Edit.editRow, List.idxOf_cons_self]
      rfl
    · exact fun ha => ⟨ha.1, nofun⟩
    · rintro f (hused | ⟨y, hy, hmem, -⟩)
      · exact .inl hused
      · cases hy
        exact absurd hfirst hmem

/-- What follows an item in another chain is not in this one. -/
lemma notMem_of_next? (h : c.Represents rows) (hmark : mark ∉ rows n) {y : κ}
    (hy : c.next? mark = some y) : y ∉ rows n := by
  cases hchain : c.chain? mark with
  | none => simp [(h.free mark hchain).2] at hy
  | some m =>
    have hmem := (h.chain?_iff m mark).1 hchain
    have hm : m ≠ n := fun he => hmark (he ▸ hmem)
    obtain ⟨a, b, hrow⟩ := List.append_of_mem hmem
    rw [(h.neighbours hrow).2] at hy
    have hmemy : y ∈ rows m := by
      rw [hrow]
      exact List.mem_append_right a (List.mem_cons_of_mem mark (List.mem_of_head? hy))
    exact h.notMem_of_ne hm hmemy

/-- An item goes after a mark as it goes before the next item, if there is one. -/
lemma refines_insertAfter (h : c.Represents rows) (n : Nat) (x mark : κ) :
    (Edit.insertAfter n x mark).Refines name c rows := by
  have hrun := run_linkAfter (name x) n x mark c
  -- If the mark is in the row, inserting after it is pushing to the end, or inserting before the
  -- next item.
  by_cases hmark : mark ∈ rows n
  · obtain ⟨a, b, hrow, ha⟩ := List.eq_append_cons_of_mem hmark
    rw [(h.neighbours hrow).2, if_pos (h.contains_iff.2 hmark)] at hrun
    have hedit : (Edit.insertAfter n x mark).editRow (rows n) = a ++ mark :: x :: b := by
      have hsplit : a ++ mark :: b = (a ++ [mark]) ++ b := by simp
      have hlength : a.length + 1 = (a ++ [mark]).length := by simp
      rw [Edit.editRow, hrow, idxOf_middle ha, hlength, hsplit, insertIdx_length]
      simp
    cases b with
    | nil =>
      refine (h.refines_pushBack name n x).congr hrun rfl ?_ ?_ ?_
      · rw [Edit.chain, hedit, Edit.editRow, hrow]
        simp
      · exact fun hallowed => ⟨hallowed.1, fun y hy => Option.some.inj hy ▸ hmark⟩
      · rintro f (hused | ⟨y, hy, -⟩)
        · exact .inl hused
        · cases hy
    | cons y b =>
      have hy : y ∈ rows n := by simp [hrow]
      have hsplit : rows n = (a ++ [mark]) ++ y :: b := by simp [hrow]
      have hnot : y ∉ a ++ [mark] := fun hmem =>
        List.disjoint_of_nodup_append (hsplit ▸ h.nodup n) hmem List.mem_cons_self
      refine (h.refines_insertBefore name n x y).congr hrun rfl ?_ ?_ ?_
      · rw [Edit.chain, hedit, Edit.editRow, hsplit, idxOf_middle hnot, insertIdx_length]
        simp
      · exact fun hallowed => ⟨hallowed.1, fun z hz => Option.some.inj hz ▸ hmark⟩
      · rintro f (hused | ⟨z, hz, hmem, -⟩)
        · exact .inl hused
        · cases hz
          exact absurd hy hmem
  · -- If the mark is in no row of the chain, the call fails, whatever comes after the mark
    -- elsewhere.
    cases hnext : c.next? mark with
    | none =>
      rw [hnext, if_neg fun hc => hmark (h.contains_iff.1 hc)] at hrun
      exact .of_breaks (.inr ⟨mark, rfl, hmark, rfl⟩) hrun
    | some y =>
      rw [hnext] at hrun
      have hy := h.notMem_of_next? hmark hnext
      obtain ⟨ha, -⟩ | ⟨-, f, hbreaks, hf⟩ := h.refines_insertBefore name n x y
      · exact absurd (ha.2 y rfl) hy
      · refine .of_breaks ?_ (hrun.trans hf)
        obtain hused | ⟨z, hz, hmem, rfl⟩ := hbreaks
        · exact .inl hused
        · exact .inr ⟨mark, rfl, hmark, rfl⟩

/-- Removal refines erasing from the row. -/
lemma refines_remove (h : c.Represents rows) (n : Nat) (x : κ) :
    (Edit.remove n x).Refines name c rows := by
  refine .inl ⟨by simp [Edit.Allowed, Edit.inserted?, Edit.mark?], ?_⟩
  rw [Edit.operation, run_unlink]
  refine ⟨_, rfl, ?_⟩
  by_cases hx : x ∈ rows n
  · obtain ⟨a, b, hrow, ha⟩ := List.eq_append_cons_of_mem hx
    rw [if_pos (h.contains_iff.2 hx), Edit.editRow, Edit.chain, hrow,
      List.erase_append_right _ ha, List.erase_cons_head]
    exact h.detach hrow
  · rw [if_neg fun hc => hx (h.contains_iff.1 hc), Edit.editRow, Edit.chain,
      List.erase_of_not_mem hx, Function.update_eq_self]
    exact h

/-- **Edits of sequences**: an edit that follows the rules changes the row of its chain alone, and
one that does not fails and changes nothing. -/
theorem refines (h : c.Represents rows) (e : Edit κ) : e.Refines name c rows := by
  cases e with
  | pushBack n x => exact h.refines_pushBack name n x
  | pushFront n x => exact h.refines_pushFront name n x
  | insertBefore n x mark => exact h.refines_insertBefore name n x mark
  | insertAfter n x mark => exact h.refines_insertAfter name n x mark
  | remove n x => exact h.refines_remove name n x

end Represents

/-! ## Runs -/

/-- **Linked chains**: their links describe the rows that are found by following them. -/
def IsLinked [DecidableEq κ] (c : Chains κ) : Prop := c.Represents c.row

/-- The chains that a run of edits leaves; it goes on after an edit that failed. -/
def run [DecidableEq κ] (name : κ → String) (c : Chains κ) (es : List (Edit κ)) : Chains κ :=
  es.foldl (fun c e => c.leave (e.operation name)) c

section Runs

variable [DecidableEq κ] {c : Chains κ} {rows : Nat → List κ}

/-- The rows that chains represent are what a walk finds. -/
lemma Represents.eq_row (h : c.Represents rows) : rows = c.row := funext fun n => (h.row_eq n).symm

/-- Chains that represent rows are linked. -/
lemma Represents.isLinked (h : c.Represents rows) : c.IsLinked := by
  rw [IsLinked, ← h.eq_row]
  exact h

/-- **Step**: linked chains stay so. -/
lemma IsLinked.step (h : c.IsLinked) (name : κ → String) (e : Edit κ) :
    (c.leave (e.operation name)).IsLinked := by
  obtain ⟨-, d, hrun, hd⟩ | ⟨-, f, -, hrun⟩ := Represents.refines name h e
  · have hleave : c.leave (e.operation name) = d := by rw [leave, hrun]
    exact hleave ▸ hd.isLinked
  · have hleave : c.leave (e.operation name) = c := by rw [leave, hrun]
    exact hleave.symm ▸ h

/-- An edit that succeeds leaves chains linked. -/
lemma IsLinked.of_apply (h : c.IsLinked) {name : κ → String} {e : Edit κ} {d : Chains κ}
    (hd : c.apply (e.operation name) = .ok d) : d.IsLinked := by
  have hstep := h.step name e
  unfold leave at hstep
  unfold apply at hd
  split at hd
  · rename_i hrun
    rw [hrun, Except.ok.inj hd] at hstep
    exact hstep
  · cases hd

/-- **Run**: linked chains stay so in a run of edits. -/
lemma IsLinked.run (name : κ → String) : ∀ (es : List (Edit κ)) {c : Chains κ}, c.IsLinked →
    (c.run name es).IsLinked
  | [], _, h => h
  | e :: es, _, h => IsLinked.run name es (h.step name e)

/-- **Runs of edits** of empty chains: what they leave are sequences, each item is in at most one of
them, and every further edit does to these what it does to rows. -/
theorem runs_refine (name : κ → String) (k : Nat) (es : List (Edit κ)) :
    ((empty k).run name es).IsLinked ∧
    (∀ n x, ((empty k).run name es).contains n x ↔ x ∈ ((empty k).run name es).row n) ∧
    (∀ m n x, x ∈ ((empty k).run name es).row m → x ∈ ((empty k).run name es).row n → m = n) ∧
    ∀ e : Edit κ, e.Refines name ((empty k).run name es) ((empty k).run name es).row := by
  have h : ((empty k : Chains κ).run name es).IsLinked :=
    IsLinked.run name es (represents_empty k).isLinked
  exact ⟨h, fun n x => h.contains_iff, fun m n x hm hn => h.unique hm hn,
    fun e => Represents.refines name h e⟩

example : ((empty 2).run (fun x : Nat => toString x) [.pushBack 0 2, .pushFront 0 1,
    .insertAfter 0 3 2, .pushBack 1 2, .remove 0 2, .insertBefore 0 2 3]).row 0 = [1, 2, 3] := by
  decide

end Runs

end Chains

/-! ## Drafts -/

namespace Draft

variable {d d' : Draft} {i : Instr} {item mark : Item}

/-- A new draft is linked. -/
lemma new_isLinked (decl : FuncDecl) : (new decl).body.IsLinked :=
  (Chains.represents_ofRow (by decide)).isLinked

/-- The body of a draft stays linked if it is changed by an edit. -/
lemma insert_isLinked {put : Chains Item → String → Item → Checked (Chains Item)}
    (e : Item → Edit Item)
    (hput : ∀ c text x, put c text x = c.apply ((e x).operation fun _ => text))
    (h : d.body.IsLinked) (hd : d.insert i put = .ok (d', item)) : d'.body.IsLinked := by
  have hlinked := fun c (hc : put d.body (i.text d.params d.results) (d.itemOf i) = .ok c) =>
    h.of_apply ((hput ..).symm.trans hc)
  simp only [insert] at hd
  cases hc : put d.body (i.text d.params d.results) (d.itemOf i) with
  | error f =>
    rw [hc] at hd
    cases hd
  | ok c =>
    rw [hc] at hd
    obtain ⟨rfl, -⟩ := Prod.ext_iff.1 (Except.ok.inj hd)
    exact hlinked c hc

/-- Emission leaves a draft linked. -/
theorem emit_isLinked (h : d.body.IsLinked) (hd : d.emit i = .ok (d', item)) :
    d'.body.IsLinked :=
  insert_isLinked (fun x => .insertBefore 0 x (.label .epilogue)) (fun _ _ _ => rfl) h hd

/-- Insertion leaves a draft linked. -/
theorem insertAfter_isLinked (h : d.body.IsLinked) (hd : d.insertAfter i mark = .ok (d', item)) :
    d'.body.IsLinked :=
  insert_isLinked (fun x => .insertAfter 0 x mark) (fun _ _ _ => rfl) h hd

/-- Removal leaves a draft linked. -/
theorem remove_isLinked (h : d.body.IsLinked) (mark : Item) : (d.remove mark).body.IsLinked :=
  h.step (fun _ => "") (.remove 0 mark)

end Draft

end Lane.Code
