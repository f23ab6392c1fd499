import Lane.Code.Chains
import Mathlib.Data.List.Induction
import Mathlib.Data.List.Nodup
import Mathlib.Data.List.Perm.Subperm
import Mathlib.Logic.Function.Basic
import Mathlib.Tactic.Lemma

set_option relaxedAutoImplicit false
set_option autoImplicit false

/-!
# Chains are sequences

The links of items and the ends of chains describe sequences: they lead forward and backward through
the items of a row. An item that is attached between neighbours in a row is inserted there, and an
item that is detached is taken out of its row; all other rows stay as they are.

## Main definitions

* `Lane.Code.Leads`: rows that links lead through.
* `Lane.Code.Chains.Represents`: chains whose links describe some rows.

## Main results

* `Lane.Code.leads_insert`, `Lane.Code.leads_erase`: links that lead through rows with an item more
  or less.
* `Lane.Code.Chains.Represents.attach`, `Lane.Code.Chains.Represents.detach`: rows after a change of
  the links.
* `Lane.Code.Chains.Represents.row_eq`: rows are found by following the links.
-/

namespace Lane.Code

/-! ## Records -/

namespace Records

variable {α β : Type} [DecidableEq α]

/-- Other entries are not removed. -/
lemma lookup_filter_ne {a a' : α} (h : a' ≠ a) : ∀ es : List (α × β),
    (es.filter fun e => e.1 ≠ a).lookup a' = es.lookup a'
  | [] => rfl
  | (k, v) :: es => by
    have ih := lookup_filter_ne h es
    by_cases hk : k = a
    · have hne : (a' == k) = false := beq_false_of_ne fun he => h (he.trans hk)
      rw [List.filter_cons_of_neg (by simpa using hk), List.lookup_cons, hne, ih]
    · rw [List.filter_cons_of_pos (by simpa using hk), List.lookup_cons, List.lookup_cons, ih]

variable [Inhabited β]

/-- What is set is found, and nothing else has changed. -/
lemma get_set (r : Records α β) (a : α) (b : β) (a' : α) :
    (r.set a b).get a' = if a' = a then b else r.get a' := by
  unfold get set
  split
  · simp [*]
  · rw [List.lookup_cons, beq_false_of_ne ‹_›, lookup_filter_ne ‹_›]

/-- What is updated is found, and nothing else has changed. -/
lemma get_update (r : Records α β) (a : α) (f : β → β) (a' : α) :
    (r.update a f).get a' = if a' = a then f (r.get a) else r.get a' := get_set r a _ a'

end Records

/-! ## Rows that links lead through -/

section Leads

variable {κ : Type} {f g : Option κ → Option κ} {s : Option κ} {r a b : List κ} {x : κ}

/-- **Rows that links lead through**: `f` leads from `s` to the first item of the row, from each
item to the next one, and from the last one to nothing. -/
def Leads (f : Option κ → Option κ) : Option κ → List κ → Prop
  | s, [] => f s = none
  | s, x :: r => f s = some x ∧ Leads f (some x) r

/-- A row is led through by any function that agrees on it. -/
lemma Leads.congr : ∀ {r : List κ} {s : Option κ}, Leads f s r → g s = f s →
    (∀ x ∈ r, g (some x) = f (some x)) → Leads g s r
  | [], _, h, hs, _ => hs.trans h
  | _ :: _, _, h, hs, hr =>
    ⟨hs.trans h.1, h.2.congr (hr _ List.mem_cons_self) fun x hx =>
      hr x (List.mem_cons_of_mem _ hx)⟩

/-- The last element of a row, or what is before the row. -/
lemma getLast?_cons_or (x : κ) (a : List κ) (s : Option κ) :
    (x :: a).getLast?.or s = a.getLast?.or (some x) := by
  rw [List.getLast?_cons, Option.some_or, ← Option.or_some]

/-- What follows the first part of a row is the start of the rest. -/
lemma Leads.next : ∀ {a : List κ} {s : Option κ}, Leads f s (a ++ b) →
    f (a.getLast?.or s) = b.head?
  | [], s, h => by
    cases b with
    | nil => exact h
    | cons y b => exact h.1
  | x :: a, s, h => by
    rw [getLast?_cons_or]
    exact Leads.next h.2

/-- What is before a row without repetitions is not in it. -/
lemma some_ne_of_nodup (h : (s.toList ++ r).Nodup) (hx : x ∈ r) : some x ≠ s := by
  rintro rfl
  exact (List.nodup_cons.1 h).1 hx

/-- What is before a row is not its last element. -/
lemma ne_getLast?_or (h : (s.toList ++ (x :: a ++ r)).Nodup) : s ≠ a.getLast?.or (some x) := by
  have hlast : (x :: a).getLast? = a.getLast?.or (some x) := by
    rw [← getLast?_cons_or x a none, Option.or_none]
  have hmem : a.getLast?.getD x ∈ x :: a := List.mem_of_getLast? (hlast.trans Option.or_some)
  rw [Option.or_some]
  exact (some_ne_of_nodup h (List.mem_append_left r hmem)).symm

/-- A new item is led through if what was before it leads to it, and it leads to what was next. -/
lemma Leads.insert : ∀ {a : List κ} {s : Option κ}, Leads f s (a ++ b) →
    (s.toList ++ (a ++ x :: b)).Nodup → g (a.getLast?.or s) = some x → g (some x) = b.head? →
    (∀ q, q ≠ some x → q ≠ a.getLast?.or s → g q = f q) → Leads g s (a ++ x :: b)
  | [], s, h, hnodup, hlast, hx, hother => by
    refine ⟨hlast, ?_⟩
    have hsame : ∀ z ∈ b, g (some z) = f (some z) := fun z hz =>
      hother _ (some_ne_of_nodup hnodup.of_append_right hz)
        (some_ne_of_nodup hnodup (List.mem_cons_of_mem x hz))
    cases b with
    | nil => exact hx
    | cons y b =>
      obtain ⟨hy, hb⟩ := List.forall_mem_cons.1 hsame
      exact ⟨hx, h.2.congr hy hb⟩
  | y :: a, s, h, hnodup, hlast, hx, hother => by
    rw [getLast?_cons_or] at hlast hother
    have hs : some x ≠ s := some_ne_of_nodup hnodup (by simp)
    refine ⟨(hother s hs.symm (ne_getLast?_or hnodup)).trans h.1, ?_⟩
    exact h.2.insert hnodup.of_append_right hlast hx hother

/-- An item is not led through any more if what was before it leads to what was next. -/
lemma Leads.erase : ∀ {a : List κ} {s : Option κ}, Leads f s (a ++ x :: b) →
    (s.toList ++ (a ++ x :: b)).Nodup → g (a.getLast?.or s) = b.head? →
    (∀ q, q ≠ some x → q ≠ a.getLast?.or s → g q = f q) → Leads g s (a ++ b)
  | [], s, h, hnodup, hlast, hother => by
    have hsame : ∀ z ∈ b, g (some z) = f (some z) := fun z hz =>
      hother _ (some_ne_of_nodup hnodup.of_append_right hz)
        (some_ne_of_nodup hnodup (List.mem_cons_of_mem x hz))
    cases b with
    | nil => exact hlast
    | cons y b =>
      obtain ⟨hy, hb⟩ := List.forall_mem_cons.1 hsame
      exact ⟨hlast, h.2.2.congr hy hb⟩
  | y :: a, s, h, hnodup, hlast, hother => by
    rw [getLast?_cons_or] at hlast hother
    have hs : some x ≠ s := some_ne_of_nodup hnodup (by simp)
    refine ⟨(hother s hs.symm (ne_getLast?_or hnodup)).trans h.1, ?_⟩
    exact h.2.erase hnodup.of_append_right hlast hother

/-! ### Several rows -/

variable {F G : Nat → Option κ → Option κ} {rows : Nat → List κ} {n : Nat}

/-- **Rows that may replace another one**: without duplicates, and apart from all other rows. -/
structure MayReplace (rows : Nat → List κ) (n : Nat) (r : List κ) : Prop where
  nodup : r.Nodup
  disjoint : ∀ m, m ≠ n → ∀ z ∈ rows m, z ∉ r

/-- A row that may be replaced may be replaced in reverse. -/
lemma MayReplace.reverse (h : MayReplace rows n (a ++ x :: b)) :
    MayReplace (fun m => (rows m).reverse) n (b.reverse ++ x :: a.reverse) := by
  have hreverse : b.reverse ++ x :: a.reverse = (a ++ x :: b).reverse := by simp
  rw [hreverse]
  refine ⟨List.nodup_reverse.2 h.nodup, fun m hm z hz => ?_⟩
  rw [List.mem_reverse]
  exact h.disjoint m hm z (List.mem_reverse.1 hz)

/-- What is changed at an item and at its neighbours in one row is not changed for another row. -/
lemma Leads.other {f g : Option κ → Option κ} {r : List κ} {m : Nat} (h : Leads f none r)
    (hm : m ≠ n) (hr : ∀ z ∈ r, z ∉ a ++ x :: b)
    (hg : ∀ q, q ≠ some x → ¬(q = a.getLast? ∧ (a.getLast? = none → m = n)) → g q = f q) :
    Leads g none r := by
  refine h.congr ?_ fun z hz => ?_
  · exact hg none (by simp) fun hq => hm (hq.2 hq.1.symm)
  · have hzx : some z ≠ some x := fun he =>
      hr z hz (Option.some.inj he ▸ List.mem_append_right a List.mem_cons_self)
    have hza : some z ≠ a.getLast? := fun he =>
      hr z hz (List.mem_append_left _ (List.mem_of_getLast? he.symm))
    exact hg _ hzx fun hq => hza hq.1

variable [DecidableEq κ]

/-- **Insertion** of an item into one of several rows. -/
lemma leads_insert (hF : ∀ m, Leads (F m) none (rows m)) (hrow : rows n = a ++ b)
    (hnew : MayReplace rows n (a ++ x :: b))
    (hG : ∀ m o, G m o = if o = a.getLast? ∧ (a.getLast? = none → m = n) then some x
      else if o = some x then b.head? else F m o) (m : Nat) :
    Leads (G m) none (Function.update rows n (a ++ x :: b) m) := by
  have hxa : some x ≠ a.getLast? := fun he =>
    List.disjoint_of_nodup_append hnew.nodup (List.mem_of_getLast? he.symm) List.mem_cons_self
  by_cases hm : m = n
  · subst hm
    rw [Function.update_self]
    refine Leads.insert (hrow ▸ hF m) hnew.nodup ?_ ?_ fun q hqx hq => ?_
    · rw [Option.or_none, hG]
      simp
    · rw [hG, if_neg (fun h => hxa h.1), if_pos rfl]
    · rw [Option.or_none] at hq
      rw [hG, if_neg (fun h => hq h.1), if_neg hqx]
  · rw [Function.update_of_ne hm]
    refine (hF m).other hm (hnew.disjoint m hm) fun q hqx hq => ?_
    rw [hG, if_neg hq, if_neg hqx]

/-- **Deletion** of an item from one of several rows. -/
lemma leads_erase (hF : ∀ m, Leads (F m) none (rows m)) (hrow : rows n = a ++ x :: b)
    (hold : MayReplace rows n (a ++ x :: b))
    (hG : ∀ m o, G m o = if o = some x then none
      else if o = a.getLast? ∧ (a.getLast? = none → m = n) then b.head? else F m o) (m : Nat) :
    Leads (G m) none (Function.update rows n (a ++ b) m) := by
  have hxa : a.getLast? ≠ some x := fun he =>
    List.disjoint_of_nodup_append hold.nodup (List.mem_of_getLast? he) List.mem_cons_self
  by_cases hm : m = n
  · subst hm
    rw [Function.update_self]
    refine Leads.erase (hrow ▸ hF m) hold.nodup ?_ fun q hqx hq => ?_
    · rw [Option.or_none, hG, if_neg hxa]
      simp
    · rw [Option.or_none] at hq
      rw [hG, if_neg hqx, if_neg (fun h => hq h.1)]
  · rw [Function.update_of_ne hm]
    refine (hF m).other hm (hold.disjoint m hm) fun q hqx hq => ?_
    rw [hG, if_neg hqx, if_neg hq]

end Leads

namespace Chains

variable {κ : Type} [DecidableEq κ] (c : Chains κ) (m n : Nat) (x y : κ) (p q o : Option κ)

/-! ## Changed links -/

/-- Setting what is after an element shows there only. -/
lemma after_setAfter : (c.setAfter n p o).after m q =
    if q = p ∧ (p = none → m = n) then o else c.after m q := by
  cases p <;> cases q <;> grind [setAfter, after, Records.get_update]

/-- It does not show in what is before an element. -/
lemma before_setAfter : (c.setAfter n p o).before m q = c.before m q := by
  cases p <;> cases q <;> grind [setAfter, before, Records.get_update]

/-- Setting what is after an element changes no chain. -/
lemma chain?_setAfter : (c.setAfter n p o).chain? x = c.chain? x := by
  cases p <;> grind [setAfter, chain?, Records.get_update]

/-- Setting what is after an element changes no length. -/
lemma length_setAfter : (c.setAfter n p o).length m = c.length m := by
  cases p <;> grind [setAfter, length, Records.get_update]

/-- Setting what is before an element does not show in what is after one. -/
lemma after_setBefore : (c.setBefore n p o).after m q = c.after m q := by
  cases p <;> cases q <;> grind [setBefore, after, Records.get_update]

/-- Setting what is before an element shows there only. -/
lemma before_setBefore : (c.setBefore n p o).before m q =
    if q = p ∧ (p = none → m = n) then o else c.before m q := by
  cases p <;> cases q <;> grind [setBefore, before, Records.get_update]

/-- Setting what is before an element changes no chain. -/
lemma chain?_setBefore : (c.setBefore n p o).chain? x = c.chain? x := by
  cases p <;> grind [setBefore, chain?, Records.get_update]

/-- Setting what is before an element changes no length. -/
lemma length_setBefore : (c.setBefore n p o).length m = c.length m := by
  cases p <;> grind [setBefore, length, Records.get_update]

variable (l : Link κ) (k : Int)

/-- A link says what is after its element. -/
lemma after_setLink : (c.setLink n x l k).after m q =
    if q = some x then l.next else c.after m q := by
  cases q <;> grind [setLink, after, Records.get_update, Records.get_set]

/-- A link says what is before its element. -/
lemma before_setLink : (c.setLink n x l k).before m q =
    if q = some x then l.prev else c.before m q := by
  cases q <;> grind [setLink, before, Records.get_update, Records.get_set]

/-- A link says in which chain its element is. -/
lemma chain?_setLink : (c.setLink n x l k).chain? y = if y = x then l.chain else c.chain? y := by
  grind [setLink, chain?, Records.get_set]

/-- A link changes the length of its chain. -/
lemma length_setLink : (c.setLink n x l k).length m =
    if m = n then c.length m + k else c.length m := by
  grind [setLink, length, Records.get_update]

/-! ## Attached and detached items -/

/-- What is after an element once `x` is attached between `p` and `q`. -/
lemma after_attach : (c.attach n x p q).after m o =
    if o = p ∧ (p = none → m = n) then some x else if o = some x then q else c.after m o := by
  rw [attach, after_setBefore, after_setAfter, after_setLink]

/-- What is before an element once `x` is attached between `p` and `q`. -/
lemma before_attach : (c.attach n x p q).before m o =
    if o = q ∧ (q = none → m = n) then some x else if o = some x then p else c.before m o := by
  rw [attach, before_setBefore, before_setAfter, before_setLink]

/-- An element that is attached is in its chain. -/
lemma chain?_attach : (c.attach n x p q).chain? y = if y = x then some n else c.chain? y := by
  rw [attach, chain?_setBefore, chain?_setAfter, chain?_setLink]

/-- An element that is attached makes its chain longer. -/
lemma length_attach : (c.attach n x p q).length m =
    if m = n then c.length m + 1 else c.length m := by
  rw [attach, length_setBefore, length_setAfter, length_setLink]

/-- What is after an element once `x` is detached. -/
lemma after_detach : (c.detach n x).after m o =
    if o = some x then none
    else if o = c.prev? x ∧ (c.prev? x = none → m = n) then c.next? x else c.after m o := by
  rw [detach, after_setLink, after_setBefore, after_setAfter]

/-- What is before an element once `x` is detached. -/
lemma before_detach : (c.detach n x).before m o =
    if o = some x then none
    else if o = c.next? x ∧ (c.next? x = none → m = n) then c.prev? x else c.before m o := by
  rw [detach, before_setLink, before_setBefore, before_setAfter]

/-- An element that is detached is in no chain. -/
lemma chain?_detach : (c.detach n x).chain? y = if y = x then none else c.chain? y := by
  rw [detach, chain?_setLink, chain?_setBefore, chain?_setAfter]

/-- An element that is detached makes its chain shorter. -/
lemma length_detach : (c.detach n x).length m =
    if m = n then c.length m + -1 else c.length m := by
  rw [detach, length_setLink, length_setBefore, length_setAfter]

/-! ## Sequences -/

/-- **Chains as sequences**: each chain has a row without duplicates. From the head of the chain the
links lead forward through it, and from the tail backward. The chain has as many items as it says,
and an item is in the row if and only if its link says so. Items in no chain have no neighbours. -/
structure Represents (c : Chains κ) (rows : Nat → List κ) : Prop where
  nodup : ∀ n, (rows n).Nodup
  forward : ∀ n, Leads (c.after n) none (rows n)
  backward : ∀ n, Leads (c.before n) none (rows n).reverse
  length_eq : ∀ n, c.length n = (rows n).length
  chain?_iff : ∀ n x, c.chain? x = some n ↔ x ∈ rows n
  free : ∀ x, c.chain? x = none → c.prev? x = none ∧ c.next? x = none

variable {c m n x p} {rows : Nat → List κ} {a b : List κ}

/-- New chains represent empty rows. -/
lemma represents_empty (k : Nat) : (empty k : Chains κ).Represents fun _ => [] := by
  have hends : ∀ n, (empty k : Chains κ).ends.get n = {} := by
    intro n
    rw [Records.get]
    cases hlookup : (empty k : Chains κ).ends.entries.lookup n with
    | none => rfl
    | some e =>
      obtain ⟨pre, post, hentries, -⟩ := List.lookup_eq_some_iff.1 hlookup
      have hmem : (n, e) ∈ (empty k : Chains κ).ends.entries := by simp [hentries]
      obtain ⟨i, -, hi⟩ := List.mem_map.1 hmem
      exact (Prod.ext_iff.1 hi).2.symm
  have hlinks : ∀ x, (empty k : Chains κ).links.get x = {} := fun _ => rfl
  constructor <;> intros <;>
    simp [Leads, after, before, length, chain?, prev?, next?, hends, hlinks]

namespace Represents

/-- An element is in one row only. -/
lemma unique (h : c.Represents rows) (hm : x ∈ rows m) (hn : x ∈ rows n) : m = n :=
  Option.some.inj (((h.chain?_iff m x).2 hm).symm.trans ((h.chain?_iff n x).2 hn))

/-- The neighbours of an item. -/
lemma neighbours (h : c.Represents rows) (hrow : rows n = a ++ x :: b) :
    c.prev? x = a.getLast? ∧ c.next? x = b.head? := by
  have hforward : Leads (c.after n) none ((a ++ [x]) ++ b) := by
    rw [List.append_assoc, List.singleton_append, ← hrow]
    exact h.forward n
  have hbackward : Leads (c.before n) none ((b.reverse ++ [x]) ++ a.reverse) := by
    have hreverse : (b.reverse ++ [x]) ++ a.reverse = (rows n).reverse := by simp [hrow]
    rw [hreverse]
    exact h.backward n
  have hnext := hforward.next
  have hprev := hbackward.next
  rw [List.getLast?_concat, Option.some_or] at hnext hprev
  rw [List.head?_reverse] at hprev
  exact ⟨hprev, hnext⟩

/-- An element of a row is in no other. -/
lemma notMem_of_ne (h : c.Represents rows) (hm : m ≠ n) (hx : x ∈ rows m) : x ∉ rows n :=
  fun hn => hm (h.unique hx hn)

omit [DecidableEq κ] in
/-- Another row, read backward. -/
lemma reverse_update (rows : Nat → List κ) (n : Nat) (r : List κ) (m : Nat) :
    (Function.update rows n r m).reverse =
      Function.update (fun m => (rows m).reverse) n r.reverse m :=
  Function.apply_update (fun _ => List.reverse) rows n r m

/-- An item in no chain is none of the neighbours in one. -/
lemma some_ne_of_free (h : c.Represents rows) (hx : c.chain? x = none)
    (hp : ∀ y, p = some y → y ∈ rows n) : some x ≠ p := by
  intro he
  rw [(h.chain?_iff n x).2 (hp x he.symm)] at hx
  cases hx

/-- An item in no chain is not beside a place in one. -/
lemma some_ne_beside (h : c.Represents rows) {z : κ} (hz : c.chain? z = none)
    (hsub : ∀ y ∈ a ++ b, y ∈ rows n) : some z ≠ a.getLast? ∧ some z ≠ b.head? :=
  ⟨h.some_ne_of_free hz fun y hy => hsub y (List.mem_append_left b (List.mem_of_getLast? hy)),
    h.some_ne_of_free hz fun y hy => hsub y (List.mem_append_right a (List.mem_of_head? hy))⟩

/-- **Insertion**: an item that is attached at some place of a row is there in the new row. -/
lemma attach (h : c.Represents rows) (hrow : rows n = a ++ b) (hx : ∀ m, x ∉ rows m) :
    (c.attach n x a.getLast? b.head?).Represents (Function.update rows n (a ++ x :: b)) := by
  have hold : (a ++ b).Nodup := hrow ▸ h.nodup n
  have hnodup : (a ++ x :: b).Nodup :=
    List.nodup_middle.2 (List.nodup_cons.2 ⟨hrow ▸ hx n, hold⟩)
  have hmem : ∀ z, z ∈ a ++ x :: b ↔ z = x ∨ z ∈ rows n := fun z => by
    rw [List.perm_middle.mem_iff, List.mem_cons, hrow]
  have hnew : MayReplace rows n (a ++ x :: b) := by
    refine ⟨hnodup, fun m hm z hz hmem' => ?_⟩
    obtain rfl | hmem' := (hmem z).1 hmem'
    · exact hx m hz
    · exact h.notMem_of_ne hm hz hmem'
  refine ⟨?nodup, ?forward, ?backward, ?length, ?chain, ?free⟩
  case nodup =>
    exact (Function.forall_update_iff rows fun _ r => r.Nodup).2 ⟨hnodup, fun m _ => h.nodup m⟩
  case forward => exact leads_insert h.forward hrow hnew fun m o => after_attach ..
  case backward =>
    intro m
    have hreverse : (a ++ x :: b).reverse = b.reverse ++ x :: a.reverse := by simp
    have hrows : (rows n).reverse = b.reverse ++ a.reverse := by rw [hrow, List.reverse_append]
    rw [reverse_update, hreverse]
    refine leads_insert h.backward hrows hnew.reverse (fun m o => ?_) m
    rw [before_attach, List.getLast?_reverse, List.head?_reverse]
  case length =>
    refine (Function.forall_update_iff rows fun m (r : List κ) =>
      (c.attach n x a.getLast? b.head?).length m = r.length).2 ⟨?_, fun m hm => ?_⟩
    · rw [length_attach, if_pos rfl, h.length_eq, hrow]
      simp only [List.length_append, List.length_cons]
      omega
    · rw [length_attach, if_neg hm, h.length_eq]
  case chain =>
    refine (Function.forall_update_iff rows fun m r => ∀ z,
      (c.attach n x a.getLast? b.head?).chain? z = some m ↔ z ∈ r).2
      ⟨fun z => ?_, fun m hm z => ?_⟩
    · rw [chain?_attach, hmem, ← h.chain?_iff]
      split <;> simp [*]
    · rw [chain?_attach, ← h.chain?_iff]
      split
      · rename_i hz
        have hnone : c.chain? z ≠ some m := fun hc => hx m (hz ▸ (h.chain?_iff m z).1 hc)
        simp [hnone, Ne.symm hm]
      · rfl
  -- A free item is not `x`, and no item of the row has it as a neighbour.
  case free =>
    intro z hz
    rw [chain?_attach] at hz
    split at hz
    · cases hz
    rename_i hzx
    obtain ⟨hlast, hhead⟩ := h.some_ne_beside hz fun y hy => hrow ▸ hy
    have hafter := after_attach c n n x a.getLast? b.head? (some z)
    have hbefore := before_attach c n n x a.getLast? b.head? (some z)
    rw [if_neg (fun hc => hlast hc.1), if_neg (by simpa using hzx)] at hafter
    rw [if_neg (fun hc => hhead hc.1), if_neg (by simpa using hzx)] at hbefore
    exact ⟨hbefore.trans (h.free z hz).1, hafter.trans (h.free z hz).2⟩

/-- **Deletion**: an item that is detached is missing in the new row. -/
lemma detach (h : c.Represents rows) (hrow : rows n = a ++ x :: b) :
    (c.detach n x).Represents (Function.update rows n (a ++ b)) := by
  obtain ⟨hprev, hnext⟩ := h.neighbours hrow
  have hnodup : (a ++ x :: b).Nodup := hrow ▸ h.nodup n
  obtain ⟨hx, hnew⟩ := List.nodup_cons.1 (List.nodup_middle.1 hnodup)
  have hmem : ∀ z, z ∈ rows n ↔ z = x ∨ z ∈ a ++ b := fun z => by
    rw [hrow, List.perm_middle.mem_iff, List.mem_cons]
  have hold : MayReplace rows n (a ++ x :: b) :=
    ⟨hnodup, fun m hm z hz => hrow ▸ h.notMem_of_ne hm hz⟩
  refine ⟨?nodup, ?forward, ?backward, ?length, ?chain, ?free⟩
  case nodup =>
    exact (Function.forall_update_iff rows fun _ r => r.Nodup).2 ⟨hnew, fun m _ => h.nodup m⟩
  case forward =>
    refine leads_erase h.forward hrow hold fun m o => ?_
    rw [after_detach, hprev, hnext]
  case backward =>
    intro m
    have hreverse : (rows n).reverse = b.reverse ++ x :: a.reverse := by simp [hrow]
    rw [reverse_update, List.reverse_append]
    refine leads_erase h.backward hreverse hold.reverse (fun m o => ?_) m
    rw [before_detach, hprev, hnext, List.getLast?_reverse, List.head?_reverse]
  case length =>
    refine (Function.forall_update_iff rows fun m (r : List κ) =>
      (c.detach n x).length m = r.length).2 ⟨?_, fun m hm => ?_⟩
    · rw [length_detach, if_pos rfl, h.length_eq, hrow]
      simp only [List.length_append, List.length_cons]
      omega
    · rw [length_detach, if_neg hm, h.length_eq]
  case chain =>
    refine (Function.forall_update_iff rows fun m r => ∀ z,
      (c.detach n x).chain? z = some m ↔ z ∈ r).2 ⟨fun z => ?_, fun m hm z => ?_⟩
    · rw [chain?_detach]
      split
      · rename_i hz
        simpa [hz] using hx
      · rw [h.chain?_iff, hmem]
        simp [*]
    · rw [chain?_detach]
      split
      · rename_i hz
        have hzm : z ∉ rows m := fun hzm => h.notMem_of_ne hm hzm ((hmem z).2 (.inl hz))
        simp [hzm]
      · exact h.chain?_iff m z
  case free =>
    intro z hz
    have hafter := after_detach c n n x (some z)
    have hbefore := before_detach c n n x (some z)
    rw [chain?_detach] at hz
    rw [hprev, hnext] at hafter hbefore
    split at hz
    · rename_i hzx
      rw [if_pos (by rw [hzx])] at hafter hbefore
      exact ⟨hbefore, hafter⟩
    · rename_i hzx
      obtain ⟨hlast, hhead⟩ := h.some_ne_beside hz fun y hy => (hmem y).2 (.inr hy)
      rw [if_neg (by simpa using hzx), if_neg (fun hc => hlast hc.1)] at hafter
      rw [if_neg (by simpa using hzx), if_neg (fun hc => hhead hc.1)] at hbefore
      exact ⟨hbefore.trans (h.free z hz).1, hafter.trans (h.free z hz).2⟩

/-! ### What is seen of the rows -/

/-- The first element of a row is after nothing. -/
lemma after_none (h : c.Represents rows) (n : Nat) : c.after n none = (rows n).head? :=
  (show Leads _ _ ([] ++ rows n) from h.forward n).next

/-- The last element of a row is before nothing. -/
lemma before_none (h : c.Represents rows) (n : Nat) : c.before n none = (rows n).getLast? := by
  have hlast := (show Leads _ _ ([] ++ (rows n).reverse) from h.backward n).next
  rwa [List.head?_reverse] at hlast

/-- Chains contain what the rows contain. -/
lemma contains_iff (h : c.Represents rows) : c.contains n x ↔ x ∈ rows n := by
  rw [contains, decide_eq_true_iff, h.chain?_iff]

/-- An element has a chain if and only if it is in a row. -/
lemma isSome_chain?_iff (h : c.Represents rows) : (c.chain? x).isSome ↔ ∃ m, x ∈ rows m := by
  simp only [Option.isSome_iff_exists, h.chain?_iff]

/-- A walk along the links goes through the row. -/
lemma walk_eq : ∀ {r : List κ} {s : Option κ} {k : Nat}, Leads (c.after n) s r → r.length ≤ k →
    c.walk k (c.after n s) = r
  | [], s, k, h, _ => by
    rw [h]
    cases k <;> rfl
  | x :: r, s, k + 1, h, hk => by
    rw [h.1, walk]
    exact congrArg (x :: ·) (walk_eq h.2 (Nat.le_of_succ_le_succ hk))

/-- **Rows are found** by following the links. -/
lemma row_eq (h : c.Represents rows) (n : Nat) : c.row n = rows n := by
  refine walk_eq (h.forward n) ?_
  have hsubset : rows n ⊆ c.links.entries.map Prod.fst := by
    intro x hx
    by_contra hmem
    have hlookup : c.links.entries.lookup x = none := by
      rw [List.lookup_eq_none_iff]
      rintro e he
      simp only [bne_iff_ne]
      rintro rfl
      exact hmem (List.mem_map_of_mem he)
    have hchain := (h.chain?_iff n x).2 hx
    rw [chain?, Records.get, hlookup] at hchain
    cases hchain
  have hlength := ((h.nodup n).subperm hsubset).length_le
  rwa [List.length_map] at hlength

end Represents

/-- A chain that is made of some items is the row of these. -/
lemma represents_ofRow {xs : List κ} (h : xs.Nodup) :
    (ofRow xs).Represents (Function.update (fun _ => []) 0 xs) := by
  induction xs using List.reverseRecOn with
  | nil =>
    rw [Function.update_eq_self]
    exact represents_empty 1
  | append_singleton xs x ih =>
    obtain ⟨hxs, -, hx⟩ := List.nodup_append.1 h
    have hlinked := ih hxs
    have hofRow : ofRow (xs ++ [x]) = (ofRow xs).attach 0 x xs.getLast? [].head? := by
      have hlast := hlinked.before_none 0
      rw [Function.update_self] at hlast
      rw [← hlast, ofRow, List.foldl_concat]
      rfl
    have hfree : ∀ m, x ∉ Function.update (fun _ => ([] : List κ)) 0 xs m := by
      refine (Function.forall_update_iff _ fun _ r => x ∉ r).2 ⟨fun hmem => ?_, by simp⟩
      exact hx x hmem x List.mem_cons_self rfl
    have hattach := hlinked.attach (n := 0) (a := xs) (b := []) (by simp) hfree
    rw [Function.update_idem, ← hofRow] at hattach
    exact hattach

end Chains

end Lane.Code
