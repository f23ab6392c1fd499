import Lane.Proofs.Syntax.Reading
import Lane.Proofs.Syntax.Rendering
import Mathlib.Data.List.Basic

set_option relaxedAutoImplicit false
set_option autoImplicit false

/-!
# Reading names and lists

A word that is no keyword is turned away by expressions that turn away any word of its class. Lists
with commas between their items, in parentheses or in braces, are read if their items are.

## Main results

* `Lane.Grammar.avoids_of_not_mem`: words that are no keywords are alike to the grammar.
* `Lane.Grammar.ReadsAll.parenthesized`: items in parentheses.
* `Lane.Grammar.ReadsAll.braced`: items in braces.
-/

namespace Lane

namespace Grammar

open Grammar.Word

/-! ## Words that are no keywords -/

/-- The literals of the rules are keywords. -/
lemma mem_keywords_of_body (r : Rule) : ∀ s ∈ r.body.literals, s ∈ Rule.keywords := by
  cases r <;> decide

section Plain

variable {w w' : Word} {e : Grammar} {es : List Grammar}

mutual

/-- Words of one class are turned away alike by expressions without literals for them. -/
lemma turnsAway_of_not_mem {T T' : Rule → Word → Bool} (hcls : w.cls = w'.cls)
    (hT : ∀ r, T r w' → T' r w) :
    ∀ {e : Grammar}, w.text ∉ e.literals → turnsAway T w' e → turnsAway T' w e
  | .literal s, h, _ => bne_iff_ne.2 fun he => h (by simp [literals, he])
  | .token c, _, h => by
    rw [turnsAway] at h ⊢
    rwa [hcls]
  | .rule r, _, h => hT r h
  | .seq es, h, h' => noneStarts_of_not_mem hcls hT h h'
  | .alt es, h, h' => allTurnAway_of_not_mem hcls hT h h'
  | .ahead e, h, h' => turnsAway_of_not_mem hcls hT (e := e) h h'
  | .optional _, _, h | .many _, _, h => by cases h

/-- What passes over a name passes over any word that is no keyword of it. -/
lemma passesOver_of_not_mem {T T' : Rule → Word → Bool} (hcls : w.cls = w'.cls)
    (hT : ∀ r, T r w' → T' r w) :
    ∀ {e : Grammar}, w.text ∉ e.literals → passesOver T w' e → passesOver T' w e
  | .optional e, h, h' | .many e, h, h' => turnsAway_of_not_mem hcls hT (e := e) h h'
  | .literal _, _, h | .token _, _, h | .rule _, _, h | .seq _, _, h | .alt _, _, h
  | .ahead _, _, h => by cases h

/-- What no name starts is started by no other such word. -/
lemma noneStarts_of_not_mem {T T' : Rule → Word → Bool} (hcls : w.cls = w'.cls)
    (hT : ∀ r, T r w' → T' r w) :
    ∀ {es : List Grammar}, w.text ∉ literalsOf es → noneStarts T w' es → noneStarts T' w es
  | [], _, h => by cases h
  | e :: es, h, h' => by
    rw [literalsOf, List.mem_append, not_or] at h
    rw [noneStarts, Bool.or_eq_true, Bool.and_eq_true] at h' ⊢
    exact h'.imp (turnsAway_of_not_mem hcls hT h.1)
      (.imp (passesOver_of_not_mem hcls hT h.1) (noneStarts_of_not_mem hcls hT h.2))

/-- What turns names away turns other such words away. -/
lemma allTurnAway_of_not_mem {T T' : Rule → Word → Bool} (hcls : w.cls = w'.cls)
    (hT : ∀ r, T r w' → T' r w) :
    ∀ {es : List Grammar}, w.text ∉ literalsOf es → allTurnAway T w' es → allTurnAway T' w es
  | [], _, _ => rfl
  | e :: es, h, h' => by
    rw [literalsOf, List.mem_append, not_or] at h
    rw [allTurnAway, Bool.and_eq_true] at h' ⊢
    exact h'.imp (turnsAway_of_not_mem hcls hT h.1) (allTurnAway_of_not_mem hcls hT h.2)

end

/-- A rule that turns names away turns other such words away. -/
lemma turnsAway_rule_of_not_mem (hcls : w.cls = w'.cls) (h : w.text ∉ Rule.keywords) :
    ∀ (k : Nat) (r : Rule), r.turnsAway k w' → r.turnsAway k w
  | 0, _, h' => by cases h'
  | k + 1, r, h' => turnsAway_of_not_mem hcls (turnsAway_rule_of_not_mem hcls h k)
    (fun hmem => h (mem_keywords_of_body r _ hmem)) h'

/-- **Words that are no keywords** are turned away like any other word of their class. -/
lemma avoids_of_not_mem (h : w.text ∉ Rule.keywords) (he : ∀ s ∈ e.literals, s ∈ Rule.keywords)
    (h' : e.avoids ⟨w.cls, "_"⟩) : e.avoids w := by
  have hcls : w.cls = (⟨w.cls, "_"⟩ : Word).cls := rfl
  exact turnsAway_of_not_mem hcls (turnsAway_rule_of_not_mem hcls h 20)
    (fun hmem => h (he _ hmem)) h'

/-- A list that avoids names avoids other such words. -/
lemma avoidsAll_of_not_mem (h : w.text ∉ Rule.keywords)
    (he : ∀ s ∈ literalsOf es, s ∈ Rule.keywords) (h' : avoidsAll es ⟨w.cls, "_"⟩) :
    avoidsAll es w := by
  have hcls : w.cls = (⟨w.cls, "_"⟩ : Word).cls := rfl
  exact allTurnAway_of_not_mem hcls (turnsAway_rule_of_not_mem hcls h 20)
    (fun hmem => h (he _ hmem)) h'

/-- A list avoids a word if all its members do. -/
lemma avoidsAll_iff : ∀ {es : List Grammar}, avoidsAll es w ↔ ∀ e ∈ es, e.avoids w
  | [] => by simp [avoidsAll, allTurnAway]
  | e :: es => by
    rw [List.forall_mem_cons]
    exact Bool.and_eq_true_iff.trans (and_congr Iff.rfl avoidsAll_iff)

end Plain

/-! ## Words out of several -/

section Lists

variable {i j : Nat} {r : Rule} {es : List Grammar} {w : Word} {ws rest : List Word}
  {fs : List Fragment} {items : List (List Word × Fragment)}

/-- One of several words is read. -/
lemma reads_oneOf {ss : List String} (hw : w.IsToken) (h : w.text ∈ ss) :
    Reads 2 (oneOf ss) [w] rest [w.fragment] := by
  have hget : (ss.map Grammar.literal)[ss.idxOf w.text]? = some (.literal w.text) := by
    rw [List.getElem?_map, List.getElem?_idxOf h]
    rfl
  refine (reads_literal hw rfl).choice (ss.idxOf w.text) hget (avoidsAll_iff.2 fun e he => ?_)
  rw [← List.map_take] at he
  obtain ⟨s, hs, rfl⟩ := List.mem_map.1 he
  refine bne_iff_ne.2 fun heq => ?_
  subst heq
  exact absurd (List.mem_take_iff_idxOf_lt h |>.1 hs) (lt_irrefl _)

/-! ## Items with commas -/

/-- The fragments of items with commas between them. -/
def separatedFragments : List Fragment → List Fragment
  | [] => []
  | f :: fs => f :: fs.flatMap fun g => [(punct ",").fragment, g]

/-- The commas are left out among fragments of one kind. -/
lemma filterMap_separatedFragments {α : Type} {g : Fragment → Option α}
    (hg : g (punct ",").fragment = none) :
    ∀ fs : List Fragment, (separatedFragments fs).filterMap g = fs.filterMap g
  | [] => rfl
  | f :: fs => by
    have hrest : (fs.flatMap fun h => [(punct ",").fragment, h]).filterMap g = fs.filterMap g := by
      induction fs with
      | nil => rfl
      | cons f fs ih => simp [List.filterMap_cons, hg, ih]
    rw [separatedFragments, List.filterMap_cons, List.filterMap_cons, hrest]

/-- Items of a rule that are read before a comma and before `stop`. -/
structure Items (i : Nat) (r : Rule) (stop : Word) (items : List (List Word × Fragment)) :
    Prop where
  ne_nil : ∀ q ∈ items, q.1 ≠ []
  reads : ∀ q ∈ items, ∀ w rest, w = punct "," ∨ w = stop → Reads i (.rule r) q.1 (w :: rest) [q.2]

/-- Items after commas are read one after the other. -/
lemma repeats_afterCommas (hi : i ≤ 100) : ∀ {items : List (List Word × Fragment)} {stop : Word},
    Items i r stop items → Repeats 2 (.seq [.literal ",", .rule r])
      (afterCommas (items.map Prod.fst)) (stop :: rest)
      (items.flatMap fun q => [(punct ",").fragment, q.2])
  | [], _, _ => .nil
  | q :: items, stop, h => by
    obtain ⟨hne, hreads⟩ := h
    obtain ⟨-, hne⟩ := List.forall_mem_cons.1 hne
    obtain ⟨hq, hreads⟩ := List.forall_mem_cons.1 hreads
    have hcomma : (punct ",").IsToken := by decide
    have hnext : ∃ w more, afterCommas (items.map Prod.fst) ++ stop :: rest = w :: more ∧
        (w = punct "," ∨ w = stop) := by
      cases items with
      | nil => exact ⟨_, _, rfl, .inr rfl⟩
      | cons => exact ⟨_, _, rfl, .inl rfl⟩
    obtain ⟨w, more, hmore, hw⟩ := hnext
    have hfirst : Reads 2 (.seq [.literal ",", .rule r]) (punct "," :: q.1)
        (afterCommas (items.map Prod.fst) ++ stop :: rest) [(punct ",").fragment, q.2] := by
      rw [hmore]
      exact (ReadsAll.literal hcomma rfl le_rfl (.last (hq w more hw) hi)).seq
    exact .cons hfirst (List.cons_ne_nil _ _) (repeats_afterCommas hi ⟨hne, hreads⟩)

/-- **Items with commas between them are read** up to a word that is no comma. -/
lemma ReadsAll.commaSeparated {stop : Word} (h : Items i r stop items) (hne : items ≠ [])
    (hstop : stop.text ≠ ",") (hij : i ≤ j) (hj : j ≤ 100) :
    ReadsAll j (commaSeparated r) (separated (items.map Prod.fst)) (stop :: rest)
      (separatedFragments (items.map Prod.snd)) := by
  cases items with
  | nil => exact absurd rfl hne
  | cons q items =>
    have hmany : Reads 3 (.many (.seq [.literal ",", .rule r])) (afterCommas (items.map Prod.fst))
        (stop :: rest) ((items.map Prod.snd).flatMap fun g => [(punct ",").fragment, g]) := by
      rw [List.flatMap_map]
      refine (repeats_afterCommas (hij.trans hj) ⟨fun q hq => h.ne_nil q (.tail _ hq),
        fun q hq => h.reads q (.tail _ hq)⟩).many ?_
      exact Bool.or_eq_true_iff.2 (.inl (bne_iff_ne.2 hstop))
    have hnext : ∃ w more, afterCommas (items.map Prod.fst) ++ stop :: rest = w :: more ∧
        (w = punct "," ∨ w = stop) := by
      cases items with
      | nil => exact ⟨_, _, rfl, .inr rfl⟩
      | cons => exact ⟨_, _, rfl, .inl rfl⟩
    obtain ⟨w, more, hmore, hw⟩ := hnext
    exact .cons (hmore ▸ h.reads q (.head _) w more hw) (h.ne_nil q (.head _)) hij
      (.last hmany (by omega))

/-- **Items in parentheses are read**, perhaps none. -/
lemma ReadsAll.parenthesized (h : Items i r (punct ")") items)
    (hstop : (Grammar.seq (Grammar.commaSeparated r)).avoids (punct ")")) (hi : i ≤ 90) (hj : 1 ≤ j)
    (hes : ReadsAll 100 es ws rest fs) : ReadsAll j (parenthesized r ++ es)
      (inParens (separated (items.map Prod.fst)) ++ ws) rest
      ((punct "(").fragment :: separatedFragments (items.map Prod.snd) ++
        (punct ")").fragment :: fs) := by
  have hopen : (punct "(").IsToken := by decide
  have hclose : (punct ")").IsToken := by decide
  have hitems : Reads 92 (.optional (.seq (Grammar.commaSeparated r)))
    (separated (items.map Prod.fst))
      (punct ")" :: ws ++ rest) (separatedFragments (items.map Prod.snd)) := by
    obtain rfl | hne := eq_or_ne items []
    · exact (reads_optional_none hstop).mono (by omega)
    · exact (ReadsAll.commaSeparated h hne (by decide) hi (by omega)).seq.optional
  have hrest : ReadsAll 100 (.optional (.seq (Grammar.commaSeparated r)) :: .literal ")" :: es) _
      rest _ := .next hitems (by omega) (.literal hclose rfl (by omega) hes)
  have hall : ReadsAll j (.literal "(" :: _) _ rest _ := .literal hopen rfl hj hrest
  simpa [inParens, Grammar.parenthesized] using hall

/-- **Items in braces are read.** -/
lemma ReadsAll.braced {ws' : List Word} {fs' : List Fragment}
    (h : Repeats i (.rule r) ws (punct "\x7d" :: ws' ++ rest) fs)
    (hstop : (Grammar.rule r).avoids (punct "\x7d")) (hi : i ≤ 90) (hj : 1 ≤ j)
    (hes : ReadsAll 100 es ws' rest fs') : ReadsAll j (braced r ++ es) (inBraces ws ++ ws') rest
      ((punct "\x7b").fragment :: fs ++ (punct "\x7d").fragment :: fs') := by
  have hopen : (punct "\x7b").IsToken := by decide
  have hclose : (punct "\x7d").IsToken := by decide
  have hrest : ReadsAll 100 (.many (.rule r) :: .literal "\x7d" :: es) _ rest _ :=
    .next (h.many hstop) (by omega) (.literal hclose rfl (by omega) hes)
  have hall : ReadsAll j (.literal "\x7b" :: _) _ rest _ := .literal hopen rfl hj hrest
  simpa [inBraces, Grammar.braced] using hall

end Lists

end Grammar

end Lane
