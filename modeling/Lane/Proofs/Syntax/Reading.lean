import Lane.Proofs.Syntax.Positions
import Lane.Proofs.Syntax.Words

set_option relaxedAutoImplicit false
set_option autoImplicit false

/-!
# Reading words

What grammar expressions do on words. An expression that cannot start with the next word fails
without taking a token, so that choices, options and repetitions are decided by one word. What is
read is kept as the fragments that the trees stand for, without places.

## Main definitions

* `Lane.Grammar.avoids`: expressions that cannot start with a word.
* `Lane.Grammar.Reads`: an expression reads words before others, and what they stand for.
* `Lane.Grammar.ReadsAll`: several expressions read words, one after the other.
* `Lane.Grammar.Repeats`: an expression reads words as often as needed.

## Main results

* `Lane.Grammar.rejects_of_avoids`: an expression that cannot start with a word takes no token.
* `Lane.Grammar.Reads.rule`: what a rule reads, from what its expression reads.
-/

namespace Lane

namespace Grammar

/-! ## Words that are turned away -/

mutual

/-- Whether an expression cannot start with a word, `T` saying so for rules. -/
def turnsAway (T : Rule → Word → Bool) (w : Word) : Grammar → Bool
  | .literal s => w.text != s
  | .token c => w.cls != c
  | .rule r => T r w
  | .seq es => noneStarts T w es
  | .alt es => allTurnAway T w es
  | .ahead e => turnsAway T w e
  | .optional _ | .many _ => false

/-- Whether an expression takes no token where it meets a word that it cannot start with. -/
def passesOver (T : Rule → Word → Bool) (w : Word) : Grammar → Bool
  | .optional e | .many e => turnsAway T w e
  | .literal _ | .token _ | .rule _ | .seq _ | .alt _ | .ahead _ => false

/-- Whether a sequence cannot start with a word: its first part cannot, or it may be left out and
the other parts cannot. -/
def noneStarts (T : Rule → Word → Bool) (w : Word) : List Grammar → Bool
  | [] => false
  | e :: es => turnsAway T w e || (passesOver T w e && noneStarts T w es)

/-- Whether no choice can start with a word. -/
def allTurnAway (T : Rule → Word → Bool) (w : Word) : List Grammar → Bool
  | [] => true
  | e :: es => turnsAway T w e && allTurnAway T w es

end

end Grammar

/-- Whether a rule cannot start with a word, rules being expanded as often as the number says. -/
def Rule.turnsAway : Nat → Rule → Grammar.Word → Bool
  | 0, _, _ => false
  | k + 1, r, w => r.body.turnsAway (Rule.turnsAway k) w

namespace Grammar

/-- **Whether an expression cannot start with a word**, with rules expanded often enough. -/
def avoids (e : Grammar) (w : Word) : Bool := e.turnsAway (Rule.turnsAway 20) w

/-- Whether no choice can start with a word. -/
def avoidsAll (es : List Grammar) (w : Word) : Bool := allTurnAway (Rule.turnsAway 20) w es

/-- The match from `c` took no token. -/
structure Stays (c : Cursor) (q : Outcome × Cursor) : Prop where
  rest_eq : q.2.rest = c.rest
  taken_eq : q.2.taken = c.taken

/-- **An expression rejects words**: it fails before them without taking a token. -/
def Rejects (e : Grammar) (ws : List Word) : Prop :=
  ∀ n c, c.words = ws → Stays c (run n e c) ∧ ∀ ts, (run n e c).1 ≠ .matched ts

/-- **An expression skips words**: it takes no token before them. -/
def Skips (e : Grammar) (ws : List Word) : Prop :=
  ∀ n c, c.words = ws → Stays c (run n e c) ∧ ∀ ts, (run n e c).1 = .matched ts → ts = []

section Idle

variable {c d : Cursor} {q : Outcome × Cursor} {m : Mismatch} {w : Word} {ws : List Word}
  {e : Grammar} {es : List Grammar}

/-- Nothing is taken. -/
lemma Stays.refl (c : Cursor) (o : Outcome) : Stays c (o, c) := ⟨rfl, rfl⟩

/-- If nothing is taken, the words to come are the same. -/
lemma Stays.words_eq (h : Stays c q) : q.2.words = c.words :=
  congrArg (List.map Lexeme.word) h.rest_eq

/-- Nothing is taken twice. -/
lemma Stays.trans (h : Stays c q) {q' : Outcome × Cursor} (h' : Stays q.2 q') : Stays c q' :=
  ⟨h'.rest_eq.trans h.rest_eq, h'.taken_eq.trans h.taken_eq⟩

/-- A mismatch is remembered. -/
lemma stays_remember (c : Cursor) (m : Mismatch) (o : Outcome) : Stays c (o, c.remember m) := by
  unfold Cursor.remember
  split <;> exact ⟨rfl, rfl⟩

/-- A match is accepted. -/
lemma stays_accept {o o' : Outcome} (h : Stays c (o, d)) : Stays c (o', c.accept d) := by
  unfold Cursor.accept
  split <;> exact ⟨h.rest_eq, h.taken_eq⟩

/-- A choice that failed without taking a token is given up. -/
lemma stop_of_stays {o : Outcome} (m : Mismatch) (h : Stays c (o, d)) :
    ∃ c', c.stop m d = (false, c') ∧ ∀ o', Stays c (o', c') := by
  have htaken : ¬d.taken > c.taken + Cursor.lookahead := by
    have := h.taken_eq
    simp only at this
    omega
  unfold Cursor.stop
  rw [if_neg htaken]
  refine ⟨_, rfl, fun o' => ?_⟩
  split
  · exact ⟨rfl, rfl⟩
  · split <;> exact ⟨rfl, rfl⟩

/-- What rejects words skips them. -/
lemma Rejects.skips (h : Rejects e ws) : Skips e ws := fun n c hw =>
  ⟨(h n c hw).1, fun ts hts => absurd hts ((h n c hw).2 ts)⟩

/-- What became of an expression that rejects the next word. -/
lemma Rejects.cases (h : Rejects e ws) (n : Nat) (hw : c.words = ws) :
    ∃ d, (run n e c = (.noMatch, d) ∨ ∃ m, run n e c = (.failed m, d)) ∧
      ∀ o, Stays c (o, d) := by
  obtain ⟨hs, hne⟩ := h n c hw
  cases heq : run n e c with
  | mk o d =>
    rw [heq] at hs hne
    refine ⟨d, ?_, fun _ => ⟨hs.rest_eq, hs.taken_eq⟩⟩
    cases o with
    | noMatch => exact .inl rfl
    | failed m => exact .inr ⟨m, rfl⟩
    | matched ts => exact absurd rfl (hne ts)

/-- Choices that reject the next word are passed by. -/
lemma exists_runAlt_append (n : Nat) (es' : List Grammar) : ∀ {es : List Grammar} {c : Cursor},
    c.words = ws → (∀ e ∈ es, Rejects e ws) → ∀ best, ∃ best' c',
      runAlt (run n) (es ++ es') best c = runAlt (run n) es' best' c' ∧ ∀ o, Stays c (o, c')
  | [], c, _, _, best => ⟨best, c, rfl, Stays.refl c⟩
  | e :: es, c, hw, h, best => by
    obtain ⟨he, h⟩ := List.forall_mem_cons.1 h
    obtain ⟨d, hd | ⟨m, hd⟩, hs⟩ := he.cases n hw
    · obtain ⟨best', c', heq, hs'⟩ := exists_runAlt_append n es' hw h best
      refine ⟨best', c', ?_, hs'⟩
      simpa only [List.cons_append, runAlt, hd] using heq
    · obtain ⟨c₁, hstop, hs₁⟩ := stop_of_stays m (hs .noMatch)
      have hw₁ : c₁.words = ws := (hs₁ .noMatch).words_eq.trans hw
      obtain ⟨best', c', heq, hs'⟩ := exists_runAlt_append n es' hw₁ h _
      refine ⟨best', c', ?_, fun o => (hs₁ .noMatch).trans (hs' o)⟩
      simpa only [List.cons_append, runAlt, hd, hstop] using heq

/-- Choices that all reject the next word. -/
lemma runAlt_rejects (n : Nat) (hw : c.words = ws) (h : ∀ e ∈ es, Rejects e ws)
    (best : Option (Mismatch × Nat)) : Stays c (runAlt (run n) es best c) ∧
      ∀ ts, (runAlt (run n) es best c).1 ≠ .matched ts := by
  obtain ⟨best', c', heq, hs⟩ := exists_runAlt_append n [] hw h best
  rw [List.append_nil] at heq
  rw [heq]
  cases best' with
  | none => exact ⟨hs _, by simp [runAlt]⟩
  | some q => exact ⟨(hs .noMatch).trans (stays_remember _ _ _), by simp [runAlt]⟩

/-- A repetition ends where the next word is rejected. -/
lemma exists_runMany_done (n : Nat) (hw : c.words = ws) (h : Rejects e ws) (limit : Nat)
    (done : List Tree) : ∃ d, runMany (run n e) limit done c = (.matched done, d) ∧
      ∀ o, Stays c (o, d) := by
  cases limit with
  | zero => exact ⟨c, rfl, Stays.refl c⟩
  | succ limit =>
    obtain ⟨d, hd | ⟨m, hd⟩, hs⟩ := h.cases n hw
    · refine ⟨c.accept d, ?_, fun o => stays_accept (hs .noMatch)⟩
      rw [runMany, hd]
    · have hs' : Stays (c.remember m) (.noMatch, d) := by
        have hr := stays_remember c m .noMatch
        exact ⟨(hs .noMatch).rest_eq.trans hr.rest_eq.symm,
          (hs .noMatch).taken_eq.trans hr.taken_eq.symm⟩
      obtain ⟨c₁, hstop, hs₁⟩ := stop_of_stays m hs'
      refine ⟨c₁, ?_, fun o => (stays_remember c m .noMatch).trans (hs₁ o)⟩
      rw [runMany, hd]
      simp only [hstop]

/-- Options and repetitions skip the words that they cannot start with. -/
lemma Rejects.skips_optional (h : Rejects e ws) : Skips (.optional e) ws := by
  rintro (_ | n) c hw
  · exact ⟨.refl c _, by simp [run]⟩
  · obtain ⟨d, hd, hs⟩ := exists_runMany_done n hw h 1 []
    have hrun : run (n + 1) (.optional e) c = (.matched [], d) := hd
    rw [hrun]
    exact ⟨hs _, fun ts hts => (Outcome.matched.inj hts).symm⟩

/-- A repetition skips what it cannot repeat. -/
lemma Rejects.skips_many (h : Rejects e ws) : Skips (.many e) ws := by
  rintro (_ | n) c hw
  · exact ⟨.refl c _, by simp [run]⟩
  · obtain ⟨d, hd, hs⟩ := exists_runMany_done n hw h (c.rest.length + 1) []
    have hrun : run (n + 1) (.many e) c = (.matched [], d) := hd
    rw [hrun]
    exact ⟨hs _, fun ts hts => (Outcome.matched.inj hts).symm⟩

/-- A sequence that cannot start with the next word, once some parts are skipped. -/
inductive NoneStarts (ws : List Word) : List Grammar → Prop
  | here {e : Grammar} {es : List Grammar} (h : Rejects e ws) : NoneStarts ws (e :: es)
  | later {e : Grammar} {es : List Grammar} (h : Skips e ws) (hs : NoneStarts ws es) :
    NoneStarts ws (e :: es)

/-- A list of which none starts takes nothing and does not match. -/
lemma NoneStarts.runRest (h : NoneStarts ws es) (n : Nat) : ∀ {c : Cursor} (done : List Tree),
    c.words = ws → Stays c (runRest (run n) es done c) ∧
      ∀ ts, (runRest (run n) es done c).1 ≠ .matched ts := by
  induction h with
  | here h =>
    intro c done hw
    obtain ⟨d, hd | ⟨m, hd⟩, hs⟩ := h.cases n hw <;> simp [Grammar.runRest, hd, hs]
  | later h _ ih =>
    intro c done hw
    obtain ⟨hs, hts⟩ := h n c hw
    rw [Grammar.runRest]
    cases heq : run n _ c with
    | mk o d =>
      rw [heq] at hs hts
      cases o with
      | noMatch => exact ⟨⟨hs.rest_eq, hs.taken_eq⟩, by simp⟩
      | failed m => exact ⟨hs, by simp⟩
      | matched ts =>
        obtain ⟨hs', hne⟩ := ih (done ++ ts) (hs.words_eq.trans hw)
        exact ⟨hs.trans hs', hne⟩

/-- A sequence rejects words that none of it starts. -/
lemma NoneStarts.rejects (h : NoneStarts ws es) : Rejects (.seq es) ws := by
  rintro (_ | n) c hw
  · exact ⟨.refl c _, by simp [run]⟩
  · cases h with
    | here h =>
      obtain ⟨d, hd | ⟨m, hd⟩, hs⟩ := h.cases n hw <;> simp [run, runSeq, hd, hs]
    | @later e es h hs =>
      obtain ⟨hstay, hts⟩ := h n c hw
      have hrun : run (n + 1) (.seq (e :: es)) c = runSeq (run n) (e :: es) c := rfl
      rw [hrun, runSeq]
      cases heq : run n e c with
      | mk o d =>
        rw [heq] at hstay hts
        cases o with
        | noMatch => exact ⟨hstay, by simp⟩
        | failed m => exact ⟨hstay, by simp⟩
        | matched ts =>
          obtain ⟨hs', hne⟩ := hs.runRest n ts (hstay.words_eq.trans hw)
          exact ⟨hstay.trans hs', hne⟩

/-- A token is not taken that fails the test. -/
lemma take_of_not {p : Token → Bool} (hw : c.words = w :: ws)
    (h : ∀ t : Token, t.word = w → p t = false) : c.take p = (.noMatch, c) := by
  obtain ⟨l, rest, hrest, hl, -⟩ := List.map_eq_cons_iff.1 hw
  simp only [Cursor.take, hrest, h l.token hl, Bool.and_false]
  rfl

/-- A literal rejects another word. -/
lemma rejects_literal {s : String} (h : w.text ≠ s) : Rejects (.literal s) (w :: ws) := by
  rintro (_ | n) c hw
  · exact ⟨.refl c _, by simp [run]⟩
  · have hrun : run (n + 1) (.literal s) c = (.noMatch, c) :=
      take_of_not hw fun t ht => beq_false_of_ne fun he => h (ht ▸ he)
    exact hrun ▸ ⟨.refl c _, by simp⟩

/-- A class of tokens rejects a word of another class. -/
lemma rejects_token {k : TokenClass} (h : w.cls ≠ k) : Rejects (.token k) (w :: ws) := by
  rintro (_ | n) c hw
  · exact ⟨.refl c _, by simp [run]⟩
  · have hrun : run (n + 1) (.token k) c = (.noMatch, c) :=
      take_of_not hw fun t ht => beq_false_of_ne fun he => h (ht ▸ he)
    exact hrun ▸ ⟨.refl c _, by simp⟩

/-- A choice rejects what all its members reject. -/
lemma rejects_alt (h : ∀ e ∈ es, Rejects e ws) : Rejects (.alt es) ws := by
  rintro (_ | n) c hw
  · exact ⟨.refl c _, by simp [run]⟩
  · exact runAlt_rejects n hw h none

/-- A promise is broken where its expression does not match. -/
lemma rejects_ahead (h : ∀ n c, c.words = ws → ∀ ts, (run n e c).1 ≠ .matched ts) :
    Rejects (.ahead e) ws := by
  rintro (_ | n) c hw
  · exact ⟨.refl c _, by simp [run]⟩
  · have hne := h n c hw
    cases heq : run n e c with
    | mk o d =>
      rw [heq] at hne
      cases o with
      | matched ts => exact absurd rfl (hne ts)
      | noMatch => exact ⟨by simp [run, heq, Stays.refl], by simp [run, heq]⟩
      | failed m => exact ⟨by simp [run, heq, Stays.refl], by simp [run, heq]⟩

/-- A rule rejects what its body rejects. -/
lemma Rejects.rule {r : Rule} (h : Rejects r.body ws) : Rejects (.rule r) ws := by
  rintro (_ | n) c hw
  · exact ⟨.refl c _, by simp [run]⟩
  · obtain ⟨d, hd | ⟨m, hd⟩, hs⟩ := h.cases n hw
    · exact ⟨by simp [run, hd, hs], by simp [run, hd]⟩
    · refine ⟨?_, by simp [run, hd]⟩
      have hr := (hs .noMatch).trans (stays_remember d m (.failed m))
      simpa [run, hd] using hr

mutual

/-- Expressions that turn a word away reject it, if rules that do so reject it. -/
lemma rejects_of {T : Rule → Word → Bool} (hT : ∀ r, T r w → Rejects (.rule r) (w :: ws)) :
    ∀ {e : Grammar}, turnsAway T w e → Rejects e (w :: ws)
  | .literal s, h => rejects_literal (by simpa [turnsAway] using h)
  | .token k, h => rejects_token (by simpa [turnsAway] using h)
  | .rule r, h => hT r h
  | .seq es, h => (noneStarts_of hT h).rejects
  | .alt es, h => rejects_alt (rejectsAll_of hT h)
  | .ahead e, h => rejects_ahead fun n c hw => (rejects_of hT (e := e) h n c hw).2
  | .optional _, h | .many _, h => by cases h

/-- The check for lists that a word does not start is right. -/
lemma noneStarts_of {T : Rule → Word → Bool} (hT : ∀ r, T r w → Rejects (.rule r) (w :: ws)) :
    ∀ {es : List Grammar}, noneStarts T w es → NoneStarts (w :: ws) es
  | [], h => by cases h
  | e :: es, h => by
    obtain h | h := Bool.or_eq_true_iff.1 h
    · exact .here (rejects_of hT h)
    · obtain ⟨hpass, h⟩ := Bool.and_eq_true_iff.1 h
      refine .later ?_ (noneStarts_of hT h)
      cases e with
      | optional e => exact (rejects_of hT (e := e) hpass).skips_optional
      | many e => exact (rejects_of hT (e := e) hpass).skips_many
      | _ => cases hpass

/-- The check for choices that turn a word away is right. -/
lemma rejectsAll_of {T : Rule → Word → Bool} (hT : ∀ r, T r w → Rejects (.rule r) (w :: ws)) :
    ∀ {es : List Grammar}, allTurnAway T w es → ∀ e ∈ es, Rejects e (w :: ws)
  | [], _ => fun _ he => by cases he
  | e :: es, h => by
    obtain ⟨he, h⟩ := Bool.and_eq_true_iff.1 h
    exact List.forall_mem_cons.2 ⟨rejects_of hT he, rejectsAll_of hT h⟩

end

/-- **Rules that turn a word away reject it.** -/
lemma rejects_rule : ∀ {k : Nat} {r : Rule}, r.turnsAway k w → Rejects (.rule r) (w :: ws)
  | 0, _, h => by cases h
  | k + 1, r, h => (rejects_of (fun _ => rejects_rule (k := k)) h).rule

/-- **Expressions that turn a word away reject it**: they fail without taking a token. -/
theorem rejects_of_avoids (h : e.avoids w) : Rejects e (w :: ws) :=
  rejects_of (fun _ => rejects_rule) h

/-- Choices that avoid a word reject it. -/
lemma rejects_of_avoidsAll (h : avoidsAll es w) : ∀ e ∈ es, Rejects e (w :: ws) :=
  rejectsAll_of (fun _ => rejects_rule) h

end Idle

/-! ## Words that are read -/

/-- Trees that stand for fragments, up to places, with nothing found wrong. -/
def StandFor (ts : List Tree) (fs : List Fragment) : Prop :=
  (Tree.interpretAll ts).1 = [] ∧ (Tree.interpretAll ts).2.map Fragment.unplaced = fs

/-- **An expression reads words**: before the words `rest`, it matches the words `ws`, which stand
for the fragments `fs`. The fuel it needs is `j` and a hundred for each word that is left. -/
structure Reads (j : Nat) (e : Grammar) (ws rest : List Word) (fs : List Fragment) : Prop where
  tokens : ∀ w ∈ ws, w.IsToken
  run : ∀ n c, c.words = ws ++ rest → j + 100 * c.rest.length ≤ n →
    ∃ ts d, run n e c = (.matched ts, d) ∧ d.words = rest ∧ StandFor ts fs

/-- **Several expressions read words**, one after the other. Once a word is read there is fuel for
another hundred. -/
inductive ReadsAll : Nat → List Grammar → List Word → List Word → List Fragment → Prop
  | nil {j : Nat} {rest : List Word} : ReadsAll j [] [] rest []
  | cons {i j : Nat} {e : Grammar} {es : List Grammar} {ws₁ ws₂ rest : List Word}
    {fs₁ fs₂ : List Fragment} (h : Reads i e ws₁ (ws₂ ++ rest) fs₁) (hne : ws₁ ≠ []) (hij : i ≤ j)
    (hs : ReadsAll 100 es ws₂ rest fs₂) : ReadsAll j (e :: es) (ws₁ ++ ws₂) rest (fs₁ ++ fs₂)
  | skip {i j : Nat} {e : Grammar} {es : List Grammar} {ws rest : List Word}
    {fs₁ fs₂ : List Fragment} (h : Reads i e [] (ws ++ rest) fs₁) (hij : i ≤ j)
    (hs : ReadsAll j es ws rest fs₂) : ReadsAll j (e :: es) ws rest (fs₁ ++ fs₂)

/-- **An expression reads words as often as needed.** -/
inductive Repeats (i : Nat) (e : Grammar) : List Word → List Word → List Fragment → Prop
  | nil {rest : List Word} : Repeats i e [] rest []
  | snoc {ws₁ ws₂ rest : List Word} {fs₁ fs₂ : List Fragment}
    (hs : Repeats i e ws₁ (ws₂ ++ rest) fs₁) (h : Reads i e ws₂ rest fs₂) (hne : ws₂ ≠ []) :
    Repeats i e (ws₁ ++ ws₂) rest (fs₁ ++ fs₂)

section Reading

variable {i j n : Nat} {e : Grammar} {es es' : List Grammar} {w : Word} {ws ws' rest : List Word}
  {fs fs' : List Fragment} {c : Cursor}

/-- There is one word for each lexeme. -/
lemma length_words (c : Cursor) : c.words.length = c.rest.length := List.length_map _

/-- Trees are interpreted one by one. -/
lemma interpretAll_append : ∀ ts us : List Tree, Tree.interpretAll (ts ++ us) =
    ((Tree.interpretAll ts).1 ++ (Tree.interpretAll us).1,
      (Tree.interpretAll ts).2 ++ (Tree.interpretAll us).2)
  | [], _ => rfl
  | t :: ts, us => by
    simp only [List.cons_append, Tree.interpretAll, interpretAll_append ts us, List.append_assoc]

/-- Trees stand for their fragments in sequence. -/
lemma StandFor.append {ts ts' : List Tree} (h : StandFor ts fs) (h' : StandFor ts' fs') :
    StandFor (ts ++ ts') (fs ++ fs') := by
  obtain ⟨hd, rfl⟩ := h
  obtain ⟨hd', rfl⟩ := h'
  simp [StandFor, interpretAll_append, hd, hd']

/-- No trees stand for no fragments. -/
lemma standFor_nil : StandFor [] [] := ⟨rfl, rfl⟩

/-- More fuel may be needed. -/
lemma Reads.mono (h : Reads i e ws rest fs) (hij : i ≤ j) : Reads j e ws rest fs :=
  ⟨h.tokens, fun n c hc hn => h.run n c hc (by omega)⟩

/-- More fuel may be needed for a list. -/
lemma ReadsAll.mono (h : ReadsAll i es ws rest fs) (hij : i ≤ j) : ReadsAll j es ws rest fs := by
  induction h with
  | nil => exact .nil
  | cons h hne hi hs => exact .cons h hne (hi.trans hij) hs
  | skip h hi _ ih => exact .skip h (hi.trans hij) (ih hij)

/-! ### Tokens -/

/-- A token is taken that passes the test. -/
lemma exists_take {p : Token → Bool} (hw : c.words = w :: rest) (htoken : w.IsToken)
    (h : ∀ t : Token, t.word = w → p t) : ∃ t d, c.take p = (.matched [.leaf t], d) ∧
      d.words = rest ∧ t.word = w := by
  obtain ⟨l, ls, hrest, hl, rfl⟩ := List.map_eq_cons_iff.1 hw
  have hcls : l.token.cls ≠ .eof := by
    have := htoken.cls_ne_eof
    rwa [← hl] at this
  refine ⟨l.token, { c with rest := ls, taken := c.taken + 1, here := l.after }, ?_, rfl, hl⟩
  simp [Cursor.take, hrest, h l.token hl, hcls]

/-- A leaf stands for its word. -/
lemma standFor_leaf {t : Token} (h : t.word = w) : StandFor [.leaf t] [w.fragment] := by
  subst h
  exact ⟨rfl, rfl⟩

/-- A literal is read. -/
lemma reads_literal {s : String} (h : w.IsToken) (hs : w.text = s) :
    Reads 1 (.literal s) [w] rest [w.fragment] where
  tokens := by simpa using h
  run n c hc hn := by
    obtain ⟨n, rfl⟩ := Nat.exists_eq_succ_of_ne_zero (show n ≠ 0 by omega)
    obtain ⟨t, d, htake, hd, ht⟩ := exists_take (p := fun t => t.text == s) hc h fun t ht => by
      subst ht
      exact beq_iff_eq.2 hs
    exact ⟨_, d, htake, hd, standFor_leaf ht⟩

/-- A token is read. -/
lemma reads_token (h : w.IsToken) : Reads 1 (.token w.cls) [w] rest [w.fragment] where
  tokens := by simpa using h
  run n c hc hn := by
    obtain ⟨n, rfl⟩ := Nat.exists_eq_succ_of_ne_zero (show n ≠ 0 by omega)
    obtain ⟨t, d, htake, hd, ht⟩ := exists_take (p := fun t => t.cls == w.cls) hc h fun t ht => by
      subst ht
      exact beq_iff_eq.2 rfl
    exact ⟨_, d, htake, hd, standFor_leaf ht⟩

/-! ### Choices, options and promises -/

/-- **A choice is read** if the choices before it reject what comes next. -/
lemma Reads.alt (k : Nat) (hk : es[k]? = some e) (h : Reads j e ws rest fs)
    (hes : ∀ e ∈ es.take k, Rejects e (ws ++ rest)) : Reads (j + 1) (.alt es) ws rest fs where
  tokens := h.tokens
  run n c hc hn := by
    obtain ⟨n, rfl⟩ := Nat.exists_eq_succ_of_ne_zero (show n ≠ 0 by omega)
    obtain ⟨hlt, hget⟩ := List.getElem?_eq_some_iff.1 hk
    have hsplit : es = es.take k ++ e :: es.drop (k + 1) := by
      rw [← hget, List.cons_getElem_drop_succ, List.take_append_drop]
    obtain ⟨best, c', heq, hs⟩ := exists_runAlt_append n (e :: es.drop (k + 1)) hc hes none
    have hrest := (hs .noMatch).rest_eq
    obtain ⟨ts, d, hrun, hd, hts⟩ := h.run n c' ((hs .noMatch).words_eq.trans hc)
      (by simp only at hrest; rw [hrest]; omega)
    refine ⟨ts, c'.accept d, ?_, ?_, hts⟩
    · have hstart : Grammar.run (n + 1) (.alt es) c = runAlt (Grammar.run n) es none c := rfl
      rw [hstart, hsplit, heq]
      simp only [runAlt, hrun]
    · rw [← hd]
      unfold Cursor.accept
      split <;> rfl

/-- A choice is read if the choices before it cannot start with the next word. -/
lemma Reads.choice (k : Nat) (hk : es[k]? = some e) (h : Reads j e (w :: ws) rest fs)
    (hes : avoidsAll (es.take k) w) : Reads (j + 1) (.alt es) (w :: ws) rest fs :=
  h.alt k hk (rejects_of_avoidsAll hes)

/-- The words after an accepted match. -/
lemma words_accept (c d : Cursor) : (c.accept d).words = d.words := by
  unfold Cursor.accept
  split <;> rfl

/-- An option is taken. -/
lemma Reads.optional (h : Reads j e ws rest fs) : Reads (j + 1) (.optional e) ws rest fs where
  tokens := h.tokens
  run n c hc hn := by
    obtain ⟨n, rfl⟩ := Nat.exists_eq_succ_of_ne_zero (show n ≠ 0 by omega)
    obtain ⟨ts, d, hrun, hd, hts⟩ := h.run n c hc (by omega)
    refine ⟨ts, c.accept d, ?_, (words_accept c d).trans hd, hts⟩
    have hstart : Grammar.run (n + 1) (.optional e) c = runMany (Grammar.run n e) 1 [] c := rfl
    rw [hstart, runMany, hrun]
    rfl

/-- An option is left out. -/
lemma reads_optional_none (h : e.avoids w) : Reads 1 (.optional e) [] (w :: rest) [] where
  tokens := by simp
  run n c hc hn := by
    obtain ⟨n, rfl⟩ := Nat.exists_eq_succ_of_ne_zero (show n ≠ 0 by omega)
    obtain ⟨d, hd, hs⟩ := exists_runMany_done n hc (rejects_of_avoids h) 1 []
    exact ⟨[], d, hd, (hs .noMatch).words_eq.trans hc, standFor_nil⟩

/-- A promise is kept. -/
lemma Reads.ahead (h : Reads j e ws rest fs) : Reads (j + 1) (.ahead e) [] (ws ++ rest) [] where
  tokens := by simp
  run n c hc hn := by
    obtain ⟨n, rfl⟩ := Nat.exists_eq_succ_of_ne_zero (show n ≠ 0 by omega)
    obtain ⟨ts, d, hrun, -, -⟩ := h.run n c hc (by omega)
    exact ⟨[], c, by simp [Grammar.run, hrun], hc, standFor_nil⟩

/-! ### Repetitions -/

/-- Repeated words are tokens. -/
lemma Repeats.tokens (h : Repeats i e ws rest fs) : ∀ w ∈ ws, w.IsToken := by
  induction h with
  | nil => simp
  | snoc _ h _ ih =>
    intro w hw
    obtain hw | hw := List.mem_append.1 hw
    · exact ih w hw
    · exact h.tokens w hw

/-- What is repeated is matched, as long as the limit allows it. -/
lemma Repeats.exists_runMany (h : Repeats i e ws rest fs) :
    ∀ {c : Cursor} (done : List Tree) {m : Nat},
    c.words = ws ++ rest → i + 100 * c.rest.length ≤ n → c.rest.length < m → ∃ ts d m',
      runMany (run n e) m done c = runMany (run n e) m' (done ++ ts) d ∧ d.words = rest ∧
        d.rest.length < m' ∧ StandFor ts fs := by
  induction h with
  | nil => exact fun {c} done {m} hc _ hm => ⟨[], c, m, by simp, hc, hm, standFor_nil⟩
  | @snoc ws₁ ws₂ rest fs₁ fs₂ hs h hne ih =>
    intro c done m hc hn hm
    obtain ⟨ts, d, m', heq, hd, hm', hts⟩ := ih done ((List.append_assoc ..) ▸ hc) hn hm
    have hlen := congrArg List.length hc
    have hlend := congrArg List.length hd
    simp only [List.length_append, length_words] at hlen hlend
    obtain ⟨m', rfl⟩ := Nat.exists_eq_succ_of_ne_zero (show m' ≠ 0 by omega)
    obtain ⟨us, d', hrun, hd', hus⟩ := h.run n d hd (by omega)
    have hpos := List.length_pos_iff.2 hne
    have hlend' := congrArg List.length hd'
    rw [length_words] at hlend'
    refine ⟨ts ++ us, d.accept d', m', ?_, (words_accept d d').trans hd', ?_, hts.append hus⟩
    · rw [heq, runMany, hrun, ← List.append_assoc]
    · rw [← length_words, words_accept, length_words]
      omega

/-- **A repetition is read** up to a word that it cannot start with. -/
lemma Repeats.many (h : Repeats j e ws (w :: rest) fs) (hw : e.avoids w) :
    Reads (j + 1) (.many e) ws (w :: rest) fs where
  tokens := h.tokens
  run n c hc hn := by
    obtain ⟨n, rfl⟩ := Nat.exists_eq_succ_of_ne_zero (show n ≠ 0 by omega)
    obtain ⟨ts, d, m, heq, hd, -, hts⟩ := h.exists_runMany (n := n) [] hc (by omega)
      (Nat.lt_succ_self _)
    obtain ⟨d', hd', hs⟩ := exists_runMany_done n hd (rejects_of_avoids hw) m ts
    exact ⟨ts, d', heq.trans hd', (hs .noMatch).words_eq.trans hd, hts⟩

/-- More fuel may be needed for a repetition. -/
lemma Repeats.mono (h : Repeats i e ws rest fs) (hij : i ≤ j) : Repeats j e ws rest fs := by
  induction h with
  | nil => exact .nil
  | snoc _ h hne ih => exact .snoc ih (h.mono hij) hne

/-- What is read first may be followed by repetitions. -/
lemma Repeats.cons (h : Reads i e ws (ws' ++ rest) fs) (hne : ws ≠ [])
    (hs : Repeats i e ws' rest fs') : Repeats i e (ws ++ ws') rest (fs ++ fs') := by
  induction hs with
  | nil => simpa using Repeats.snoc .nil (by simpa using h) hne
  | snoc hs h' hne' ih =>
    rw [← List.append_assoc, ← List.append_assoc]
    exact .snoc (ih (by simpa using h)) h' hne'

/-! ### Sequences and rules -/

/-- The words of a list are tokens. -/
lemma ReadsAll.tokens (h : ReadsAll j es ws rest fs) : ∀ w ∈ ws, w.IsToken := by
  induction h with
  | nil => simp
  | cons h _ _ _ ih =>
    intro w hw
    obtain hw | hw := List.mem_append.1 hw
    · exact h.tokens w hw
    · exact ih w hw
  | skip _ _ _ ih => exact ih

/-- A list is read to its end. -/
lemma ReadsAll.exists_runRest (h : ReadsAll j es ws rest fs) : ∀ {c : Cursor} (done : List Tree),
    c.words = ws ++ rest → j + 100 * c.rest.length ≤ n → ∃ ts d,
      runRest (run n) es done c = (.matched (done ++ ts), d) ∧ d.words = rest ∧ StandFor ts fs := by
  induction h with
  | nil => exact fun {c} done hc _ => ⟨[], c, by simp [runRest], hc, standFor_nil⟩
  | @cons i j e es ws₁ ws₂ rest fs₁ fs₂ h hne hij _ ih =>
    intro c done hc hn
    obtain ⟨ts, d, hrun, hd, hts⟩ := h.run n c ((List.append_assoc ..) ▸ hc) (by omega)
    have hlen := congrArg List.length hc
    have hlend := congrArg List.length hd
    have hpos := List.length_pos_iff.2 hne
    simp only [List.length_append, length_words] at hlen hlend
    obtain ⟨us, d', hrest, hd', hus⟩ := ih (done ++ ts) hd (by omega)
    refine ⟨ts ++ us, d', ?_, hd', hts.append hus⟩
    rw [runRest, hrun, ← List.append_assoc]
    exact hrest
  | skip h hij _ ih =>
    intro c done hc hn
    obtain ⟨ts, d, hrun, hd, hts⟩ := h.run n c hc (by omega)
    have hlend := congrArg List.length (hd.trans hc.symm)
    simp only [length_words] at hlend
    obtain ⟨us, d', hrest, hd', hus⟩ := ih (done ++ ts) hd (by omega)
    refine ⟨ts ++ us, d', ?_, hd', hts.append hus⟩
    rw [runRest, hrun, ← List.append_assoc]
    exact hrest

/-- After a word, a part is read with any fuel up to a hundred. -/
lemma ReadsAll.next {ws₁ ws₂ : List Word} {fs₁ fs₂ : List Fragment}
    (h : Reads i e ws₁ (ws₂ ++ rest) fs₁) (hi : i ≤ 100) (hs : ReadsAll 100 es ws₂ rest fs₂) :
    ReadsAll 100 (e :: es) (ws₁ ++ ws₂) rest (fs₁ ++ fs₂) := by
  obtain rfl | hne := eq_or_ne ws₁ []
  · exact .skip h hi hs
  · exact .cons h hne hi hs

/-- The last of a list is read. -/
lemma ReadsAll.last (h : Reads i e ws rest fs) (hij : i ≤ j) : ReadsAll j [e] ws rest fs := by
  obtain rfl | hne := eq_or_ne ws []
  · simpa using ReadsAll.skip (by simpa using h) hij .nil
  · simpa using ReadsAll.cons (by simpa using h) hne hij .nil

/-- A literal comes first in a list. -/
lemma ReadsAll.literal {s : String} (hw : w.IsToken) (hs : w.text = s) (hj : 1 ≤ j)
    (h : ReadsAll 100 es ws rest fs) :
    ReadsAll j (.literal s :: es) (w :: ws) rest (w.fragment :: fs) :=
  .cons (reads_literal hw hs) (List.cons_ne_nil _ _) hj h

/-- A token comes first in a list. -/
lemma ReadsAll.token {k : TokenClass} (hw : w.IsToken) (hk : w.cls = k) (hj : 1 ≤ j)
    (h : ReadsAll 100 es ws rest fs) :
    ReadsAll j (.token k :: es) (w :: ws) rest (w.fragment :: fs) :=
  hk ▸ .cons (reads_token hw) (List.cons_ne_nil _ _) hj h

/-- **A sequence is read** if its parts are. -/
lemma ReadsAll.seq (h : ReadsAll j es ws rest fs) : Reads (j + 1) (.seq es) ws rest fs where
  tokens := h.tokens
  run n c hc hn := by
    obtain ⟨n, rfl⟩ := Nat.exists_eq_succ_of_ne_zero (show n ≠ 0 by omega)
    obtain ⟨ts, d, hrun, hd, hts⟩ := h.exists_runRest (n := n) [] hc (by omega)
    refine ⟨ts, d, ?_, hd, hts⟩
    have hstart : Grammar.run (n + 1) (.seq es) c = runSeq (Grammar.run n) es c := rfl
    rw [hstart]
    cases es with
    | nil => exact hrun
    | cons e es =>
      rw [runRest] at hrun
      rw [runSeq]
      cases heq : Grammar.run n e c with
      | mk o d' =>
        rw [heq] at hrun
        cases o with
        | matched us => exact hrun
        | noMatch => cases hrun
        | failed m => cases hrun

/-- **A rule is read** if its expression is; it stands for what its action makes. -/
lemma Reads.rule {r : Rule} {f : Fragment} (h : Reads j r.body ws rest fs)
    (hf : Fragment.ofRule r {} {} fs = ([], f)) : Reads (j + 1) (.rule r) ws rest [f] where
  tokens := h.tokens
  run n c hc hn := by
    obtain ⟨n, rfl⟩ := Nat.exists_eq_succ_of_ne_zero (show n ≠ 0 by omega)
    obtain ⟨ts, d, hrun, hd, hds, rfl⟩ := h.run n c hc (by omega)
    refine ⟨[.node r c.peek.pos d.here ts], d, by simp [Grammar.run, hrun], hd, ?_⟩
    rw [Fragment.ofRule_unplaced r c.peek.pos d.here] at hf
    obtain ⟨hdiags, rfl⟩ := Prod.mk.inj hf
    refine ⟨?_, rfl⟩
    simp [Tree.interpretAll, Tree.interpret, hds, List.map_eq_nil_iff.1 hdiags]

end Reading

end Grammar

end Lane
