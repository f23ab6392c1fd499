import Lane.Syntax.Build
import Mathlib.Tactic.Lemma

set_option relaxedAutoImplicit false
set_option autoImplicit false

/-!
# Names of foreign functions

An identifier of a source text has no dot in it, so neither has the name of a foreign function.
Identifiers of code that are put together with dots are told from these names that way.

## Main definitions

* `Lane.IsPlain`: texts without dots.
* `Lane.Tree.Plain`: trees whose identifiers are plain, and that name foreign functions by
  identifiers.

## Main results

* `Lane.Token.plain_of_scan`: identifiers are plain.
* `Lane.ProgramSyntax.isPlain_of_parse`: the names of foreign functions are plain.
-/

namespace Lane

/-- Texts without dots. -/
def IsPlain (s : String) : Prop := '.' ∉ s.toList

/-- Tokens that are plain if they are identifiers. -/
def Token.Plain (t : Token) : Prop := t.cls = .ident → IsPlain t.text

/-! ## Tokens -/

/-- An identifier consists of letters, digits and underscores. -/
lemma isPlain_of_scanner {rs word rest : List Rune}
    (h : TokenClass.ident.scanner rs = some (word, rest)) : IsPlain (Rune.text word) := by
  have hchars : ∀ r ∈ word, isIdentRest r.char := by
    cases rs with
    | nil => cases h
    | cons r rs =>
      simp only [TokenClass.scanner, Scanner.andThen, Scanner.one, Scanner.many] at h
      by_cases hr : isIdentStart r.char
      · rw [if_pos hr] at h
        obtain ⟨rfl, -⟩ := Prod.mk.inj (Option.some.inj h)
        intro s hs
        obtain hs | hs := List.mem_append.1 hs
        · obtain rfl := List.mem_singleton.1 hs
          simp only [isIdentStart, Bool.or_eq_true] at hr
          simp only [isIdentRest, Char.isAlphanum, Bool.or_eq_true]
          exact hr.imp_left .inl
        · exact List.all_eq_true.1 (List.all_takeWhile) s hs
      · rw [if_neg hr] at h
        cases h
  intro hdot
  rw [Rune.text, String.toList_ofList] at hdot
  obtain ⟨r, hr, he⟩ := List.mem_map.1 hdot
  have := hchars r hr
  rw [he] at this
  exact absurd this (by decide)

/-- **Identifiers are plain**. -/
lemma Token.plain_of_scanFrom : ∀ (fuel : Nat) (pos : Position) (rs : List Rune),
    ∀ t ∈ (scanFrom fuel pos rs).1, t.Plain
  | 0, pos, [] | _ + 1, pos, [] => by
    intro t ht
    obtain rfl := List.mem_singleton.1 ht
    exact nofun
  | 0, _, _ :: _ => by simp [scanFrom]
  | fuel + 1, pos, r :: rs => by
    unfold scanFrom
    split
    · simp
    · rename_i c word rest hnext
      refine List.forall_mem_cons.2 ⟨fun hc => ?_, plain_of_scanFrom fuel _ rest⟩
      obtain rfl : c = .ident := hc
      obtain ⟨d, -, hd⟩ := List.exists_of_findSome?_eq_some hnext
      obtain ⟨⟨w, rest'⟩, hscan, heq⟩ := Option.map_eq_some_iff.1 hd
      obtain ⟨rfl, rfl, -⟩ := heq
      exact isPlain_of_scanner hscan

/-! ## Trees -/

namespace Tree

mutual

/-- **Plain trees**: identifiers are plain, and foreign functions are named by identifiers. -/
def Plain : Tree → Prop
  | .leaf t => t.Plain
  | .node r _ _ ts => PlainAll ts ∧
    (r = .externDefinition → ∃ a t rest, ts = a :: .leaf t :: rest ∧ t.cls = .ident)

/-- Plain trees in order. -/
def PlainAll : List Tree → Prop
  | [] => True
  | t :: ts => Plain t ∧ PlainAll ts

end

/-- No trees are plain. -/
lemma plainAll_nil : PlainAll [] := trivial

/-- Plain trees in sequence. -/
lemma plainAll_append {ts us : List Tree} (h : PlainAll ts) (h' : PlainAll us) :
    PlainAll (ts ++ us) := by
  induction ts with
  | nil => exact h'
  | cons t ts ih => exact ⟨h.1, ih h.2⟩

end Tree

/-- Only plain tokens are left to be matched. -/
def Cursor.Plain (c : Cursor) : Prop := ∀ l ∈ c.rest, l.token.Plain

/-- Matchers that make plain trees from plain tokens. -/
def Matcher.Plain (m : Matcher) : Prop :=
  ∀ c : Cursor, c.Plain → (m c).2.Plain ∧ ∀ ts, (m c).1 = .matched ts → Tree.PlainAll ts

namespace Cursor

variable {c d : Cursor}

/-- Accepting a match keeps tokens plain. -/
lemma Plain.accept (h : d.Plain) : (c.accept d).Plain := by
  unfold Cursor.accept
  split <;> exact h

/-- Remembering a mismatch keeps tokens plain. -/
lemma Plain.remember (h : c.Plain) (m : Mismatch) : (c.remember m).Plain := by
  unfold Cursor.remember
  split <;> exact h

/-- Stopping keeps tokens plain. -/
lemma Plain.stop (h : c.Plain) (h' : d.Plain) (m : Mismatch) : (c.stop m d).2.Plain := by
  unfold Cursor.stop
  extract_lets learned
  have hl : learned.Plain := by
    unfold learned
    split
    · exact h
    · split <;> exact h
  split
  · exact h'.accept
  · exact hl

/-- A token that is taken makes a leaf. -/
lemma take_plain (p : Token → Bool) : Matcher.Plain fun c => c.take p := by
  intro c hc
  simp only [Cursor.take]
  split
  · rename_i l rest hrest
    obtain ⟨hl, hr⟩ := List.forall_mem_cons.1 (hrest ▸ hc : ∀ x ∈ l :: rest, x.token.Plain)
    split
    · refine ⟨hr, fun ts hts => ?_⟩
      obtain rfl := Outcome.matched.inj hts
      exact ⟨hl, trivial⟩
    · exact ⟨hc, nofun⟩
  · exact ⟨hc, nofun⟩

end Cursor

namespace Grammar

variable {run : Grammar → Matcher}

/-- The rest of a sequence is plain. -/
lemma runRest_plain (h : ∀ e, (run e).Plain) : ∀ (es : List Grammar) {done : List Tree},
    Tree.PlainAll done → Matcher.Plain (runRest run es done)
  | [], done, hd, c, hc => ⟨hc, fun ts hts => Outcome.matched.inj hts ▸ hd⟩
  | e :: es, done, hd, c, hc => by
    have he := h e c hc
    unfold runRest
    split
    · rename_i ts d heq
      rw [heq] at he
      exact runRest_plain h es (Tree.plainAll_append hd (he.2 ts rfl)) d he.1
    · rename_i m d heq
      rw [heq] at he
      exact ⟨he.1, nofun⟩
    · rename_i d heq
      rw [heq] at he
      exact ⟨he.1, nofun⟩

/-- A sequence is plain. -/
lemma runSeq_plain (h : ∀ e, (run e).Plain) (es : List Grammar) :
    Matcher.Plain (runSeq run es) := by
  intro c hc
  cases es with
  | nil => exact ⟨hc, fun ts hts => Outcome.matched.inj hts ▸ trivial⟩
  | cons e es =>
    have he := h e c hc
    simp only [runSeq]
    split
    · rename_i ts d heq
      rw [heq] at he
      exact runRest_plain h es (he.2 ts rfl) d he.1
    · exact he

/-- A choice is plain. -/
lemma runAlt_plain (h : ∀ e, (run e).Plain) :
    ∀ (es : List Grammar) (best : Option (Mismatch × Nat)), Matcher.Plain (runAlt run es best)
  | [], none, c, hc => ⟨hc, nofun⟩
  | [], some (m, _), c, hc => ⟨hc.remember m, nofun⟩
  | e :: es, best, c, hc => by
    have he := h e c hc
    unfold runAlt
    split
    · rename_i ts d heq
      rw [heq] at he
      exact ⟨he.1.accept, fun us hus => Outcome.matched.inj hus ▸ he.2 ts rfl⟩
    · exact runAlt_plain h es best c hc
    · rename_i m d heq
      rw [heq] at he
      have hs := hc.stop he.1 m
      split
      · rename_i c' hstop
        rw [hstop] at hs
        exact ⟨hs, nofun⟩
      · rename_i c' hstop
        rw [hstop] at hs
        exact runAlt_plain h es _ c' hs

/-- A repetition is plain. -/
lemma runMany_plain {m : Matcher} (h : m.Plain) : ∀ (limit : Nat) {done : List Tree},
    Tree.PlainAll done → Matcher.Plain (runMany m limit done)
  | 0, done, hd, c, hc => ⟨hc, fun ts hts => Outcome.matched.inj hts ▸ hd⟩
  | limit + 1, done, hd, c, hc => by
    have hm := h c hc
    unfold runMany
    split
    · rename_i ts d heq
      rw [heq] at hm
      exact runMany_plain h limit (Tree.plainAll_append hd (hm.2 ts rfl)) _ hm.1.accept
    · rename_i d heq
      rw [heq] at hm
      exact ⟨hm.1.accept, fun us hus => Outcome.matched.inj hus ▸ hd⟩
    · rename_i x d heq
      rw [heq] at hm
      have hs := (hc.remember x).stop hm.1 x
      split
      · rename_i c' hstop
        rw [hstop] at hs
        exact ⟨hs, nofun⟩
      · rename_i c' hstop
        rw [hstop] at hs
        exact ⟨hs, fun us hus => Outcome.matched.inj hus ▸ hd⟩

/-- A match of one token. -/
lemma take_eq {c d : Cursor} {p : Token → Bool} {ts : List Tree}
    (h : c.take p = (.matched ts, d)) : ∃ t, ts = [.leaf t] ∧ p t := by
  unfold Cursor.take at h
  split at h
  · rename_i l rest _
    split at h
    · rename_i hp
      obtain ⟨hts, -⟩ := Prod.mk.inj h
      exact ⟨l.token, (Outcome.matched.inj hts).symm, (Bool.and_eq_true_iff.1 hp).2⟩
    · cases h
  · cases h

/-- The trees of the later parts of a sequence come after those of the earlier ones. -/
lemma runRest_eq : ∀ {es : List Grammar} {done ts : List Tree} {c d : Cursor},
    runRest run es done c = (.matched ts, d) → ∃ us, ts = done ++ us
  | [], done, ts, c, d, h => ⟨[], by simpa using (Outcome.matched.inj (Prod.mk.inj h).1).symm⟩
  | e :: es, done, ts, c, d, h => by
    unfold runRest at h
    split at h
    · obtain ⟨us, rfl⟩ := runRest_eq h
      exact ⟨_, List.append_assoc ..⟩
    · cases h
    · cases h

/-- A foreign function is named by an identifier. -/
lemma run_externDefinition {fuel : Nat} {c d : Cursor} {ts : List Tree}
    (h : Grammar.run fuel Rule.externDefinition.body c = (.matched ts, d)) :
    ∃ a t rest, ts = a :: .leaf t :: rest ∧ t.cls = .ident := by
  cases fuel with
  | zero => cases h
  | succ fuel =>
    simp only [Grammar.run, Rule.body, List.cons_append, runSeq] at h
    split at h
    · rename_i ts₁ d₁ h₁
      cases fuel with
      | zero => cases h₁
      | succ fuel =>
        simp only [Grammar.run] at h₁
        obtain ⟨a, rfl, -⟩ := take_eq h₁
        simp only [runRest] at h
        split at h
        · rename_i ts₂ d₂ h₂
          simp only [Grammar.run] at h₂
          obtain ⟨t, rfl, ht⟩ := take_eq h₂
          obtain ⟨us, rfl⟩ := runRest_eq h
          exact ⟨_, t, us, rfl, by simpa using ht⟩
        · cases h
        · cases h
    · rename_i other hne
      exact absurd h (hne ts d)

/-- **Matching makes plain trees** from plain tokens.

**Proof sketch.** By induction on the fuel. Every way of matching puts together the trees of its
parts, and a foreign function is matched by a sequence that starts with a word and an identifier. -/
theorem run_plain : ∀ (fuel : Nat) (e : Grammar), (Grammar.run fuel e).Plain
  | 0, _, c, hc => ⟨hc, nofun⟩
  | fuel + 1, e, c, hc => by
    have ih := run_plain fuel
    cases e with
    | literal s => exact Cursor.take_plain _ c hc
    | token cls => exact Cursor.take_plain _ c hc
    | seq es => exact runSeq_plain ih es c hc
    | alt es => exact runAlt_plain ih es none c hc
    | optional e => exact runMany_plain (ih e) 1 Tree.plainAll_nil c hc
    | many e => exact runMany_plain (ih e) _ Tree.plainAll_nil c hc
    | ahead e =>
      simp only [Grammar.run]
      split
      · exact ⟨hc, fun ts hts => Outcome.matched.inj hts ▸ trivial⟩
      · exact ⟨hc, nofun⟩
    | rule r =>
      have hr := ih r.body c hc
      simp only [Grammar.run]
      split
      · rename_i ts d heq
        rw [heq] at hr
        refine ⟨hr.1, fun us hus => Outcome.matched.inj hus ▸ ⟨⟨hr.2 ts rfl, ?_⟩, trivial⟩⟩
        rintro rfl
        exact run_externDefinition heq
      · rename_i d heq
        rw [heq] at hr
        exact ⟨hr.1, nofun⟩
      · rename_i m d heq
        rw [heq] at hr
        exact ⟨hr.1.remember m, nofun⟩

end Grammar

/-- The tokens that reach the grammar are tokens of the text. -/
lemma Lexeme.mem_of_mem_ofTokens : ∀ {ts : List Token} {l : Lexeme}, l ∈ ofTokens ts → l.token ∈ ts
  | [], _, h => nomatch h
  | [t], l, h => by
    unfold ofTokens at h
    split at h
    · cases h
    · obtain rfl := List.mem_singleton.1 h
      exact List.mem_singleton_self t
  | t :: u :: rest, l, h => by
    unfold ofTokens at h
    split at h
    · exact List.mem_cons_of_mem t (mem_of_mem_ofTokens h)
    · obtain rfl | h := List.mem_cons.1 h
      · exact List.mem_cons_self
      · exact List.mem_cons_of_mem t (mem_of_mem_ofTokens h)

/-- The tree of plain tokens is plain. -/
lemma Tree.plain_of_ofTokens {tokens : List Token} {tree : Tree} (h : ∀ t ∈ tokens, t.Plain)
    (ht : Tree.ofTokens tokens = .ok tree) : tree.Plain := by
  unfold Tree.ofTokens at ht
  extract_lets lexemes here start at ht
  have hstart : start.Plain := fun l hl => h l.token (Lexeme.mem_of_mem_ofTokens hl)
  have hrun := Grammar.run_plain (Grammar.fuelFor tokens.length) (.rule .program) start hstart
  split at ht
  · cases ht
  · cases ht
  · rename_i ts c heq
    rw [heq] at hrun
    split at ht
    · split at ht
      · obtain rfl := Except.ok.inj ht
        exact (hrun.2 _ rfl).1
      · cases ht
    · split at ht
      · split at ht <;> cases ht
      · cases ht

/-! ## Syntax -/

namespace Fragment

/-- Fragments in which foreign functions have plain names. -/
def Plain : Fragment → Prop
  | .foreign f => IsPlain f.name
  | .program p => ∀ f ∈ p.foreigns, IsPlain f.name
  | _ => True

/-- A function is plain. -/
lemma function_plain (pos endPos : Position) (fs : List Fragment) :
    (function pos endPos fs).2.Plain := by
  simp only [function]
  split <;> trivial

/-- A condition is plain. -/
lemma conditional_plain (pos : Position) (fs : List Fragment) : (conditional pos fs).Plain := by
  unfold conditional
  extract_lets
  split
  · split <;> trivial
  · trivial

/-- A word is plain. -/
lemma word_plain (pos : Position) (t : Token) : (word pos t).2.Plain := by
  unfold word
  split
  · trivial
  · trivial
  · split
    · trivial
    · split <;> trivial

/-- The action of a rule keeps the names of foreign functions plain. Most rules make other
fragments. -/
lemma ofRule_plain {r : Rule} {pos endPos : Position} {fs : List Fragment}
    (h : ∀ f ∈ fs, f.Plain) (hr : r = .externDefinition →
      ∃ a t rest, fs = a :: .token t :: rest ∧ IsPlain t.text) :
    (ofRule r pos endPos fs).2.Plain := by
  unfold ofRule
  split
  case h_1 =>
    intro f hf
    obtain ⟨g, hg, he⟩ := List.mem_filterMap.1 hf
    cases g with
    | foreign g => exact Option.some.inj he ▸ h _ hg
    | _ => cases he
  case h_2 | h_4 | h_18 => exact h _ (List.mem_singleton_self _)
  case h_8 => exact function_plain _ _ _
  case h_12 => exact conditional_plain _ _
  case h_38 => exact word_plain _ _
  case h_44 =>
    obtain ⟨a, t, rest, heq, ht⟩ := hr rfl
    obtain ⟨rfl, heq⟩ := List.cons.inj heq
    obtain ⟨rfl, rfl⟩ : _ = t ∧ _ = rest := by simpa using heq
    exact ht
  all_goals first | trivial | (split <;> trivial)

end Fragment

namespace Tree

mutual

/-- A plain tree stands for a plain fragment. -/
lemma interpret_plain : ∀ {t : Tree}, t.Plain → t.interpret.2.Plain
  | .leaf _, _ => trivial
  | .node r pos endPos ts, h => by
    obtain ⟨hts, hr⟩ := h
    refine Fragment.ofRule_plain (interpretAll_plain hts) fun hextern => ?_
    obtain ⟨a, t, rest, rfl, ht⟩ := hr hextern
    exact ⟨a.interpret.2, t, (interpretAll rest).2, rfl, hts.2.1 ht⟩

/-- The fragments of plain trees are plain. -/
lemma interpretAll_plain : ∀ {ts : List Tree}, PlainAll ts → ∀ f ∈ (interpretAll ts).2, f.Plain
  | [], _ => List.forall_mem_nil _
  | _ :: _, h => List.forall_mem_cons.2 ⟨interpret_plain h.1, interpretAll_plain h.2⟩

end

end Tree

/-- **Names of foreign functions are plain**. -/
theorem ProgramSyntax.isPlain_of_parse {file : String} {rs : List Rune} {p : ProgramSyntax}
    (h : (ProgramSyntax.parse file rs).2 = some p) : ∀ f ∈ p.foreigns, IsPlain f.name := by
  unfold ProgramSyntax.parse at h
  have hscan : ∀ t ∈ (Token.scan file rs).1, t.Plain := Token.plain_of_scanFrom _ _ _
  split at h
  · cases h
  · rename_i tokens heq
    rw [heq] at hscan
    split at h
    · cases h
    · rename_i tree htree
      have hplain := Tree.interpret_plain (Tree.plain_of_ofTokens hscan htree)
      split at h
      · rename_i ds q hq
        rw [hq] at hplain
        obtain rfl := Option.some.inj h
        exact hplain
      · obtain rfl := Option.some.inj h
        exact List.forall_mem_nil _

end Lane
