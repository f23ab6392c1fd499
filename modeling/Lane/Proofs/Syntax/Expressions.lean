import Lane.Proofs.Syntax.Lists
import Mathlib.Tactic.IntervalCases

set_option relaxedAutoImplicit false
set_option autoImplicit false

/-!
# Reading types and expressions

The words of an expression are read as the expression, on every level of the grammar, before words
that are no suffixes and no operators of this level or a higher one. An expression of a level is an
operand of the next level with operators after it, which is what the rules take apart.

## Main definitions

* `Lane.Expr.closes`: words that end an expression of a level.
* `Lane.Expr.ReadAt`: words that are read as an expression on a level.

## Main results

* `Lane.TypeExpr.reads`: types are read.
* `Lane.Expr.readAt`: expressions are read on every level.
-/

namespace Lane

open Grammar Word

/-! ## Types -/

/-- A name is no keyword, so it starts nothing that no name starts. -/
lemma IsName.avoids {s : String} (h : IsName s) {e : Grammar}
    (he : ∀ t ∈ e.literals, t ∈ Rule.keywords) (h' : e.avoids (name "_")) : e.avoids (name s) :=
  avoids_of_not_mem h.2 he h'

/-- A name starts no choice that no name starts. -/
lemma IsName.avoidsAll {s : String} (h : IsName s) {es : List Grammar}
    (he : ∀ t ∈ literalsOf es, t ∈ Rule.keywords) (h' : avoidsAll es (name "_")) :
    avoidsAll es (name s) :=
  avoidsAll_of_not_mem h.2 he h'

/-- The word of a container. -/
lemma ContainerKind.isToken (k : ContainerKind) : (Word.name k.name).IsToken := by
  cases k <;> decide

/-- **Types are read.** -/
lemma TypeExpr.reads : ∀ {t : TypeExpr} {rest : List Word}, t.Proper →
    Reads 5 (.rule .type) t.words rest [.type t.unplaced]
  | .name _ n, rest, h => by
    have hname : Reads 1 (.token .ident) [Word.name n] rest [(Word.name n).fragment] :=
      reads_token h.1
    have hrule : Reads 2 Rule.type.body [Word.name n] rest [(Word.name n).fragment] :=
      hname.choice 1 rfl (IsName.avoidsAll h (by decide) (by decide))
    exact (hrule.rule rfl).mono (by omega)
  | .container _ k t, rest, h => by
    have hword : Reads 2 (oneOf ["ptr", "array", "simd"]) [Word.name k.name]
        (inBraces t.words ++ rest) [(Word.name k.name).fragment] :=
      reads_oneOf k.isToken (by cases k <;> decide)
    have hinner : ReadsAll 100 [.literal "\x7b", .rule .type, .literal "\x7d"] (inBraces t.words)
        rest ((punct "\x7b").fragment :: .type t.unplaced :: [(punct "\x7d").fragment]) :=
      .literal (by decide) rfl (by omega) (.next (TypeExpr.reads (t := t) h) (by omega)
        (.literal (by decide) rfl (by omega) .nil))
    have hseq := (ReadsAll.cons hword (List.cons_ne_nil _ _) (le_refl 2) hinner).seq
    have hrule : Reads 4 Rule.type.body _ rest _ := hseq.alt 0 rfl (by simp)
    exact hrule.rule (by cases k <;> rfl)

/-! ## The first word of an expression -/

/-- The keywords with which an expression may start, and words of the classes of names and
numbers. -/
def firstWords : List Word :=
  [⟨.ident, "_"⟩, ⟨.int, "_"⟩, ⟨.real, "_"⟩, name "true", name "false", name "self", name "c_call",
    punct "(", op "-", name "not"]

/-- **Words with which an expression may start.** -/
def StartsExpr (w : Word) : Prop :=
  w ∈ firstWords ∨ w.text ∉ Rule.keywords ∧ ⟨w.cls, "_"⟩ ∈ firstWords

/-- Words with which an expression without operators may start. -/
def StartsPostfix (w : Word) : Prop := StartsExpr w ∧ w ≠ op "-" ∧ w ≠ name "not"

/-- A word that starts expressions starts nothing else. -/
lemma StartsExpr.avoids {w : Word} (h : StartsExpr w) {e : Grammar}
    (he : ∀ t ∈ e.literals, t ∈ Rule.keywords)
    (h' : ∀ v ∈ firstWords, e.avoids v) : e.avoids w := by
  obtain h | ⟨hkey, h⟩ := h
  · exact h' w h
  · exact avoids_of_not_mem hkey he (h' _ h)

/-- Names start postfix expressions. -/
lemma startsExpr_name {s : String} (h : IsName s) : StartsPostfix (name s) := by
  refine ⟨.inr ⟨h.2, by simp [firstWords, name]⟩, fun he => ?_, fun he => h.2 ?_⟩
  · cases he
  · obtain rfl : s = "not" := congrArg Word.text he
    decide

/-- No keyword is scanned as a number. -/
lemma scanned_keyword : ∀ s ∈ Rule.keywords, (Token.next? (Rune.ofString s)).all fun q =>
    q.1 != .int && q.1 != .real := by
  decide +kernel

/-- Numbers are no keywords. -/
lemma not_keyword_of_number (s : String) (hs : s ∈ Rule.keywords) :
    ¬(⟨.int, s⟩ : Word).IsToken ∧ ¬(⟨.real, s⟩ : Word).IsToken := by
  have hscan := scanned_keyword s hs
  refine ⟨fun h => ?_, fun h => ?_⟩
  all_goals
    rw [show Token.next? (Rune.ofString s) = _ from h.1] at hscan
    simp at hscan

/-- A truth value has one of two texts. -/
lemma Literal.text_of_bool {l : Literal} (h : l.Proper) (hcls : l.spelling.cls = .ident) :
    l.text = "true" ∨ l.text = "false" := by
  have hword := h.2
  rw [hcls] at hword
  by_contra hne
  rw [not_or] at hne
  simp only [Fragment.word, beq_false_of_ne hne.1, beq_false_of_ne hne.2, Bool.or_self,
    Bool.false_eq_true, if_false] at hword
  split at hword <;> simp at hword

/-- Literals start postfix expressions. -/
lemma Literal.startsPostfix {l : Literal} (h : l.Proper) : StartsPostfix l.spelling := by
  have hcls : l.spelling.cls = .ident ∨ l.spelling.cls = .int ∨ l.spelling.cls = .real := by
    cases hv : l.value <;> simp [Literal.spelling, hv]
  have hword : l.spelling = ⟨l.spelling.cls, l.text⟩ := rfl
  obtain hc | hc | hc := hcls
  · rw [hword, hc]
    obtain ht | ht := Literal.text_of_bool h hc <;> rw [ht] <;> exact ⟨.inl (by decide), by decide⟩
  all_goals
    rw [hword, hc]
    have htoken := h.1
    rw [hword, hc] at htoken
    refine ⟨.inr ⟨fun hmem => ?_, by simp [firstWords]⟩, by simp [op], by simp [name]⟩
    first
      | exact (not_keyword_of_number _ hmem).1 htoken
      | exact (not_keyword_of_number _ hmem).2 htoken

/-- There are five levels of operators. -/
lemma BinaryOp.level_lt (o : BinaryOp) : o.level < 5 := by cases o <;> decide

namespace Fragment

/-- The expressions of fragments in sequence. -/
@[simp] lemma exprs_append (fs gs : List Fragment) : exprs (fs ++ gs) = exprs fs ++ exprs gs :=
  List.filterMap_append

/-- A word is no expression. -/
@[simp] lemma exprs_fragment (w : Word) (fs : List Fragment) :
    exprs (w.fragment :: fs) = exprs fs :=
  rfl

/-- The expressions among expressions. -/
lemma exprs_map_expr : ∀ xs : List Expr, exprs (xs.map .expr) = xs
  | [] => rfl
  | x :: xs => congrArg (x :: ·) (exprs_map_expr xs)

/-- The expressions of a list with commas. -/
lemma exprs_separated (xs : List Expr) : exprs (separatedFragments (xs.map .expr)) = xs :=
  (filterMap_separatedFragments rfl _).trans (exprs_map_expr xs)

end Fragment

namespace Expr

/-- The levels of expressions are at most six. -/
lemma level_le : ∀ x : Expr, x.level ≤ 6
  | .binary _ o _ _ => Nat.le_of_lt (Nat.lt_succ_of_lt o.level_lt)
  | .unary .. => Nat.le_succ 5
  | .ident .. | .self .. | .literal .. | .member .. | .index .. | .deref .. | .method ..
  | .routine .. | .ccall .. => le_refl 6

/-- An expression starts with a word. -/
def HasFirst (x : Expr) : Prop :=
  ∃ w ws, x.words = w :: ws ∧ StartsExpr w ∧ (x.level = 6 → StartsPostfix w)

/-- An expression on some level starts with a word. -/
lemma HasFirst.atLevel {x : Expr} (h : x.HasFirst) (l : Nat) :
    ∃ w ws, atLevel l x.level x.words = w :: ws ∧ StartsExpr w ∧ (l = 6 → StartsPostfix w) := by
  have hparen : StartsPostfix (punct "(") := ⟨.inl (by decide), by decide⟩
  obtain ⟨w, ws, hw, hfirst, hpost⟩ := h
  by_cases hl : x.level < l
  · exact ⟨_, _, if_pos hl, hparen.1, fun _ => hparen⟩
  · refine ⟨w, ws, (if_neg hl).trans hw, hfirst, fun he => hpost ?_⟩
    have := x.level_le
    omega

/-- An expression that starts with another one on the tightest level. -/
lemma HasFirst.postfixed {x y : Expr} {ws : List Word} (h : x.HasFirst)
    (hw : y.words = Word.atLevel 6 x.level x.words ++ ws) : y.HasFirst := by
  obtain ⟨w, ws', hx, hfirst, hpost⟩ := h.atLevel 6
  exact ⟨w, ws' ++ ws, by rw [hw, hx, List.cons_append], hfirst, fun _ => hpost rfl⟩

/-- **The first word of an expression.** -/
lemma hasFirst : ∀ {x : Expr}, x.Proper → x.HasFirst
  | .ident _ n, h => ⟨_, _, rfl, (startsExpr_name h).1, fun _ => startsExpr_name h⟩
  | .self _, _ => ⟨_, _, rfl, .inl (by decide), fun _ => ⟨.inl (by decide), by decide⟩⟩
  | .literal _ l, h => ⟨_, _, rfl, (Literal.startsPostfix h).1, fun _ => Literal.startsPostfix h⟩
  | .unary _ o x, _ => by
    refine ⟨_, _, rfl, .inl ?_, fun he => by cases he⟩
    cases o <;> decide
  | .binary _ o x y, h => by
    obtain ⟨w, ws, hx, hfirst, -⟩ := (hasFirst h.1).atLevel o.level
    refine ⟨w, ws ++ o.word :: Word.atLevel (o.level + 1) y.level y.words, ?_, hfirst,
      fun he => ?_⟩
    · rw [words, hx, List.cons_append]
    · exact absurd he (Nat.ne_of_lt (Nat.lt_succ_of_lt o.level_lt))
  | .member _ x n, h => (hasFirst h.1).postfixed rfl
  | .index _ x i, h => (hasFirst h.1).postfixed (List.append_assoc ..)
  | .deref _ x, h => (hasFirst (x := x) h).postfixed rfl
  | .method _ x n args, h => (hasFirst h.1).postfixed rfl
  | .routine _ none n args, h =>
    ⟨_, _, rfl, (startsExpr_name h.2.1).1, fun _ => startsExpr_name h.2.1⟩
  | .routine _ (some c) n args, h =>
    have hc := startsExpr_name (h.1 c rfl)
    ⟨_, _, rfl, hc.1, fun _ => hc⟩
  | .ccall _ n args, _ => ⟨_, _, rfl, .inl (by decide), fun _ => ⟨.inl (by decide), by decide⟩⟩

/-- A proper expression has words. -/
lemma words_ne_nil {x : Expr} (h : x.Proper) : x.words ≠ [] := by
  obtain ⟨w, ws, hw, -⟩ := hasFirst h
  simp [hw]

/-! ## Levels -/

/-- The rule of a level. -/
def levelRule : Nat → Rule
  | 0 => .expression
  | 1 => .conjunction
  | 2 => .comparison
  | 3 => .sum
  | 4 => .term
  | 5 => .unary
  | _ => .postfixed

/-- The rule of the operators of a level, with their right operands. -/
def operatorRule : Nat → Rule
  | 0 => .opDisjunction
  | 1 => .opConjunction
  | 2 => .opComparison
  | 3 => .opSum
  | _ => .opTerm

/-- Each level is a list of operands of the next. -/
lemma body_levelRule {l : Nat} (hl : l < 5) : (levelRule l).body =
    .seq [.rule (levelRule (l + 1)), .many (.rule (operatorRule l))] := by
  interval_cases l <;> rfl

/-- A level of operators gives its operands, applied from the left. -/
lemma ofRule_levelRule {l : Nat} (hl : l < 5) (x : Expr) (fs : List Fragment) :
    Fragment.ofRule (levelRule l) {} {} (.expr x :: fs) =
      ([], .expr (Fragment.applyOperands x fs)) := by
  interval_cases l <;> rfl

/-- **Words that end an expression of a level**: they are no suffixes, make no call of a name, and
are no operators of the level or a higher one. -/
def closes (l : Nat) (w : Word) : Bool :=
  w.text != "(" && w.text != "::" && (Grammar.rule .suffixed).avoids w &&
    (List.range 5).all fun k => k < l || (Grammar.rule (operatorRule k)).avoids w

/-- **Words that are read as an expression on a level.** -/
def ReadAt (l : Nat) (ws : List Word) (x : Expr) : Prop :=
  ∀ w rest, closes l w → Reads (20 - 2 * l) (.rule (levelRule l)) ws (w :: rest) [.expr x]

/-- **Operands of the next level with operators after them**, of which an expression of a level
consists. -/
def SpineAt (l : Nat) (ws : List Word) (x : Expr) : Prop :=
  ∀ w rest, closes (l + 1) w → ∃ ws₁ ws₂ y fs, ws = ws₁ ++ ws₂ ∧ ws₁ ≠ [] ∧
    Reads (20 - 2 * (l + 1)) (.rule (levelRule (l + 1))) ws₁ (ws₂ ++ w :: rest) [.expr y] ∧
    Repeats 4 (.rule (operatorRule l)) ws₂ (w :: rest) fs ∧ Fragment.applyOperands y fs = x

section Levels

variable {l l' : Nat} {w : Word} {ws : List Word} {x y : Expr}

/-- What closes a level closes those above it. -/
lemma closes_mono (h : closes l w) (hl : l ≤ l') : closes l' w := by
  unfold closes at h ⊢
  rw [Bool.and_eq_true] at h ⊢
  refine ⟨h.1, List.all_eq_true.2 fun k hk => ?_⟩
  obtain hk | hk := Bool.or_eq_true_iff.1 (List.all_eq_true.1 h.2 k hk)
  · exact Bool.or_eq_true_iff.2 (.inl (decide_eq_true (lt_of_lt_of_le (of_decide_eq_true hk) hl)))
  · exact Bool.or_eq_true_iff.2 (.inr hk)

/-- A word that closes a level is none of its operators. -/
lemma avoids_operator (h : closes l w) (hl : l < 5) :
    (Grammar.rule (operatorRule l)).avoids w := by
  unfold closes at h
  have hall := List.all_eq_true.1 (Bool.and_eq_true_iff.1 h).2 l (List.mem_range.2 hl)
  simpa using hall

/-- An operand of the next level is an expression of a level. -/
lemma ReadAt.spineAt (h : ReadAt (l + 1) ws x) (hne : ws ≠ []) : SpineAt l ws x :=
  fun w rest hw => ⟨ws, [], x, [], (List.append_nil ws).symm, hne, h w rest hw, .nil, rfl⟩

/-- **An expression of a level is read** if its operands and operators are. -/
lemma SpineAt.readAt (h : SpineAt l ws x) (hl : l < 5) : ReadAt l ws x := by
  intro w rest hw
  obtain ⟨ws₁, ws₂, y, fs, rfl, hne, hy, hfs, rfl⟩ := h w rest (closes_mono hw (Nat.le_succ l))
  have hmany : Reads 5 (.many (.rule (operatorRule l))) ws₂ (w :: rest) fs :=
    hfs.many (avoids_operator hw hl)
  have hseq : Reads _ (.seq [_, _]) _ (w :: rest) _ :=
    (ReadsAll.cons hy hne le_rfl (.last hmany (by omega))).seq
  rw [← body_levelRule hl] at hseq
  exact (hseq.rule (ofRule_levelRule hl y fs)).mono (by omega)

/-- An operator with its right operand is read. -/
lemma reads_operator (o : BinaryOp) {i : Nat} {rest : List Word}
    (h : Reads i (.rule (levelRule (o.level + 1))) ws rest [.expr y]) (hi : i ≤ 100) :
    Reads 4 (.rule (operatorRule o.level)) (o.word :: ws) rest [.operand {} o y] := by
  have hbody : ∃ e, (operatorRule o.level).body = .seq [e, .rule (levelRule (o.level + 1))] ∧
      ∀ more, Reads 2 e [o.word] more [o.word.fragment] := by
    cases o
    case and =>
      have hand : ∀ more, Reads 1 (.literal "and") [BinaryOp.and.word] more _ := fun more =>
        reads_literal (by decide) rfl
      exact ⟨_, rfl, fun more => (hand more).mono (by omega)⟩
    all_goals exact ⟨_, rfl, fun more => reads_oneOf (by decide) (by decide)⟩
  obtain ⟨e, hbody, he⟩ := hbody
  have hseq : Reads 3 (.seq [e, .rule (levelRule (o.level + 1))]) (o.word :: ws) rest
      [o.word.fragment, .expr y] :=
    (ReadsAll.cons (he _) (List.cons_ne_nil _ _) le_rfl (.last h hi)).seq
  rw [← hbody] at hseq
  exact hseq.rule (by cases o <;> rfl)

/-- An operator closes the level above its own. -/
lemma closes_operator (o : BinaryOp) : closes (o.level + 1) o.word := by
  cases o <;> decide

/-- **An operator is read after its left operand.** -/
lemma SpineAt.binary {o : BinaryOp} {ws' : List Word} (hx : SpineAt o.level ws x)
    (hy : ReadAt (o.level + 1) ws' y) :
    SpineAt o.level (ws ++ o.word :: ws') (.binary {} o x y) := by
  intro w rest hw
  obtain ⟨ws₁, ws₂, z, fs, rfl, hne, hz, hfs, rfl⟩ :=
    hx o.word (ws' ++ w :: rest) (closes_operator o)
  have hoperand : Reads 4 (.rule (operatorRule o.level)) (o.word :: ws') (w :: rest)
      [.operand {} o y] := reads_operator o (hy w rest hw) (by omega)
  refine ⟨ws₁, ws₂ ++ o.word :: ws', z, fs ++ [.operand {} o y], by simp, hne, ?_,
    .snoc hfs hoperand (List.cons_ne_nil _ _), ?_⟩
  · simpa using hz
  · simp [Fragment.applyOperands]

/-- An operator with one operand is read. -/
lemma ReadAt.unary (o : UnaryOp) (h : ReadAt 5 ws x) : ReadAt 5 (o.word :: ws) (.unary {} o x) := by
  intro w rest hw
  have hword : Reads 2 (oneOf ["-", "not"]) [o.word] (ws ++ w :: rest) [o.word.fragment] :=
    reads_oneOf (by cases o <;> decide) (by cases o <;> decide)
  have hseq : Reads 3 (.seq [oneOf ["-", "not"], .rule .unary]) (o.word :: ws) (w :: rest)
      [o.word.fragment, .expr x] :=
    (ReadsAll.cons hword (List.cons_ne_nil _ _) le_rfl (.last (h w rest hw) (by omega))).seq
  have hbody : Reads 4 Rule.unary.body _ (w :: rest) _ := hseq.alt 0 rfl (by simp)
  exact (hbody.rule (by cases o <;> rfl)).mono (by omega)

/-- A postfix expression starts with no unary operator. -/
lemma avoids_unary {w : Word} (h : StartsPostfix w) :
    (Grammar.seq [oneOf ["-", "not"], .rule .unary]).avoids w := by
  obtain ⟨h | ⟨hkey, h⟩, hneg, hnot⟩ := h
  · have hall : ∀ w ∈ firstWords, w ≠ op "-" → w ≠ name "not" →
        (Grammar.seq [oneOf ["-", "not"], .rule .unary]).avoids w := by decide
    exact hall w h hneg hnot
  · refine avoids_of_not_mem hkey (by decide) ?_
    have hall : ∀ w ∈ firstWords, w.text = "_" →
        (Grammar.seq [oneOf ["-", "not"], .rule .unary]).avoids w := by decide
    exact hall _ h rfl

/-- An expression without operators is read on the level of operators with one operand. -/
lemma ReadAt.of_postfixed {v : Word} (h : ReadAt 6 (v :: ws) x) (hv : StartsPostfix v) :
    ReadAt 5 (v :: ws) x := by
  intro w rest hw
  have hrule : Reads 8 (.rule .postfixed) (v :: ws) (w :: rest) [.expr x] :=
    h w rest (closes_mono hw (by omega))
  have hbody : Reads 9 Rule.unary.body (v :: ws) (w :: rest) [.expr x] := by
    refine hrule.choice 1 rfl (avoidsAll_iff.2 fun e he => ?_)
    obtain rfl := List.mem_singleton.1 he
    exact avoids_unary hv
  exact hbody.rule rfl

/-- **An expression of a level is read on lower levels.** -/
lemma ReadAt.lower {v : Word} {m : Nat} (h : ReadAt m (v :: ws) x) (hm : m ≤ 6)
    (hv : m = 6 → StartsPostfix v) : ∀ l ≤ m, ReadAt l (v :: ws) x := by
  intro l hl
  induction hl using Nat.decreasingInduction with
  | self => exact h
  | of_succ k hk ih =>
    obtain hlt | rfl := Nat.lt_or_eq_of_le (show k ≤ 5 by omega)
    · exact (ih.spineAt (List.cons_ne_nil _ _)).readAt hlt
    · exact ih.of_postfixed (hv (by omega))

end Levels

/-! ## Primary expressions and suffixes -/

/-- **A primary expression with suffixes after it**, of which an expression without operators
consists. The next word makes no call of a name. -/
def SuffixesAt (ws : List Word) (x : Expr) : Prop :=
  ∀ w rest, w.text ≠ "(" → w.text ≠ "::" → ∃ ws₁ ws₂ y fs, ws = ws₁ ++ ws₂ ∧ ws₁ ≠ [] ∧
    Reads 6 (.rule .factor) ws₁ (ws₂ ++ w :: rest) [.expr y] ∧
    Repeats 4 (.rule .suffixed) ws₂ (w :: rest) fs ∧ Fragment.applySuffixes y fs = x

section Suffixes

variable {w : Word} {ws ws' rest : List Word} {x : Expr} {n : String}

/-- A primary expression has no suffixes. -/
lemma suffixesAt_of_factor (hne : ws ≠ []) (h : ∀ w rest, w.text ≠ "(" → w.text ≠ "::" →
    Reads 6 (.rule .factor) ws (w :: rest) [.expr x]) : SuffixesAt ws x :=
  fun w rest hw hw' => ⟨ws, [], x, [], (List.append_nil ws).symm, hne, h w rest hw hw', .nil, rfl⟩

/-- **An expression without operators is read** if its primary expression and suffixes are. -/
lemma SuffixesAt.readAt (h : SuffixesAt ws x) : ReadAt 6 ws x := by
  intro w rest hw
  simp only [closes, Bool.and_eq_true, bne_iff_ne, ne_eq] at hw
  obtain ⟨⟨⟨hparen, hcolons⟩, hsuffix⟩, -⟩ := hw
  obtain ⟨ws₁, ws₂, y, fs, rfl, hne, hy, hfs, rfl⟩ := h w rest hparen hcolons
  have hseq : Reads 7 (.seq [.rule .factor, .many (.rule .suffixed)]) (ws₁ ++ ws₂) (w :: rest)
      (.expr y :: fs) :=
    (ReadsAll.cons hy hne le_rfl (.last (hfs.many hsuffix) (by omega))).seq
  exact hseq.rule rfl

/-- **A suffix is read after an expression.** -/
lemma SuffixesAt.snoc {s : Selector} {v : Word} (h : SuffixesAt ws x) (hv : v.text ≠ "(")
    (hv' : v.text ≠ "::") (hs : ∀ w rest, w.text ≠ "(" →
      Reads 4 (.rule .suffixed) (v :: ws') (w :: rest) [.suffix {} s]) :
    SuffixesAt (ws ++ v :: ws') (s.apply {} x) := by
  intro w rest hw hw'
  obtain ⟨ws₁, ws₂, y, fs, rfl, hne, hy, hfs, rfl⟩ := h v (ws' ++ w :: rest) hv hv'
  refine ⟨ws₁, ws₂ ++ v :: ws', y, fs ++ [.suffix {} s], by simp, hne, by simpa using hy,
    .snoc hfs (hs w rest hw) (List.cons_ne_nil _ _), ?_⟩
  simp [Fragment.applySuffixes]

/-! ### Suffixes -/

/-- A member is read as a suffix. -/
lemma reads_member (hn : IsName n) (hw : w.text ≠ "(") :
    Reads 4 (.rule .suffixed) [punct ".", name n] (w :: rest) [.suffix {} (.member n)] := by
  have hnone : Reads 1 (.optional (.seq (parenthesized .expression))) [] (w :: rest) [] := by
    refine reads_optional_none ?_
    exact Bool.or_eq_true_iff.2 (.inl (bne_iff_ne.2 hw))
  have hsuffix : Reads 3 (.rule .memberSuffix) [name n] (w :: rest) [.selector (.member n)] :=
    (ReadsAll.token hn.1 rfl le_rfl (.last hnone (by omega))).seq.rule rfl
  have hall : ReadsAll 1 [.literal ".", .rule .memberSuffix] [punct ".", name n] (w :: rest)
      [(punct ".").fragment, .selector (.member n)] :=
    .literal (by decide) rfl le_rfl (.last hsuffix (by omega))
  exact (hall.seq.alt 0 rfl (by simp)).rule rfl

/-- A dereference is read as a suffix. -/
lemma reads_deref : Reads 4 (.rule .suffixed) [op "^"] rest [.suffix {} .deref] := by
  have hword : Reads 1 (.literal "^") [op "^"] rest [(op "^").fragment] :=
    reads_literal (by decide) rfl
  exact ((hword.choice 2 rfl rfl).rule rfl).mono (by omega)

/-- An expression is read in front of any of the words that end expressions in lists and
brackets. -/
lemma ReadAt.reads (h : ReadAt 0 ws x) (hw : closes 0 w) :
    Reads 20 (.rule .expression) ws (w :: rest) [.expr x] :=
  h w rest hw

/-- An index is read as a suffix. -/
lemma reads_index {i : Expr} (h : ReadAt 0 ws i) :
    Reads 4 (.rule .suffixed) (punct "[" :: (ws ++ [punct "]"])) rest [.suffix {} (.index i)] := by
  have hclose : ReadsAll 100 [.literal "]"] [punct "]"] rest [(punct "]").fragment] :=
    .literal (by decide) rfl (by omega) .nil
  have hindex : Reads 20 (.rule .expression) ws ([punct "]"] ++ rest) [.expr i] :=
    h.reads rfl
  have hall : ReadsAll 1 [.literal "[", .rule .expression, .literal "]"]
      (punct "[" :: (ws ++ [punct "]"])) rest
      [(punct "[").fragment, .expr i, (punct "]").fragment] :=
    .literal (by decide) rfl le_rfl (.next hindex (by omega) hclose)
  exact (hall.seq.choice 1 rfl rfl).rule rfl

/-! ### Arguments -/

/-- Arguments with their words. -/
def argumentItems (args : List Expr) : List (List Word × Fragment) :=
  args.map fun x => (x.words, .expr x.unplaced)

/-- Arguments are items of a list. -/
lemma items_of_args {args : List Expr} {stop : Word} (hstop : closes 0 stop)
    (h : ∀ x ∈ args, ReadAt 0 x.words x.unplaced ∧ x.words ≠ []) :
    Items 20 .expression stop (argumentItems args) where
  ne_nil q hq := by
    obtain ⟨x, hx, rfl⟩ := List.mem_map.1 hq
    exact (h x hx).2
  reads q hq w rest hw := by
    obtain ⟨x, hx, rfl⟩ := List.mem_map.1 hq
    obtain rfl | rfl := hw
    · exact (h x hx).1.reads rfl
    · exact (h x hx).1.reads hstop

/-- The words of arguments. -/
lemma words_argumentItems (args : List Expr) :
    (argumentItems args).map Prod.fst = args.map words := by
  simp [argumentItems, Function.comp_def]

/-- The fragments of arguments in parentheses. -/
def argumentFragments (args : List Expr) : List Fragment :=
  (punct "(").fragment :: separatedFragments ((argumentItems args).map Prod.snd) ++
    [(punct ")").fragment]

/-- The expressions among arguments. -/
lemma exprs_argumentFragments (args : List Expr) :
    Fragment.exprs (argumentFragments args) = args.map unplaced := by
  have hargs : (argumentItems args).map Prod.snd = (args.map unplaced).map Fragment.expr := by
    simp [argumentItems, Function.comp_def]
  rw [argumentFragments, Fragment.exprs_append, Fragment.exprs_fragment, hargs,
    Fragment.exprs_separated]
  exact List.append_nil _

/-- **Arguments in parentheses are read.** -/
lemma readsAll_arguments {args : List Expr}
    (h : ∀ x ∈ args, ReadAt 0 x.words x.unplaced ∧ x.words ≠ []) {j : Nat} (hj : 1 ≤ j) :
    ReadsAll j (parenthesized .expression) (inParens (separated (args.map words))) rest
      (argumentFragments args) := by
  have hitems : Items 20 .expression (punct ")") (argumentItems args) :=
    items_of_args (by decide) h
  have hnil : ReadsAll 100 [] [] rest [] := .nil
  have hall := ReadsAll.parenthesized hitems (by decide) (by omega) hj hnil
  simpa [words_argumentItems, argumentFragments] using hall

section Calls

variable {args : List Expr} (h : ∀ x ∈ args, ReadAt 0 x.words x.unplaced ∧ x.words ≠ [])

include h

/-- A call of a member function is read as a suffix. -/
lemma reads_method (hn : IsName n) :
    Reads 4 (.rule .suffixed) (punct "." :: name n :: inParens (separated (args.map words))) rest
      [.suffix {} (.call n (args.map unplaced))] := by
  have hcall : ReadsAll 1 [.token .ident, .optional (.seq (parenthesized .expression))]
      (name n :: inParens (separated (args.map words))) rest
      ((name n).fragment :: argumentFragments args) :=
    .token hn.1 rfl le_rfl (.last (readsAll_arguments h le_rfl).seq.optional (by omega))
  have hbody : Reads 2 Rule.memberSuffix.body _ rest _ := hcall.seq
  have hsuffix : Reads 3 (.rule .memberSuffix) _ rest [.selector (.call n (args.map unplaced))] :=
    hbody.rule (congrArg (fun xs => (([] : List Diagnostic), Fragment.selector (.call n xs)))
      (exprs_argumentFragments args))
  have hall : ReadsAll 1 [.literal ".", .rule .memberSuffix]
      (punct "." :: name n :: inParens (separated (args.map words))) rest
      [(punct ".").fragment, .selector (.call n (args.map unplaced))] :=
    .literal (by decide) rfl le_rfl (.last hsuffix (by omega))
  exact (hall.seq.alt 0 rfl (by simp)).rule rfl

/-- A call of a function is read as such. -/
lemma reads_functionCall (hn : IsName n) :
    Reads 3 (.rule .functionCall) (name n :: inParens (separated (args.map words))) rest
      [.expr (.routine {} none n (args.map unplaced))] := by
  have hall : ReadsAll 1 (.token .ident :: parenthesized .expression)
      (name n :: inParens (separated (args.map words))) rest
      ((name n).fragment :: argumentFragments args) :=
    .token hn.1 rfl le_rfl (readsAll_arguments h (by omega))
  have hbody : Reads 2 Rule.functionCall.body _ rest _ := hall.seq
  exact hbody.rule (congrArg
    (fun xs => (([] : List Diagnostic), Fragment.expr (.routine {} none n xs)))
    (exprs_argumentFragments args))

/-- A call of a routine of a class is read as such. -/
lemma reads_staticCall {c : String} (hc : IsName c) (hn : IsName n) :
    Reads 3 (.rule .staticCall)
      (name c :: op "::" :: name n :: inParens (separated (args.map words))) rest
      [.expr (.routine {} (some c) n (args.map unplaced))] := by
  have hall : ReadsAll 1
      (.token .ident :: .literal "::" :: .token .ident :: parenthesized .expression)
      (name c :: op "::" :: name n :: inParens (separated (args.map words))) rest
      ((name c).fragment :: (op "::").fragment :: (name n).fragment :: argumentFragments args) :=
    .token hc.1 rfl le_rfl (.literal (by decide) rfl (by omega)
      (.token hn.1 rfl (by omega) (readsAll_arguments h (by omega))))
  have hbody : Reads 2 Rule.staticCall.body _ rest _ := hall.seq
  exact hbody.rule (congrArg
    (fun xs => (([] : List Diagnostic), Fragment.expr (.routine {} (some c) n xs)))
    (exprs_argumentFragments args))

/-- A call of a foreign function is read as such. -/
lemma reads_ccall (hn : IsName n) :
    Reads 3 (.rule .ccall) (name "c_call" :: name n :: inParens (separated (args.map words))) rest
      [.expr (.ccall {} n (args.map unplaced))] := by
  have hall : ReadsAll 1 (.literal "c_call" :: .token .ident :: parenthesized .expression)
      (name "c_call" :: name n :: inParens (separated (args.map words))) rest
      ((name "c_call").fragment :: (name n).fragment :: argumentFragments args) :=
    .literal (by decide) rfl le_rfl
      (.token hn.1 rfl (by omega) (readsAll_arguments h (by omega)))
  have hbody : Reads 2 Rule.ccall.body _ rest _ := hall.seq
  exact hbody.rule (congrArg (fun xs => (([] : List Diagnostic), Fragment.expr (.ccall {} n xs)))
    (exprs_argumentFragments args))

end Calls

/-! ### Primary expressions -/

/-- A promise of a name and another word is broken by a different word. -/
lemma rejects_promise {s : String} {es : List Grammar} (hn : IsName n) (h : w.text ≠ s) :
    Rejects (.seq (.ahead (.seq [.token .ident, .literal s]) :: es)) (name n :: w :: rest) := by
  refine (NoneStarts.here (rejects_ahead fun m c hc ts hts => ?_)).rejects
  obtain _ | _ | m := m
  · cases hts
  · cases hts
  · obtain ⟨t, d, htake, hd, -⟩ := exists_take (p := fun t => t.cls == .ident) hc hn.1
      fun t ht => beq_iff_eq.2 (congrArg Word.cls ht)
    have hident : Grammar.run (m + 1) (.token .ident) c = (.matched [.leaf t], d) := htake
    have hseq : Grammar.run (m + 2) (.seq [.token .ident, .literal s]) c =
        runSeq (Grammar.run (m + 1)) [.token .ident, .literal s] c := rfl
    rw [hseq, runSeq, hident] at hts
    obtain ⟨d', hlit | ⟨e, hlit⟩, -⟩ := (rejects_literal h).cases (m + 1) hd <;>
      simp [runRest, hlit] at hts

/-- A name is not one of the words that primary expressions start with. -/
lemma rejects_of_name (hn : IsName n) (more : List Word) :
    ∀ e ∈ [Grammar.token .real, .token .int, oneOf ["true", "false"], .literal "self",
      .rule .ccall], Rejects e (name n :: more) :=
  rejects_of_avoidsAll (hn.avoidsAll (by decide) (by decide))

/-- A name stands for itself. -/
lemma word_of_name (hn : IsName n) :
    Fragment.word {} ⟨.ident, n, {}⟩ = ([], .expr (.ident {} n)) := by
  have hne : ∀ s ∈ ["true", "false", "self"], (n == s) = false := fun s hs =>
    beq_false_of_ne fun he => hn.2 (he ▸ List.forall_mem_cons.2
      ⟨by decide, by decide⟩ s hs)
  simp only [Fragment.word, hne "true" (by simp), hne "false" (by simp), hne "self" (by simp),
    Bool.or_self, Bool.false_eq_true, if_false]

/-- A name is read as a factor. -/
lemma factor_ident (hn : IsName n) (hw : w.text ≠ "(") (hw' : w.text ≠ "::") :
    Reads 6 (.rule .factor) [name n] (w :: rest) [.expr (.ident {} n)] := by
  have hname : Reads 1 (.token .ident) [name n] (w :: rest) [(name n).fragment] := reads_token hn.1
  have hbody : Reads 2 Rule.factor.body [name n] (w :: rest) [(name n).fragment] := by
    refine hname.alt 7 rfl fun e he => ?_
    obtain he | he := List.mem_append (s := [_, _, _, _, _]) (t := [_, _]) |>.1 he
    · exact rejects_of_name hn _ e he
    · obtain rfl | he := List.mem_cons.1 he
      · exact rejects_promise hn hw'
      · obtain rfl := List.mem_singleton.1 he
        exact rejects_promise hn hw
  exact (hbody.rule (word_of_name hn)).mono (by omega)

/-- A call of a function is read as a factor. -/
lemma factor_routine {args : List Expr}
    (h : ∀ x ∈ args, ReadAt 0 x.words x.unplaced ∧ x.words ≠ []) (hn : IsName n) :
    Reads 6 (.rule .factor) (name n :: inParens (separated (args.map words))) rest
      [.expr (.routine {} none n (args.map unplaced))] := by
  have hcall : Reads 3 (.rule .functionCall) _ rest _ := reads_functionCall h hn
  have hahead : Reads 3 (.ahead (.seq [.token .ident, .literal "("])) []
      (name n :: inParens (separated (args.map words)) ++ rest) [] := by
    have hall : ReadsAll 1 [.token .ident, .literal "("] [name n, punct "("]
        (separated (args.map words) ++ [punct ")"] ++ rest) [(name n).fragment,
          (punct "(").fragment] :=
      .token hn.1 rfl le_rfl (.literal (by decide) rfl (by omega) .nil)
    simpa [inParens] using hall.seq.ahead
  have hseq : Reads 4 (.seq [.ahead (.seq [.token .ident, .literal "("]), .rule .functionCall])
      (name n :: inParens (separated (args.map words))) rest
      [.expr (.routine {} none n (args.map unplaced))] :=
    (ReadsAll.skip hahead le_rfl (.last hcall le_rfl)).seq
  have hbody : Reads 5 Rule.factor.body (name n :: inParens (separated (args.map words))) rest
      [.expr (.routine {} none n (args.map unplaced))] := by
    refine hseq.alt 6 rfl fun e he => ?_
    obtain he | he := List.mem_append (s := [_, _, _, _, _]) (t := [_]) |>.1 he
    · exact rejects_of_name hn _ e he
    · obtain rfl := List.mem_singleton.1 he
      exact rejects_promise hn (by decide)
  exact hbody.rule rfl

/-- A call of a routine of a class is read as a factor. -/
lemma factor_static {args : List Expr} {c : String}
    (h : ∀ x ∈ args, ReadAt 0 x.words x.unplaced ∧ x.words ≠ []) (hc : IsName c) (hn : IsName n) :
    Reads 6 (.rule .factor)
      (name c :: op "::" :: name n :: inParens (separated (args.map words))) rest
      [.expr (.routine {} (some c) n (args.map unplaced))] := by
  have hcall : Reads 3 (.rule .staticCall) _ rest _ := reads_staticCall h hc hn
  have hahead : Reads 3 (.ahead (.seq [.token .ident, .literal "::"])) []
      (name c :: op "::" :: name n :: inParens (separated (args.map words)) ++ rest) [] := by
    have hall : ReadsAll 1 [.token .ident, .literal "::"] [name c, op "::"]
        (name n :: inParens (separated (args.map words)) ++ rest)
        [(name c).fragment, (op "::").fragment] :=
      .token hc.1 rfl le_rfl (.literal (by decide) rfl (by omega) .nil)
    simpa using hall.seq.ahead
  have hseq : Reads 4 (.seq [.ahead (.seq [.token .ident, .literal "::"]), .rule .staticCall])
      (name c :: op "::" :: name n :: inParens (separated (args.map words))) rest
      [.expr (.routine {} (some c) n (args.map unplaced))] :=
    (ReadsAll.skip hahead le_rfl (.last hcall le_rfl)).seq
  have hbody : Reads 5 Rule.factor.body _ rest
      [.expr (.routine {} (some c) n (args.map unplaced))] :=
    hseq.alt 5 rfl (rejects_of_name hc _)
  exact hbody.rule rfl

/-- A call of a foreign function is read as a factor. -/
lemma factor_ccall {args : List Expr}
    (h : ∀ x ∈ args, ReadAt 0 x.words x.unplaced ∧ x.words ≠ []) (hn : IsName n) :
    Reads 6 (.rule .factor)
      (name "c_call" :: name n :: inParens (separated (args.map words))) rest
      [.expr (.ccall {} n (args.map unplaced))] :=
  (((reads_ccall h hn).choice 4 rfl rfl).rule rfl).mono (by omega)

/-- The instance itself is read as a factor. -/
lemma factor_self : Reads 6 (.rule .factor) [name "self"] rest [.expr (.self {})] := by
  have hword : Reads 1 (.literal "self") [name "self"] rest [(name "self").fragment] :=
    reads_literal (by decide) rfl
  exact ((hword.choice 3 rfl rfl).rule rfl).mono (by omega)

/-- A literal is read as a factor. -/
lemma factor_literal {l : Literal} (h : l.Proper) :
    Reads 6 (.rule .factor) [l.spelling] rest [.expr (.literal {} l)] := by
  have hbody : Reads 3 Rule.factor.body [l.spelling] rest [l.spelling.fragment] := by
    have htoken : Reads 1 (.token l.spelling.cls) [l.spelling] rest [l.spelling.fragment] :=
      reads_token h.1
    cases hv : l.value with
    | real x =>
      have hcls : l.spelling.cls = .real := by simp [Literal.spelling, hv]
      rw [hcls] at htoken
      exact (htoken.choice 0 rfl rfl).mono (by omega)
    | int k =>
      have hcls : l.spelling.cls = .int := by simp [Literal.spelling, hv]
      rw [hcls] at htoken
      refine (htoken.choice 1 rfl (avoidsAll_iff.2 fun e he => ?_)).mono (by omega)
      obtain rfl := List.mem_singleton.1 he
      exact bne_iff_ne.2 (by simp [hcls])
    | bool b =>
      have hcls : l.spelling.cls = .ident := by simp [Literal.spelling, hv]
      have hword : Reads 2 (oneOf ["true", "false"]) [l.spelling] rest [l.spelling.fragment] :=
        reads_oneOf h.1 (by simpa [Literal.spelling] using Literal.text_of_bool h hcls)
      refine hword.choice 2 rfl (avoidsAll_iff.2 fun e he => ?_)
      obtain rfl | he := List.mem_cons.1 he
      · exact bne_iff_ne.2 (by simp [hcls])
      · obtain rfl := List.mem_singleton.1 he
        exact bne_iff_ne.2 (by simp [hcls])
  exact (hbody.rule h.2).mono (by omega)

/-- An expression in parentheses is read as a factor. -/
lemma factor_parens (h : ReadAt 0 ws x) : Reads 6 (.rule .factor) (inParens ws) rest [.expr x] := by
  have hclose : ReadsAll 100 [.literal ")"] [punct ")"] rest [(punct ")").fragment] :=
    .literal (by decide) rfl (by omega) .nil
  have hinner : Reads 20 (.rule .expression) ws ([punct ")"] ++ rest) [.expr x] :=
    h.reads rfl
  have hall : ReadsAll 1 [.literal "(", .rule .expression, .literal ")"] (inParens ws) rest
      [(punct "(").fragment, .expr x, (punct ")").fragment] :=
    .literal (by decide) rfl le_rfl (.next hinner (by omega) hclose)
  exact ((hall.seq.choice 8 rfl rfl).rule rfl).mono (by omega)

end Suffixes

/-! ## Expressions -/

/-- **What it means that an expression is read**: on every level, in parentheses where the level
requires them, as operands with operators and as a primary expression with suffixes. -/
structure IsRead (x : Expr) : Prop where
  readAt : ∀ l ≤ 6, ReadAt l (atLevel l x.level x.words) x.unplaced
  spineAt : ∀ l < 5, SpineAt l (atLevel l x.level x.words) x.unplaced
  suffixesAt : SuffixesAt (atLevel 6 x.level x.words) x.unplaced

section Assembly

variable {x : Expr}

/-- An expression that is read on its own level is read on every level. -/
lemma IsRead.of_own (hfirst : x.HasFirst) (hown : ReadAt x.level x.words x.unplaced)
    (hspine : x.level < 5 → SpineAt x.level x.words x.unplaced)
    (hsuffixes : x.level = 6 → SuffixesAt x.words x.unplaced) : x.IsRead := by
  obtain ⟨w, ws, hw, -, hpost⟩ := hfirst
  rw [hw] at hown
  have hlower := hown.lower x.level_le hpost
  rw [← hw] at hlower
  have hparen : SuffixesAt (inParens x.words) x.unplaced :=
    suffixesAt_of_factor (List.cons_ne_nil _ _) fun w rest _ _ =>
    factor_parens (hlower 0 (by omega))
  have hstart : StartsPostfix (punct "(") := ⟨.inl (by decide), by decide⟩
  have hparens := hparen.readAt.lower le_rfl fun _ => hstart
  have hread : ∀ l ≤ 6, ReadAt l (atLevel l x.level x.words) x.unplaced := by
    intro l hl
    by_cases hlt : x.level < l
    · rw [Word.atLevel, if_pos hlt]
      exact hparens l hl
    · rw [Word.atLevel, if_neg hlt]
      exact hlower l (Nat.le_of_not_lt hlt)
  refine ⟨hread, fun l hl => ?_, ?_⟩
  · obtain heq | hne := eq_or_ne x.level l
    · subst heq
      rw [Word.atLevel, if_neg (lt_irrefl _)]
      exact hspine hl
    · by_cases hlt : x.level < l
      · rw [Word.atLevel, if_pos hlt]
        exact (hparens (l + 1) (by omega)).spineAt (List.cons_ne_nil _ _)
      · rw [Word.atLevel, if_neg hlt]
        exact (hlower (l + 1) (by omega)).spineAt (by simp [hw])
  · by_cases hlt : x.level < 6
    · rw [Word.atLevel, if_pos hlt]
      exact hparen
    · rw [Word.atLevel, if_neg hlt]
      have := x.level_le
      exact hsuffixes (by omega)

/-- An expression without operators. -/
lemma IsRead.of_suffixes (hx : x.Proper) (hlevel : x.level = 6)
    (h : SuffixesAt x.words x.unplaced) : x.IsRead :=
  .of_own (hasFirst hx) (hlevel ▸ h.readAt) (fun hlt => by omega) fun _ => h

/-- What an argument needs. -/
lemma IsRead.argument (h : x.IsRead) (hx : x.Proper) :
    ReadAt 0 x.words x.unplaced ∧ x.words ≠ [] :=
  ⟨by simpa [Word.atLevel] using h.readAt 0 (by omega), words_ne_nil hx⟩

mutual

/-- **Expressions are read.**

**Proof sketch.** By recursion on the expression: its parts are read on the levels on which they
stand, which makes it read on its own level; below that level it is an operand without operators,
and above it stands in parentheses. -/
theorem isRead : ∀ {x : Expr}, x.Proper → x.IsRead
  | .ident _ n, h => .of_suffixes h rfl
    (suffixesAt_of_factor (List.cons_ne_nil _ _) fun _ _ hw hw' => factor_ident h hw hw')
  | .self _, h => .of_suffixes h rfl
    (suffixesAt_of_factor (List.cons_ne_nil _ _) fun _ _ _ _ => factor_self)
  | .literal _ l, h => .of_suffixes h rfl
    (suffixesAt_of_factor (List.cons_ne_nil _ _) fun _ _ _ _ => factor_literal h)
  | .unary _ o x, h =>
    .of_own (hasFirst h) (((isRead (x := x) h).readAt 5 (by omega)).unary o)
      (fun hlt => absurd hlt (lt_irrefl 5)) (fun he => by cases he)
  | .binary _ o x y, h => by
    have hspine := ((isRead h.1).spineAt o.level o.level_lt).binary
      ((isRead h.2).readAt (o.level + 1) (by have := o.level_lt; omega))
    exact .of_own (hasFirst (x := .binary _ o x y) h) (hspine.readAt o.level_lt) (fun _ => hspine)
      fun he => absurd he (Nat.ne_of_lt (Nat.lt_succ_of_lt o.level_lt))
  | .member _ x n, h => .of_suffixes h rfl
    ((isRead h.1).suffixesAt.snoc (s := .member n) (by decide) (by decide)
      fun _ _ hw => reads_member h.2 hw)
  | .index _ x i, h => by
    have hindex : SuffixesAt (Word.atLevel 6 x.level x.words ++ punct "[" ::
      (i.words ++ [punct "]"]))
        (Selector.apply {} x.unplaced (.index i.unplaced)) :=
      (isRead h.1).suffixesAt.snoc (by decide) (by decide)
        fun _ _ _ => reads_index ((isRead h.2).argument h.2).1
    refine .of_suffixes h rfl ?_
    simpa [words, unplaced, Selector.apply] using hindex
  | .deref _ x, h => .of_suffixes h rfl
    ((isRead (x := x) h).suffixesAt.snoc (s := .deref) (by decide) (by decide)
      fun _ _ _ => reads_deref)
  | .method _ x n args, h => by
    have hargs := isRead_args h.2.2
    have hcall : SuffixesAt (Word.atLevel 6 x.level x.words ++
        punct "." :: name n :: inParens (separated (args.map words)))
        (Selector.apply {} x.unplaced (.call n (args.map unplaced))) :=
      (isRead h.1).suffixesAt.snoc (by decide) (by decide) fun _ _ _ => reads_method hargs h.2.1
    refine .of_suffixes h rfl ?_
    simpa [words, unplaced, Selector.apply] using hcall
  | .routine _ none n args, h => by
    have hargs := isRead_args h.2.2
    refine .of_suffixes h rfl ?_
    simpa [words, unplaced] using suffixesAt_of_factor (List.cons_ne_nil _ _)
      fun _ _ _ _ => factor_routine hargs h.2.1
  | .routine _ (some c) n args, h => by
    have hargs := isRead_args h.2.2
    refine .of_suffixes h rfl ?_
    simpa [words, unplaced] using suffixesAt_of_factor (List.cons_ne_nil _ _)
      fun _ _ _ _ => factor_static hargs (h.1 c rfl) h.2.1
  | .ccall _ n args, h => by
    have hargs := isRead_args h.2
    refine .of_suffixes h rfl ?_
    simpa [words, unplaced] using suffixesAt_of_factor (List.cons_ne_nil _ _)
      fun _ _ _ _ => factor_ccall hargs h.1

/-- Arguments are read. -/
theorem isRead_args : ∀ {args : List Expr}, ProperAll args →
    ∀ x ∈ args, ReadAt 0 x.words x.unplaced ∧ x.words ≠ []
  | [], _ => fun _ hx => by cases hx
  | x :: args, h => by
    exact List.forall_mem_cons.2 ⟨(isRead h.1).argument h.1, isRead_args h.2⟩

end

end Assembly

end Expr

end Lane
