import Lane.Syntax.Build
import Mathlib.Data.List.Infix
import Mathlib.Data.List.TakeWhile

set_option relaxedAutoImplicit false
set_option autoImplicit false

/-!
# Words of programs

A program can be written as words with one space between them. No word of a class that reaches the
grammar goes on over a space, so that scanning such a text gives the words back.

## Main definitions

* `Lane.Grammar.Word`: a class with a text.
* `Lane.Grammar.Word.IsToken`: words that are read as one token.
* `Lane.Grammar.Word.spaced`: words with spaces between them, as text.
* `Lane.Cursor.words`: the words that are left to be matched.

## Main results

* `Lane.Token.exists_scan`: scanning finds the words of a spaced text.
* `Lane.Rune.decode_spaced`: the runes of a spaced text, from its bytes.
-/

namespace Lane

/-- The rune between words. -/
def Rune.space : Rune := ⟨' ', 1⟩

namespace Scanner

/-- **Scanners of words**: they find the same where the text goes on after a space, and what they
find is ASCII. -/
structure FindsWords (a : Scanner) : Prop where
  stops : ∀ rs rest, a (rs ++ .space :: rest) = (a rs).map fun q => (q.1, q.2 ++ .space :: rest)
  ascii : ∀ rs word rest, a rs = some (word, rest) → ∀ r ∈ word, r.char.toNat < 128

variable {p : Char → Bool} {a b : Scanner}

/-- One letter of a kind that has no space. -/
lemma findsWords_one (hp : ∀ c, p c → c.toNat < 128) (hs : p ' ' = false) : (one p).FindsWords where
  stops rs rest := by
    cases rs with
    | nil => simp [one, Rune.space, hs]
    | cons r rs => by_cases hr : p r.char <;> simp [one, hr]
  ascii rs word rest h := by
    cases rs with
    | nil => cases h
    | cons r rs =>
      by_cases hr : p r.char
      · rw [one, if_pos hr] at h
        obtain ⟨rfl, -⟩ := Prod.mk.inj (Option.some.inj h)
        simpa using hp _ hr
      · rw [one, if_neg hr] at h
        cases h

/-- Letters of a kind that has no space. -/
lemma findsWords_many (hp : ∀ c, p c → c.toNat < 128) (hs : p ' ' = false) :
    (many p).FindsWords where
  stops rs rest := by
    have hspan : (rs ++ .space :: rest).takeWhile (fun r => p r.char) =
        rs.takeWhile (fun r => p r.char) ∧
        (rs ++ .space :: rest).dropWhile (fun r => p r.char) =
          rs.dropWhile (fun r => p r.char) ++ .space :: rest := by
      induction rs with
      | nil => simp [Rune.space, hs]
      | cons r rs ih =>
        by_cases hr : p r.char
        · simp [hr, ih]
        · simp [hr]
    simp [many, hspan]
  ascii rs word rest h := by
    obtain ⟨rfl, -⟩ := Prod.mk.inj (Option.some.inj h)
    exact fun r hr => hp _ (List.mem_takeWhile_imp (p := fun r : Rune => p r.char) hr)

/-- Scanners in sequence. -/
lemma FindsWords.andThen (ha : a.FindsWords) (hb : b.FindsWords) : (andThen a b).FindsWords where
  stops rs rest := by
    simp only [Scanner.andThen, ha.stops]
    cases a rs with
    | none => rfl
    | some q =>
      simp only [Option.map_some, Option.bind_eq_bind, Option.bind_some, hb.stops]
      cases b q.2 <;> rfl
  ascii rs word rest h := by
    obtain ⟨q, hq, h⟩ := Option.bind_eq_some_iff.1 h
    obtain ⟨q', hq', h⟩ := Option.bind_eq_some_iff.1 h
    obtain ⟨rfl, -⟩ := Prod.mk.inj (Option.some.inj h)
    intro r hr
    obtain hr | hr := List.mem_append.1 hr
    · exact ha.ascii _ _ _ hq r hr
    · exact hb.ascii _ _ _ hq' r hr

/-- A choice of scanners. -/
lemma FindsWords.orElse (ha : a.FindsWords) (hb : b.FindsWords) :
    FindsWords fun rs => a rs <|> b rs where
  stops rs rest := by
    rw [ha.stops, hb.stops]
    cases a rs <;> rfl
  ascii rs word rest h := by
    cases heq : a rs with
    | none =>
      rw [heq] at h
      exact hb.ascii rs word rest h
    | some q =>
      rw [heq] at h
      exact ha.ascii rs word rest (heq.trans h)

/-- Nothing is scanned. -/
lemma findsWords_nothing : FindsWords fun rs => pure ([], rs) where
  stops _ _ := rfl
  ascii rs word rest h := by
    obtain ⟨rfl, -⟩ := Prod.mk.inj (Option.some.inj h)
    simp

/-- A scanner that finds nothing. -/
lemma findsWords_none : FindsWords fun _ => none where
  stops _ _ := rfl
  ascii _ _ _ h := by cases h

/-- An optional scanner. -/
lemma FindsWords.optional (ha : a.FindsWords) : (optional a).FindsWords :=
  ha.orElse findsWords_nothing

/-- Characters of words: ASCII, and no spaces. -/
def isPrinted (c : Char) : Bool := c.toNat < 128 && c != ' '

/-- Printed letters are those of ASCII but spaces. -/
lemma isPrinted_iff {c : Char} : isPrinted c ↔ c.toNat < 128 ∧ c ≠ ' ' := by simp [isPrinted]

/-- Given letters are scanned. -/
lemma findsWords_exactly : ∀ {cs : List Char}, cs.all isPrinted → (exactly cs).FindsWords
  | [], _ => findsWords_nothing
  | c :: cs, h => by
    obtain ⟨hc, h⟩ := Bool.and_eq_true_iff.1 h
    obtain ⟨hc, hne⟩ := isPrinted_iff.1 hc
    refine FindsWords.andThen (findsWords_one (fun d hd => ?_) ?_) (findsWords_exactly h)
    · obtain rfl := beq_iff_eq.1 hd
      exact hc
    · exact beq_false_of_ne hne.symm

/-- The first scanner that finds something. -/
lemma findsWords_firstOf : ∀ {as : List Scanner}, (∀ a ∈ as, a.FindsWords) →
    (firstOf as).FindsWords
  | [], _ => findsWords_none
  | a :: as, h => by
    obtain ⟨ha, h⟩ := List.forall_mem_cons.1 h
    exact ha.orElse (findsWords_firstOf h)

/-- The first of several words. -/
lemma findsWords_words {ss : List String} (h : ss.all fun s => s.toList.all isPrinted) :
    (firstOf (ss.map word)).FindsWords :=
  findsWords_firstOf fun a ha => by
    obtain ⟨s, hs, rfl⟩ := List.mem_map.1 ha
    exact findsWords_exactly (List.all_eq_true.1 h s hs)

/-! ### Runs of characters -/

variable {r s : Rune} {rs : List Rune}

/-- What starts with no letter of a kind has none to scan. -/
lemma atLeastOne_eq_none (hr : p r.char = false) : atLeastOne p (r :: rs) = none := by
  simp [atLeastOne, Scanner.andThen, one, hr]

/-- Where a kind of letters is not found, another letter comes first. -/
lemma eq_false_of_atLeastOne (h : atLeastOne p (r :: rs) = none) : p r.char = false := by
  by_contra hr
  simp [atLeastOne, Scanner.andThen, one, many, hr] at h

/-- One letter of a kind before another. -/
lemma atLeastOne_one (hs : p s.char) (hr : p r.char = false) :
    atLeastOne p (s :: r :: rs) = some ([s], r :: rs) := by
  simp [atLeastOne, Scanner.andThen, one, many, hs, hr]

end Scanner

/-! ## Characters -/

namespace TokenClass

open Scanner

/-- Digits are letters of ASCII. -/
lemma digit_ascii (c : Char) (h : c.isDigit) : c.toNat < 128 := by
  have hle : c.val ≤ 57 := of_decide_eq_true (Bool.and_eq_true_iff.1 h).2
  exact Nat.lt_of_le_of_lt (UInt32.le_iff_toNat_le.1 hle) (by decide)

/-- Letters of the alphabet are letters of ASCII. -/
lemma alpha_ascii (c : Char) (h : c.isAlpha) : c.toNat < 128 := by
  obtain h | h := Bool.or_eq_true_iff.1 h
  · have hle : c.val ≤ 90 := (of_decide_eq_true h).2
    exact Nat.lt_of_le_of_lt (UInt32.le_iff_toNat_le.1 hle) (by decide)
  · have hle : c.val ≤ 122 := of_decide_eq_true (Bool.and_eq_true_iff.1 h).2
    exact Nat.lt_of_le_of_lt (UInt32.le_iff_toNat_le.1 hle) (by decide)

/-- Identifiers start with letters of ASCII. -/
lemma identStart_ascii (c : Char) (h : isIdentStart c) : c.toNat < 128 := by
  obtain h | h := Bool.or_eq_true_iff.1 h
  · exact alpha_ascii c h
  · obtain rfl := beq_iff_eq.1 h
    decide

/-- Identifiers consist of letters of ASCII. -/
lemma identRest_ascii (c : Char) (h : isIdentRest c) : c.toNat < 128 := by
  obtain h | h := Bool.or_eq_true_iff.1 h
  · obtain h | h := Bool.or_eq_true_iff.1 h
    · exact alpha_ascii c h
    · exact digit_ascii c h
  · obtain rfl := beq_iff_eq.1 h
    decide

/-- One of the given letters. -/
lemma findsWords_one_of {cs : List Char} (h : cs.all isPrinted) :
    (one cs.contains).FindsWords := by
  have h : ∀ c ∈ cs, c.toNat < 128 ∧ c ≠ ' ' := fun c hc =>
    isPrinted_iff.1 (List.all_eq_true.1 h c hc)
  refine findsWords_one (fun c hc => (h c (by simpa using hc)).1) ?_
  exact Bool.eq_false_iff.2 fun hc => (h ' ' (by simpa using hc)).2 rfl

/-- One of two letters. -/
lemma findsWords_either {c d : Char} (h : [c, d].all isPrinted) :
    (one fun a => a == c || a == d).FindsWords := by
  have h : ∀ a ∈ [c, d], a.toNat < 128 ∧ a ≠ ' ' := fun a ha =>
    isPrinted_iff.1 (List.all_eq_true.1 h a ha)
  refine findsWords_one (fun a ha => ?_) ?_
  · obtain ha | ha := Bool.or_eq_true_iff.1 ha
    · exact beq_iff_eq.1 ha ▸ (h c (by simp)).1
    · exact beq_iff_eq.1 ha ▸ (h d (by simp)).1
  · simp [(h c (by simp)).2.symm, (h d (by simp)).2.symm]

/-- Digits are scanned. -/
lemma findsWords_digits : (atLeastOne Char.isDigit).FindsWords :=
  (findsWords_one digit_ascii rfl).andThen (findsWords_many digit_ascii rfl)

/-- **All classes but two have scanners of words**: comments and white space go on over a space. -/
lemma findsWords_scanner : ∀ {c : TokenClass}, c ≠ .comment → c ≠ .whitespace →
    c.scanner.FindsWords
  | .comment, h, _ => absurd rfl h
  | .whitespace, _, h => absurd rfl h
  | .real, _, _ =>
    findsWords_digits.andThen <| (findsWords_exactly (by decide)).andThen <|
      findsWords_digits.andThen <| FindsWords.andThen
        (((findsWords_either (by decide)).andThen
          ((findsWords_either (by decide)).optional.andThen
            findsWords_digits)).optional)
        (findsWords_exactly (by decide)).optional
  | .int, _, _ => findsWords_digits.andThen (findsWords_words (by decide)).optional
  | .ident, _, _ =>
    (findsWords_one identStart_ascii rfl).andThen (findsWords_many identRest_ascii rfl)
  | .op, _, _ => findsWords_words (by decide)
  | .punct, _, _ => findsWords_one_of (by decide)
  | .eof, _, _ => findsWords_none

end TokenClass

/-! ## Words -/

/-- A word of a program: a class with a text. -/
structure Grammar.Word where
  cls : TokenClass
  text : String
  deriving DecidableEq, Repr, Inhabited

open Grammar (Word)

/-- The word at a place. -/
def Token.word (t : Token) : Word := ⟨t.cls, t.text⟩

namespace Grammar.Word

/-- The runes of a word. -/
def runes (w : Word) : List Rune := Rune.ofString w.text

/-- **Words that are read as one token** of their class, which reaches the grammar. -/
def IsToken (w : Word) : Prop :=
  Token.next? w.runes = some (w.cls, w.runes, []) ∧ w.cls.isElided = false

/-- Whether a word is read as one token is computed. -/
instance (w : Word) : Decidable w.IsToken := inferInstanceAs (Decidable (_ ∧ _))

/-- Tokens are not empty. -/
lemma IsToken.length_pos {w : Word} (h : w.IsToken) : 1 ≤ w.runes.length := by
  refine List.length_pos_iff.2 fun he => ?_
  have hnext := h.1
  rw [he] at hnext
  cases hnext

/-- Tokens consist of letters of ASCII. -/
lemma IsToken.ascii {w : Word} (h : w.IsToken) : ∀ r ∈ w.runes, r.char.toNat < 128 := by
  obtain ⟨c, -, hc⟩ := List.exists_of_findSome?_eq_some h.1
  obtain ⟨q, hscan, heq⟩ := Option.map_eq_some_iff.1 hc
  obtain ⟨hcls, hq⟩ := Prod.mk.inj heq
  obtain ⟨hword, -⟩ := Prod.mk.inj hq
  rw [hcls] at hscan
  have hwords : w.cls.scanner.FindsWords := by
    refine TokenClass.findsWords_scanner (fun he => ?_) fun he => ?_
    all_goals
      have helided := h.2
      rw [he] at helided
      cases helided
  exact fun r hr => hwords.ascii _ _ _ hscan r (hword ▸ hr)

/-- A token is not the end of the text. -/
lemma IsToken.cls_ne_eof {w : Word} (h : w.IsToken) : w.cls ≠ .eof := by
  obtain ⟨c, hc, hsome⟩ := List.exists_of_findSome?_eq_some h.1
  obtain ⟨q, -, heq⟩ := Option.map_eq_some_iff.1 hsome
  obtain ⟨rfl, -⟩ := Prod.mk.inj heq
  exact fun he => by simp [he, TokenClass.order] at hc

/-- The fragment that a word stands for, without its place. -/
def fragment (w : Word) : Fragment := .token ⟨w.cls, w.text, {}⟩

/-- **Words with one space between them**. -/
def spaced (ws : List Word) : String := " ".intercalate (ws.map text)

/-- The end of a text. -/
def eof : Word := ⟨.eof, ""⟩

end Grammar.Word

namespace Token

open Scanner Grammar.Word

variable {rs rest : List Rune} {w : Word} {ws : List Word}

/-- Classes with scanners of words, tried in order. -/
lemma findSome?_append (rs rest : List Rune) : ∀ {cs : List TokenClass},
    (∀ c ∈ cs, c.scanner.FindsWords) →
    cs.findSome? (fun c => (c.scanner (rs ++ .space :: rest)).map fun q => (c, q.1, q.2)) =
      (cs.findSome? fun c => (c.scanner rs).map fun q => (c, q.1, q.2)).map
        fun q => (q.1, q.2.1, q.2.2 ++ .space :: rest)
  | [], _ => rfl
  | c :: cs, h => by
    obtain ⟨hc, h⟩ := List.forall_mem_cons.1 h
    rw [List.findSome?_cons, List.findSome?_cons, hc.stops]
    cases c.scanner rs with
    | none => exact findSome?_append rs rest h
    | some q => rfl

/-- Comments and white space are not found where a word of another class is. -/
lemma scanner_eq_none {word tail : List Rune} {c : TokenClass} (h : next? rs = some (c, word, tail))
    (hc : c.isElided = false) :
    TokenClass.comment.scanner rs = none ∧ TokenClass.whitespace.scanner rs = none := by
  have hcomment : TokenClass.comment.scanner rs = none := by
    cases heq : TokenClass.comment.scanner rs with
    | none => rfl
    | some q =>
      simp only [next?, TokenClass.order, List.findSome?_cons, heq, Option.map_some,
        Option.some.injEq, Prod.mk.injEq] at h
      obtain ⟨rfl, -⟩ := h
      cases hc
  refine ⟨hcomment, ?_⟩
  cases heq : TokenClass.whitespace.scanner rs with
  | none => rfl
  | some q =>
    simp only [next?, TokenClass.order, List.findSome?_cons, hcomment, heq, Option.map_some,
      Option.map_none, Option.some.injEq, Prod.mk.injEq] at h
    obtain ⟨rfl, -⟩ := h
    cases hc

/-- What starts no comment starts none before a space. -/
lemma comment_append (h : TokenClass.comment.scanner rs = none) :
    TokenClass.comment.scanner (rs ++ .space :: rest) = none := by
  have hslashes : (Scanner.word "//").FindsWords := findsWords_exactly (by decide)
  simp only [TokenClass.scanner, Scanner.andThen, hslashes.stops] at h ⊢
  cases heq : Scanner.word "//" rs with
  | none => rfl
  | some q =>
    rw [heq] at h
    cases h

/-- What starts no white space starts none before other letters. -/
lemma whitespace_append (hne : rs ≠ []) (h : TokenClass.whitespace.scanner rs = none) :
    TokenClass.whitespace.scanner (rs ++ rest) = none := by
  cases rs with
  | nil => exact absurd rfl hne
  | cons r rs => exact atLeastOne_eq_none (eq_false_of_atLeastOne h)

/-- **A word is found where a space follows it.** -/
lemma next?_append (h : w.IsToken) :
    next? (w.runes ++ .space :: rest) = some (w.cls, w.runes, .space :: rest) := by
  have hne := List.length_pos_iff.1 h.length_pos
  obtain ⟨h, helided⟩ := h
  obtain ⟨hcomment, hspace⟩ := scanner_eq_none h helided
  have hscanners : ∀ c ∈ [TokenClass.real, .int, .ident, .op, .punct], c.scanner.FindsWords :=
    fun c hc => TokenClass.findsWords_scanner (fun he => by simp [he] at hc)
      (fun he => by simp [he] at hc)
  simp only [next?, TokenClass.order] at h ⊢
  rw [List.findSome?_cons, hcomment, List.findSome?_cons, hspace] at h
  rw [List.findSome?_cons, comment_append hcomment, List.findSome?_cons,
    whitespace_append hne hspace]
  exact (findSome?_append w.runes rest hscanners).trans (congrArg _ h)

/-- **A space is found before a word.** -/
lemma next?_space {tail : List Rune} (h : w.IsToken) :
    next? (.space :: (w.runes ++ tail)) = some (.whitespace, [.space], w.runes ++ tail) := by
  obtain ⟨h, helided⟩ := h
  obtain ⟨-, hspace⟩ := scanner_eq_none h helided
  cases hw : w.runes with
  | nil =>
    rw [hw] at h
    cases h
  | cons r rs =>
    rw [hw] at hspace
    have hstart : TokenClass.whitespace.scanner (.space :: (r :: rs ++ tail)) =
        some ([.space], r :: rs ++ tail) :=
      atLeastOne_one rfl (eq_false_of_atLeastOne hspace)
    rw [next?, TokenClass.order, List.findSome?_cons, List.findSome?_cons, hstart]
    rfl

end Token

namespace Rune

/-- Letters make the text that they come from. -/
@[simp] lemma text_ofString (s : String) : text (ofString s) = s := by
  simp [text, ofString, Function.comp_def]

/-- The letters of texts in sequence. -/
@[simp] lemma ofString_append (s t : String) : ofString (s ++ t) = ofString s ++ ofString t := by
  simp [ofString]

end Rune

namespace Grammar.Word

variable {w w' : Word} {ws : List Word}

/-- One word needs no space. -/
@[simp] lemma spaced_singleton : Rune.ofString (spaced [w]) = w.runes := by
  simp [spaced, runes]

/-- A space comes after the first of several words. -/
@[simp] lemma spaced_cons_cons : Rune.ofString (spaced (w :: w' :: ws)) =
    w.runes ++ .space :: Rune.ofString (spaced (w' :: ws)) := by
  have hspace : Rune.ofString " " = [.space] := by decide
  simp [spaced, runes, hspace]

/-- The first word comes first. -/
lemma exists_spaced_eq (w : Word) (ws : List Word) :
    ∃ tail, Rune.ofString (spaced (w :: ws)) = w.runes ++ tail := by
  cases ws with
  | nil => exact ⟨[], by simp⟩
  | cons w' ws => exact ⟨_, spaced_cons_cons⟩

end Grammar.Word

namespace Token

open Grammar.Word

/-- A token is scanned, and the rest after it. -/
lemma scanFrom_cons {fuel : Nat} {pos : Position} {rs word rest : List Rune} {c : TokenClass}
    (h : next? rs = some (c, word, rest)) :
    scanFrom (fuel + 1) pos rs =
      (⟨c, Rune.text word, pos⟩ :: (scanFrom fuel (pos.advance word) rest).1,
      (scanFrom fuel (pos.advance word) rest).2) := by
  cases rs with
  | nil => cases h
  | cons r rs => simp [scanFrom, h]

/-- **Scanning finds the words of a spaced text**, and then its end. -/
theorem exists_scanFrom : ∀ (ws : List Word) (fuel : Nat) (pos : Position),
    (∀ w ∈ ws, w.IsToken) → (Rune.ofString (spaced ws)).length ≤ fuel →
    ∃ ts, scanFrom fuel pos (Rune.ofString (spaced ws)) = (ts, none) ∧
      (ts.filter fun t => !t.cls.isElided).map word = ws ++ [eof]
  | [], fuel, pos, _, _ => by
    refine ⟨[⟨.eof, "", pos⟩], ?_, rfl⟩
    cases fuel <;> rfl
  | [w], fuel, pos, h, hle => by
    have hw := h w (by simp)
    rw [spaced_singleton] at hle ⊢
    obtain ⟨fuel, rfl⟩ := Nat.exists_eq_add_of_le (Nat.le_trans hw.length_pos hle)
    have heof : TokenClass.eof.isElided = false := rfl
    refine ⟨[⟨w.cls, Rune.text w.runes, pos⟩, ⟨.eof, "", pos.advance w.runes⟩], ?_, ?_⟩
    · rw [Nat.add_comm, scanFrom_cons hw.1]
      cases fuel <;> rfl
    · simp [hw.2, heof, runes, word, eof]
  | w :: w' :: ws, fuel, pos, h, hle => by
    have hw := h w (by simp)
    have hw' := h w' (by simp)
    obtain ⟨tail, htail⟩ := exists_spaced_eq w' ws
    rw [spaced_cons_cons] at hle ⊢
    have hpos := hw.length_pos
    simp only [List.length_append, List.length_cons] at hle
    obtain ⟨fuel, rfl⟩ := Nat.exists_eq_add_of_le (show 2 ≤ fuel by omega)
    obtain ⟨ts, hts, hwords⟩ := exists_scanFrom (w' :: ws) fuel
      ((pos.advance w.runes).advance [.space]) (fun v hv => h v (List.mem_cons_of_mem _ hv))
      (by omega)
    have hspace : TokenClass.whitespace.isElided = true := rfl
    refine ⟨⟨w.cls, Rune.text w.runes, pos⟩ ::
      ⟨.whitespace, Rune.text [.space], pos.advance w.runes⟩ :: ts, ?_, ?_⟩
    · rw [Nat.add_comm, scanFrom_cons (next?_append hw), htail, scanFrom_cons (next?_space hw'),
        ← htail, hts]
    · simp [hw.2, hspace, runes, word, hwords]

/-- **Scanning a spaced text** gives its words and the end of the text. -/
theorem exists_scan {ws : List Word} (h : ∀ w ∈ ws, w.IsToken) (file : String) :
    ∃ ts, scan file (Rune.ofString (spaced ws)) = (ts, none) ∧
      (ts.filter fun t => !t.cls.isElided).map word = ws ++ [eof] :=
  exists_scanFrom ws _ _ h le_rfl

end Token

/-! ## Bytes -/

namespace Rune

/-- A letter of ASCII takes one byte. -/
lemma utf8Size_of_lt {c : Char} (h : c.toNat < 128) : c.utf8Size = 1 := by
  unfold Char.utf8Size
  have hle : c.val.toNat ≤ 127 := Nat.le_of_lt_succ h
  exact if_pos (UInt32.le_iff_toNat_le.2 hle)

/-- A letter of ASCII is encoded as its code. -/
lemma utf8EncodeChar_of_lt {c : Char} (h : c.toNat < 128) :
    String.utf8EncodeChar c = [UInt8.ofNat c.toNat] :=
  String.utf8EncodeChar_eq_singleton (utf8Size_of_lt h)

/-- The runes of ASCII characters. -/
lemma decodeFrom_ascii : ∀ {cs : List Char}, (∀ c ∈ cs, c.toNat < 128) →
    decodeFrom 0 (cs.flatMap String.utf8EncodeChar) = cs.map fun c => ⟨c, c.utf8Size⟩
  | [], _ => rfl
  | c :: cs, h => by
    obtain ⟨hc, h⟩ := List.forall_mem_cons.1 h
    have hnat : (UInt8.ofNat c.toNat).toNat = c.toNat := by
      rw [UInt8.toNat_ofNat']
      exact Nat.mod_eq_of_lt (by omega)
    have hfirst : ∀ rest, first? (UInt8.ofNat c.toNat) rest = some ⟨c, 1⟩ := fun rest => by
      rw [first?, hnat, if_pos (by omega), Char.ofNat_toNat]
    rw [List.flatMap_cons, utf8EncodeChar_of_lt hc, List.singleton_append, decodeFrom, hfirst,
      List.map_cons, utf8Size_of_lt hc]
    exact congrArg _ (decodeFrom_ascii h)

/-- The runes of an ASCII text, from its bytes. -/
lemma decode_utf8 {s : String} (h : ∀ c ∈ s.toList, c.toNat < 128) :
    decode s.toUTF8.data.toList = ofString s := by
  have hbytes : s.toUTF8.data.toList = s.toList.flatMap String.utf8EncodeChar := by
    rw [String.toUTF8, ← String.utf8Encode_toList, List.utf8Encode, List.data_toByteArray]
  rw [decode, hbytes, decodeFrom_ascii h, ofString]
/-- Spaced tokens consist of letters of ASCII. -/
lemma ascii_of_spaced : ∀ {ws : List Word}, (∀ w ∈ ws, w.IsToken) →
    ∀ r ∈ ofString (Word.spaced ws), r.char.toNat < 128
  | [], _, _, hr => by cases hr
  | [w], h, r, hr => by
    rw [Word.spaced_singleton] at hr
    exact (h w (by simp)).ascii r hr
  | w :: w' :: ws, h, r, hr => by
    rw [Word.spaced_cons_cons] at hr
    obtain ⟨hw, h⟩ := List.forall_mem_cons.1 h
    obtain hr | hr := List.mem_append.1 hr
    · exact hw.ascii r hr
    · obtain rfl | hr := List.mem_cons.1 hr
      · decide
      · exact ascii_of_spaced h r hr

/-- **The runes of a spaced text**, from its bytes. -/
theorem decode_spaced {ws : List Word} (h : ∀ w ∈ ws, w.IsToken) :
    decode (Word.spaced ws).toUTF8.data.toList = ofString (Word.spaced ws) :=
  decode_utf8 fun c hc => ascii_of_spaced h ⟨c, c.utf8Size⟩ (List.mem_map_of_mem hc)

end Rune

/-! ## Lexemes -/

namespace Lexeme

/-- The word of a lexeme. -/
def word (l : Lexeme) : Word := l.token.word

/-- The tokens that reach the grammar are those that are not left out. -/
lemma map_token_ofTokens : ∀ ts : List Token,
    (ofTokens ts).map token = ts.filter fun t => !t.cls.isElided
  | [] => rfl
  | [t] => by
    cases h : t.cls.isElided <;> simp [ofTokens, h]
  | t :: u :: rest => by
    cases h : t.cls.isElided <;> simp [ofTokens, h, map_token_ofTokens (u :: rest)]

end Lexeme

/-- **The words that are left** to be matched. -/
def Cursor.words (c : Cursor) : List Word := c.rest.map Lexeme.word

end Lane
