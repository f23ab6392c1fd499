import Lane.Proofs.Syntax.Declarations

set_option relaxedAutoImplicit false
set_option autoImplicit false

/-!
# Parsing inverts rendering

The text of a program is read as the program, up to places, and nothing is reported about it.

## Main results

* `Lane.ProgramSyntax.reads`: the words of a program are read as the program.
* `Lane.ProgramSyntax.parse_text`: so is its text.
-/

namespace Lane

open Grammar Word

/-! ## Trees of words -/

namespace Tree

/-- One tree stands for one fragment. -/
lemma exists_of_standFor {ts : List Tree} {f : Fragment} (h : StandFor ts [f]) :
    ∃ t g, ts = [t] ∧ t.interpret = ([], g) ∧ g.unplaced = f := by
  obtain ⟨hdiags, hfs⟩ := h
  obtain _ | ⟨t, _ | ⟨u, ts⟩⟩ := ts
  · cases hfs
  · simp only [interpretAll, List.append_nil, List.map_cons, List.map_nil, List.cons.injEq,
      and_true] at hdiags hfs
    exact ⟨t, t.interpret.2, rfl, Prod.ext hdiags rfl, hfs⟩
  · simp [interpretAll] at hfs

/-- **A program's tree**, if its rule reads the words of the tokens. -/
lemma exists_ofTokens {ts : List Token} {ws : List Word} {f : Fragment}
    (hts : (ts.filter fun t => !t.cls.isElided).map Token.word = ws ++ [Word.eof])
    (h : Reads 8 (.rule .program) ws [Word.eof] [f]) :
    ∃ t g, ofTokens ts = .ok t ∧ t.interpret = ([], g) ∧ g.unplaced = f := by
  have hwords : ∀ here, Cursor.words ⟨Lexeme.ofTokens ts, 0, here, none, 0⟩ = ws ++ [Word.eof] := by
    intro here
    rw [← hts, ← Lexeme.map_token_ofTokens, List.map_map]
    rfl
  have hlength : (Lexeme.ofTokens ts).length ≤ ts.length := by
    rw [← List.length_map Lexeme.token, Lexeme.map_token_ofTokens]
    exact List.length_filter_le _ _
  unfold ofTokens
  extract_lets lexemes here start
  obtain ⟨trees, d, hrun, hd, hstand⟩ := h.run (fuelFor ts.length) start (hwords here)
    (by simp only [fuelFor, start, lexemes]; omega)
  obtain ⟨t, g, rfl, ht, hg⟩ := exists_of_standFor hstand
  obtain ⟨l, rest, hrest, hl, -⟩ := List.map_eq_cons_iff.1 hd
  have hend : d.peek.cls = .eof := by
    rw [Cursor.peek, hrest]
    exact congrArg Word.cls hl
  refine ⟨t, g, ?_, ht, hg⟩
  rw [hrun]
  exact if_pos hend

end Tree

/-! ## Programs -/

namespace ProgramSyntax

variable {p : ProgramSyntax}

/-- The declarations of a program. -/
def declarations (p : ProgramSyntax) : List (List Word × Fragment) :=
  (p.classes.map fun c => (c.words, .cls c.unplaced)) ++
    p.foreigns.map fun f => (f.words, .foreign f.unplaced)

/-- The words of declarations are those of the program. -/
lemma words_declarations : p.declarations.flatMap Prod.fst = p.words := by
  simp [declarations, words, List.flatMap_map]

/-- Classes start with `simd` or `class`. -/
lemma exists_first_class (c : ClassSyntax) : ∃ w ws, c.words = w :: ws := by
  unfold ClassSyntax.words simdWord
  split <;> exact ⟨_, _, rfl⟩

/-- **Declarations are read.** -/
lemma reads_declaration (h : p.Proper) {q : List Word × Fragment} (hq : q ∈ p.declarations)
    (rest : List Word) : q.1 ≠ [] ∧ Reads 6 (.rule .topDecl) q.1 rest [q.2] := by
  obtain hq | hq := List.mem_append.1 hq
  · obtain ⟨c, hc, rfl⟩ := List.mem_map.1 hq
    have hclass := ClassSyntax.reads (h.1 c hc) rest
    obtain ⟨w, ws, hw⟩ := exists_first_class c
    rw [hw] at hclass ⊢
    exact ⟨List.cons_ne_nil _ _, (hclass.choice 0 rfl rfl).rule rfl⟩
  · obtain ⟨f, hf, rfl⟩ := List.mem_map.1 hq
    have hforeign := ForeignSyntax.reads (h.2 f hf) rest
    have hbody : Reads 4 Rule.topDecl.body f.words rest [.foreign f.unplaced] :=
      hforeign.choice 1 rfl (by decide)
    exact ⟨List.cons_ne_nil _ _, (hbody.rule rfl).mono (by omega)⟩

/-- The classes among the fragments of a program. -/
lemma filterMap_classes {g : Fragment → Option ClassSyntax} (hc : ∀ c, g (.cls c) = some c)
    (hf : ∀ f, g (.foreign f) = none) :
    (p.declarations.map Prod.snd).filterMap g = p.classes.map ClassSyntax.unplaced := by
  simp [declarations, List.filterMap_map, Function.comp_def, hc, hf]

/-- The foreign functions among the fragments of a program. -/
lemma filterMap_foreigns {g : Fragment → Option ForeignSyntax} (hc : ∀ c, g (.cls c) = none)
    (hf : ∀ f, g (.foreign f) = some f) :
    (p.declarations.map Prod.snd).filterMap g = p.foreigns.map ForeignSyntax.unplaced := by
  simp [declarations, List.filterMap_map, Function.comp_def, hc, hf]

/-- **Programs are read.** -/
lemma reads (h : p.Proper) : Reads 8 (.rule .program) p.words [Word.eof] [.program p.unplaced] := by
  have hall : Repeats 6 (.rule .topDecl) (p.declarations.flatMap Prod.fst) [Word.eof]
      (p.declarations.map Prod.snd) :=
    repeats_items (fun q hq => (reads_declaration h hq []).1) fun q hq rest =>
      (reads_declaration h hq rest).2
  rw [words_declarations] at hall
  have hbody : Reads 7 Rule.program.body p.words [Word.eof] _ := hall.many (by decide)
  exact hbody.rule (congrArg₂ (fun cs fs => (([] : List Diagnostic), Fragment.program ⟨cs, fs⟩))
    (filterMap_classes (fun _ => rfl) (fun _ => rfl))
    (filterMap_foreigns (fun _ => rfl) (fun _ => rfl)))

/-- **Parsing inverts rendering**: the text of a program is read as the program, up to places, and
nothing is reported about it. -/
theorem parse_text (h : p.Proper) (file : String) :
    ∃ q, parse file (Rune.decode p.text.toUTF8.data.toList) = ([], some q) ∧
      q.unplaced = p.unplaced := by
  have hreads := reads h
  obtain ⟨ts, hscan, hts⟩ := Token.exists_scan hreads.tokens file
  obtain ⟨t, g, htree, ht, hg⟩ := Tree.exists_ofTokens hts hreads
  cases g with
  | program q =>
    refine ⟨q, ?_, Fragment.program.inj hg⟩
    rw [text, Rune.decode_spaced hreads.tokens]
    simp only [parse, hscan, htree, ht]
  | _ => cases hg

/-- A class whose operator has a product and a sum in it: the sum needs parentheses. -/
def scaling : ProgramSyntax where
  classes := [⟨{}, "V", true, [
    .var ⟨{}, "x", .container {} .ptr (.container {} .simd (.name {} "real"))⟩,
    .func ⟨{}, {}, .operator, "*", false, [⟨{}, "a", .cref, .name {} "V"⟩],
      [⟨{}, "b", .none, .name {} "V"⟩],
      [.ifThen {} (.unary {} .not (.binary {} .lt (.self {}) (.ident {} "a")))
        [.assign {} [.expr (.ident {} "b")] [.binary {} .mul (.self {})
          (.binary {} .add (.ident {} "a") (.literal {} ⟨"int", .int 2, "2", by decide⟩))]]]⟩]⟩]
  foreigns := [⟨{}, "f", [], []⟩]

/-- The text of a class with an operator is read as the class. -/
theorem parse_text_scaling : scaling.text =
      "simd class V \x7b var x : ptr \x7b simd \x7b real \x7d \x7d ; " ++
        "operator * ( a : cref V ) -> ( b : V ) \x7b " ++
        "if not ( self < a ) \x7b b = self * ( a + 2 ) ; \x7d \x7d \x7d extern f ( ) ;" ∧
    ∃ q, parse "" (Rune.decode scaling.text.toUTF8.data.toList) = ([], some q) ∧
      q.unplaced = scaling.unplaced := by
  have hnames : ∀ s ∈ ["V", "x", "real", "a", "b", "f"], IsName s := by decide
  have hliteral : (⟨"int", .int 2, "2", by decide⟩ : Literal).Proper :=
    ⟨by decide, rfl⟩
  have hop : (op "*").IsToken := by decide
  have hproper : scaling.Proper := by
    simp only [List.forall_mem_cons] at hnames
    simp [Proper, scaling, ClassSyntax.Proper, MemberSyntax.Proper, FuncSyntax.Proper,
      ForeignSyntax.Proper, ParamSyntax.Proper, TypeExpr.Proper, Stmt.ProperAll, Stmt.Proper,
      Target.Proper, Expr.Proper, FuncKind.isNameless, hnames, hliteral, hop]
  exact ⟨by decide +kernel, parse_text hproper ""⟩

end ProgramSyntax

end Lane
