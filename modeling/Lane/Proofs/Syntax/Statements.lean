import Lane.Proofs.Syntax.Expressions

set_option relaxedAutoImplicit false
set_option autoImplicit false

/-!
# Reading statements

The words of a statement are read as the statement before any word but `else`. No statement starts
with `else` or with a closing brace, so that the statements of a body are read one after the other.

## Main results

* `Lane.Target.reads`: targets are read.
* `Lane.Stmt.reads`: statements are read.
* `Lane.Stmt.readsAll`: the statements of a body are read.
-/

namespace Lane

open Grammar Word

namespace Grammar

variable {j : Nat} {es es' : List Grammar} {ws ws' rest : List Word} {fs fs' : List Fragment}

/-- Parts that are read after others. -/
lemma ReadsAll.append (h : ReadsAll j es ws (ws' ++ rest) fs) (hj : j = 100 ∨ ws ≠ [])
    (h' : ReadsAll 100 es' ws' rest fs') : ReadsAll j (es ++ es') (ws ++ ws') rest (fs ++ fs') := by
  generalize hmore : ws' ++ rest = more at h
  induction h with
  | nil =>
    obtain rfl | hne := hj
    · exact h'
    · exact absurd rfl hne
  | cons hi hne hij _ ih =>
    subst hmore
    rw [List.append_assoc, List.append_assoc]
    exact .cons (by simpa using hi) hne hij (ih (.inl rfl) rfl)
  | skip hi hij _ ih =>
    subst hmore
    rw [List.append_assoc]
    exact .skip (by simpa using hi) hij (ih hj rfl)

end Grammar

/-! ## Targets -/

namespace Target

/-- **Targets are read.** -/
lemma reads {t : Target} (h : t.Proper) {w : Word} (hw : Expr.closes 0 w) (rest : List Word) :
    Reads 22 (.rule .target) t.words (w :: rest) [.target t.unplaced] := by
  cases t with
  | decl d =>
    have hkind : (name (if d.isConst then "const" else "var")).IsToken := by
      cases d.isConst <;> decide
    have hconst : ((if d.isConst then "const" else "var") == "const") = d.isConst := by
      cases d.isConst <;> decide
    have hword : Reads 2 (oneOf ["var", "const"]) [name (if d.isConst then "const" else "var")]
        (name d.name :: punct ":" :: d.type.words ++ w :: rest)
        [(name (if d.isConst then "const" else "var")).fragment] :=
      reads_oneOf hkind (by cases d.isConst <;> decide)
    have htype : ReadsAll 100 [.token .ident, .literal ":", .rule .type]
        (name d.name :: punct ":" :: d.type.words) (w :: rest)
        [(name d.name).fragment, (punct ":").fragment, .type d.type.unplaced] :=
      .token h.1.1 rfl (by omega) (.literal (by decide) rfl (by omega)
        (.last (TypeExpr.reads h.2) (by omega)))
    have hbody : Reads 3 Rule.variableDefinition.body _ (w :: rest) _ :=
      (ReadsAll.cons hword (List.cons_ne_nil _ _) le_rfl htype).seq
    have hrule : Reads 4 (.rule .variableDefinition) _ (w :: rest) [.target (.decl d.unplaced)] :=
      hbody.rule (congrArg
        (fun b => (([] : List Diagnostic),
          Fragment.target (.decl ⟨{}, d.name, b, d.type.unplaced⟩)))
        hconst)
    exact ((hrule.alt 0 rfl (by simp)).rule rfl).mono (by omega)
  | expr x =>
    have hx := (Expr.isRead h).argument h
    obtain ⟨v, ws, hv, hfirst, -⟩ := Expr.hasFirst h
    have hexpr : Reads 20 (.rule .expression) x.words (w :: rest) [.expr x.unplaced] :=
      hx.1.reads hw
    have hbody : Reads 21 Rule.target.body x.words (w :: rest) [.expr x.unplaced] := by
      rw [hv] at hexpr ⊢
      refine hexpr.choice 1 rfl (avoidsAll_iff.2 fun e he => ?_)
      obtain rfl := List.mem_singleton.1 he
      exact hfirst.avoids (by decide) (by decide)
    exact hbody.rule rfl

/-- Targets start with words. -/
lemma exists_first {t : Target} (h : t.Proper) : ∃ w ws, t.words = w :: ws ∧
    (StartsExpr w ∨ w = name "var" ∨ w = name "const") := by
  cases t with
  | decl d =>
    refine ⟨_, _, rfl, .inr ?_⟩
    cases d.isConst
    · exact .inl rfl
    · exact .inr rfl
  | expr x =>
    obtain ⟨w, ws, hw, hfirst, -⟩ := Expr.hasFirst h
    exact ⟨w, ws, hw, .inl hfirst⟩

end Target

/-! ## Fragments of statements -/

namespace Fragment

/-- The statements of fragments in sequence. -/
@[simp] lemma stmts_append (fs gs : List Fragment) : stmts (fs ++ gs) = stmts fs ++ stmts gs :=
  List.filterMap_append

/-- A word is no statement. -/
@[simp] lemma stmts_fragment (w : Word) (fs : List Fragment) :
    stmts (w.fragment :: fs) = stmts fs :=
  rfl

/-- An expression is no statement. -/
@[simp] lemma stmts_expr (x : Expr) (fs : List Fragment) : stmts (.expr x :: fs) = stmts fs := rfl

/-- There are no statements in nothing. -/
@[simp] lemma stmts_nil : stmts [] = [] := rfl

/-- The statements among statements. -/
@[simp] lemma stmts_map_stmt : ∀ ss : List Stmt, stmts (ss.map .stmt) = ss
  | [] => rfl
  | s :: ss => congrArg (s :: ·) (stmts_map_stmt ss)

/-- An expression comes first. -/
@[simp] lemma exprs_expr (x : Expr) (fs : List Fragment) :
    exprs (.expr x :: fs) = x :: exprs fs :=
  rfl

/-- There are no expressions in nothing. -/
@[simp] lemma exprs_nil : exprs [] = [] := rfl

/-- Statements are no expressions. -/
@[simp] lemma exprs_map_stmt : ∀ ss : List Stmt, exprs (ss.map .stmt) = []
  | [] => rfl
  | _ :: ss => exprs_map_stmt ss

/-- The targets of fragments in sequence. -/
@[simp] lemma targets_append (fs gs : List Fragment) :
    targets (fs ++ gs) = targets fs ++ targets gs :=
  List.filterMap_append

/-- A word is no target. -/
@[simp] lemma targets_fragment (w : Word) (fs : List Fragment) :
    targets (w.fragment :: fs) = targets fs :=
  rfl

/-- The targets among targets. -/
lemma targets_map_target : ∀ ts : List Target, targets (ts.map .target) = ts
  | [] => rfl
  | t :: ts => congrArg (t :: ·) (targets_map_target ts)

/-- Targets are no expressions. -/
lemma exprs_map_target : ∀ ts : List Target, exprs (ts.map .target) = []
  | [] => rfl
  | _ :: ts => exprs_map_target ts

/-- Expressions are no targets. -/
lemma targets_map_expr : ∀ xs : List Expr, targets (xs.map .expr) = []
  | [] => rfl
  | _ :: xs => targets_map_expr xs

/-- The targets of a list with commas. -/
@[simp] lemma targets_separated (ts : List Target) :
    targets (separatedFragments (ts.map .target)) = ts :=
  (filterMap_separatedFragments rfl _).trans (targets_map_target ts)

/-- A list of targets has no expressions. -/
@[simp] lemma exprs_separated_targets (ts : List Target) :
    exprs (separatedFragments (ts.map .target)) = [] :=
  (filterMap_separatedFragments rfl _).trans (exprs_map_target ts)

/-- A list of expressions has no targets. -/
@[simp] lemma targets_separated_exprs (xs : List Expr) :
    targets (separatedFragments (xs.map .expr)) = [] :=
  (filterMap_separatedFragments rfl _).trans (targets_map_expr xs)

section Split

variable {w : String} {fs : List Fragment} {g : Fragment}

/-- What stands before a word and from it on. -/
lemma split_at_word (gs : List Fragment) (h : ∀ f ∈ fs, f.isWord w = false) (hg : g.isWord w) :
    (fs ++ g :: gs).takeWhile (fun f => !f.isWord w) = fs ∧
      (fs ++ g :: gs).dropWhile (fun f => !f.isWord w) = g :: gs := by
  have hfs : ∀ f ∈ fs, !f.isWord w := fun f hf => by rw [h f hf]; rfl
  rw [List.takeWhile_append_of_pos hfs, List.dropWhile_append_of_pos hfs,
    List.takeWhile_cons_of_neg (by simp [hg]), List.dropWhile_cons_of_neg (by simp [hg])]
  exact ⟨List.append_nil _, rfl⟩

/-- Nothing stands from a word on that does not occur. -/
lemma split_at_none (h : ∀ f ∈ fs, f.isWord w = false) :
    fs.takeWhile (fun f => !f.isWord w) = fs ∧ fs.dropWhile (fun f => !f.isWord w) = [] := by
  have hfs : ∀ f ∈ fs, !f.isWord w := fun f hf => by rw [h f hf]; rfl
  exact ⟨List.takeWhile_eq_self_iff.2 hfs, List.dropWhile_eq_nil_iff.2 hfs⟩

end Split

end Fragment

/-! ## Statements -/

namespace Stmt

/-- The items of an assignment's left side. -/
def targetItems (ts : List Target) : List (List Word × Fragment) :=
  ts.map fun t => (t.words, .target t.unplaced)

/-- Targets are items of a list. -/
lemma items_of_targets {ts : List Target} {stop : Word} (hstop : Expr.closes 0 stop)
    (h : ∀ t ∈ ts, t.Proper) : Items 22 .target stop (targetItems ts) where
  ne_nil q hq := by
    obtain ⟨t, ht, rfl⟩ := List.mem_map.1 hq
    obtain ⟨w, ws, hw, -⟩ := Target.exists_first (h t ht)
    simp [hw]
  reads q hq w rest hw := by
    obtain ⟨t, ht, rfl⟩ := List.mem_map.1 hq
    obtain rfl | rfl := hw
    · exact Target.reads (h t ht) (by decide) rest
    · exact Target.reads (h t ht) hstop rest

/-- The fragments of an assignment's right side. -/
def valueFragments (vs : List Expr) : List Fragment :=
  if vs.isEmpty then []
  else (op "=").fragment :: separatedFragments ((vs.map Expr.unplaced).map .expr)

/-- Assigned values are no targets. -/
lemma targets_valueFragments (vs : List Expr) : Fragment.targets (valueFragments vs) = [] := by
  unfold valueFragments
  split
  · rfl
  · rw [Fragment.targets_fragment, Fragment.targets_separated_exprs]

/-- The expressions among assigned values. -/
lemma exprs_valueFragments (vs : List Expr) :
    Fragment.exprs (valueFragments vs) = vs.map Expr.unplaced := by
  unfold valueFragments
  split
  · rename_i h
    rw [List.isEmpty_iff.1 h]
    rfl
  · rw [Fragment.exprs_fragment, Fragment.exprs_separated]

/-- The right side of an assignment, and its end, are read. -/
lemma readsAll_values {vs : List Expr} {rest : List Word} (h : ∀ v ∈ vs, v.Proper) :
    ReadsAll 100 [.optional (.seq (.literal "=" :: commaSeparated .expression)), .literal ";"]
      (valueWords vs ++ [punct ";"]) rest (valueFragments vs ++ [(punct ";").fragment]) := by
  have hend : ReadsAll 100 [.literal ";"] [punct ";"] rest [(punct ";").fragment] :=
    .literal (by decide) rfl (by omega) .nil
  obtain rfl | hne := eq_or_ne vs []
  · have hnone : Reads 1 (.optional (.seq (.literal "=" :: commaSeparated .expression))) []
        ([punct ";"] ++ rest) [] := reads_optional_none (by decide)
    exact .next hnone (by omega) hend
  · have hitems : Items 20 .expression (punct ";") (Expr.argumentItems vs) :=
      Expr.items_of_args (by decide) fun v hv => (Expr.isRead (h v hv)).argument (h v hv)
    have hvalues : ReadsAll 100 (commaSeparated .expression)
        (separated ((Expr.argumentItems vs).map Prod.fst)) (punct ";" :: rest) _ :=
      ReadsAll.commaSeparated hitems (by simpa [Expr.argumentItems] using hne)
        (by decide) (by omega) le_rfl
    have hfrags : (Expr.argumentItems vs).map Prod.snd = (vs.map Expr.unplaced).map .expr := by
      simp [Expr.argumentItems, Function.comp_def]
    rw [Expr.words_argumentItems, hfrags] at hvalues
    have hright : ReadsAll 1 (.literal "=" :: commaSeparated .expression) (op "=" :: _)
        (punct ";" :: rest) ((op "=").fragment :: _) :=
      .literal (by decide) rfl le_rfl hvalues
    have hall := ReadsAll.next hright.seq.optional (by omega) hend
    have hempty : vs.isEmpty = false := by simpa using hne
    simpa [valueWords, valueFragments, hempty] using hall

/-- **Assignments are read.** -/
lemma reads_assign {ts : List Target} {vs : List Expr} {rest : List Word} (hne : ts ≠ [])
    (hts : ∀ t ∈ ts, t.Proper) (hvs : ∀ v ∈ vs, v.Proper) (pos : Position) :
    Reads 24 (.rule .assignment) (words (.assign pos ts vs)) rest
      [.stmt (.assign {} (ts.map Target.unplaced) (vs.map Expr.unplaced))] := by
  have hnext : ∃ w more, valueWords vs ++ [punct ";"] ++ rest = w :: more ∧ w.text ≠ "," ∧
      Expr.closes 0 w := by
    cases vs with
    | nil => exact ⟨_, _, rfl, by decide, by decide⟩
    | cons => exact ⟨_, _, rfl, by decide, by decide⟩
  obtain ⟨w, more, hmore, hcomma, hcloses⟩ := hnext
  have htargets : ReadsAll 22 (commaSeparated .target)
      (separated ((targetItems ts).map Prod.fst)) (w :: more) _ :=
    ReadsAll.commaSeparated (items_of_targets hcloses hts) (by simpa [targetItems] using hne) hcomma
      le_rfl (by omega)
  have hwords : (targetItems ts).map Prod.fst = ts.map Target.words := by
    simp [targetItems, Function.comp_def]
  have hfrags : (targetItems ts).map Prod.snd = (ts.map Target.unplaced).map .target := by
    simp [targetItems, Function.comp_def]
  rw [hwords, hfrags, ← hmore] at htargets
  have hempty : separated (ts.map Target.words) ≠ [] := by
    cases ts with
    | nil => exact absurd rfl hne
    | cons t ts =>
      obtain ⟨v, ws, hv, -⟩ := Target.exists_first (hts t (.head _))
      simp [separated, hv]
  have hbody : Reads 23 Rule.assignment.body (words (.assign pos ts vs)) rest _ :=
    (htargets.append (.inr hempty) (readsAll_values hvs)).seq
  refine hbody.rule (congrArg₂ (fun ts vs =>
    (([] : List Diagnostic), Fragment.stmt (.assign {} ts vs))) ?_ ?_)
  · rw [Fragment.targets_append, Fragment.targets_append, Fragment.targets_separated,
      targets_valueFragments]
    exact List.append_nil _
  · rw [Fragment.exprs_append, Fragment.exprs_append, Fragment.exprs_separated_targets,
      exprs_valueFragments]
    exact List.append_nil _

/-- An assignment does not start with another statement's word. -/
lemma avoidsAll_of_target {w : Word} (h : StartsExpr w ∨ w = name "var" ∨ w = name "const") :
    avoidsAll [.rule .ifStatement, .rule .whileStatement, .rule .repeatStatement, .rule .block,
      .seq [.literal "return", .literal ";"], .seq [.literal "break", .literal ";"],
      .seq [.literal "continue", .literal ";"]] w := by
  have hall : ∀ v ∈ name "var" :: name "const" :: firstWords,
      avoidsAll [.rule .ifStatement, .rule .whileStatement, .rule .repeatStatement, .rule .block,
        .seq [.literal "return", .literal ";"], .seq [.literal "break", .literal ";"],
        .seq [.literal "continue", .literal ";"]] v := by decide
  obtain (h | ⟨hkey, h⟩) | rfl | rfl := h
  · exact hall w (.tail _ (.tail _ h))
  · exact avoidsAll_of_not_mem hkey (by decide) (hall _ (.tail _ (.tail _ h)))
  · exact hall _ (.head _)
  · exact hall _ (.tail _ (.head _))

/-- Assignments start like their first targets. -/
lemma exists_first_assign {ts : List Target} (hne : ts ≠ []) (hts : ∀ t ∈ ts, t.Proper)
    (pos : Position) (vs : List Expr) : ∃ w ws, words (.assign pos ts vs) = w :: ws ∧
      (StartsExpr w ∨ w = name "var" ∨ w = name "const") := by
  cases ts with
  | nil => exact absurd rfl hne
  | cons t ts =>
    obtain ⟨w, ws, hw, hfirst⟩ := Target.exists_first (hts t (.head _))
    refine ⟨w, ws ++ afterCommas (ts.map Target.words) ++
      (valueWords vs ++ [punct ";"]), ?_, hfirst⟩
    simp [words, separated, hw]

/-- **Statements do not start with `else`.** -/
lemma exists_first : ∀ {s : Stmt}, s.Proper → ∃ w ws, s.words = w :: ws ∧ w.text ≠ "else"
  | .assign pos ts vs, h => by
    obtain ⟨w, ws, hw, hfirst⟩ := exists_first_assign h.1 h.2.1 pos vs
    refine ⟨w, ws, hw, ?_⟩
    obtain hfirst | rfl | rfl := hfirst
    · exact bne_iff_ne.1 (hfirst.avoids (e := .literal "else") (by decide)
        (by decide))
    · decide
    · decide
  | .ifThen .., _ | .ifElse .., _ | .whileLoop .., _ | .repeatUntil .., _ | .block .., _
  | .ret _, _ | .brk _, _ | .cont _, _ => ⟨_, _, rfl, by decide⟩

/-! ### Bodies -/

/-- **What it means that a body is read**: its statements are, before any word but `else`. -/
def BodyRead (ss : List Stmt) : Prop :=
  ∀ w rest, w.text ≠ "else" → Repeats 26 (.rule .statement) (wordsAll ss) (w :: rest)
    ((ss.map unplaced).map .stmt)

/-- The fragments of a body in braces. -/
def bodyFragments (ss : List Stmt) : List Fragment :=
  (punct "\x7b").fragment :: (ss.map unplaced).map .stmt ++ [(punct "\x7d").fragment]

section Bodies

variable {ss : List Stmt} {x : Expr} {w : Word} {es : List Grammar} {ws rest : List Word}
  {fs : List Fragment}

/-- The statements of a body. -/
@[simp] lemma stmts_bodyFragments (ss : List Stmt) :
    Fragment.stmts (bodyFragments ss) = ss.map unplaced := by
  rw [bodyFragments, Fragment.stmts_append, Fragment.stmts_fragment, Fragment.stmts_map_stmt]
  exact List.append_nil _

/-- A body has no expressions of its own. -/
@[simp] lemma exprs_bodyFragments (ss : List Stmt) : Fragment.exprs (bodyFragments ss) = [] := by
  rw [bodyFragments, Fragment.exprs_append, Fragment.exprs_fragment, Fragment.exprs_map_stmt]
  rfl

/-- A body has no words but braces. -/
lemma isWord_bodyFragments {s : String} (h : s ≠ "\x7b") (h' : s ≠ "\x7d") :
    ∀ f ∈ bodyFragments ss, f.isWord s = false := by
  intro f hf
  obtain rfl | hf := List.mem_cons.1 hf
  · exact beq_false_of_ne fun he => h (Option.some.inj he).symm
  · obtain hf | hf := List.mem_append.1 hf
    · obtain ⟨s, -, rfl⟩ := List.mem_map.1 hf
      rfl
    · obtain rfl := List.mem_singleton.1 hf
      exact beq_false_of_ne fun he => h' (Option.some.inj he).symm

/-- **A body in braces is read** if its statements are. -/
lemma BodyRead.readsAll {j : Nat} (h : BodyRead ss) (hj : 1 ≤ j)
    (hes : ReadsAll 100 es ws rest fs) :
    ReadsAll j (braced .statement ++ es) (inBraces (wordsAll ss) ++ ws) rest
      (bodyFragments ss ++ fs) := by
  have hall := ReadsAll.braced (h _ (ws ++ rest) (by decide)) (by decide) (by omega) hj hes
  simpa [bodyFragments] using hall

/-- A condition is read before a body. -/
lemma reads_condition {s : String} (hx : x.Proper) (hs : (name s).IsToken)
    (hes : ReadsAll 100 es (punct "\x7b" :: ws) rest fs) :
    ReadsAll 1 (.literal s :: .rule .expression :: es) (name s :: x.words ++ punct "\x7b" :: ws)
      rest ((name s).fragment :: .expr x.unplaced :: fs) := by
  have hread : Reads 20 (.rule .expression) x.words (punct "\x7b" :: ws ++ rest)
      [.expr x.unplaced] := ((Expr.isRead hx).argument hx).1.reads (by decide)
  exact .literal hs rfl le_rfl (.next hread (by omega) hes)

/-- A block is read as such. -/
lemma reads_block (h : BodyRead ss) :
    Reads 3 (.rule .block) (inBraces (wordsAll ss)) rest [.stmt (.block {} (ss.map unplaced))] := by
  have hall : ReadsAll 1 (braced .statement ++ []) (inBraces (wordsAll ss) ++ []) rest
      (bodyFragments ss ++ []) := h.readsAll le_rfl .nil
  rw [List.append_nil, List.append_nil, List.append_nil] at hall
  have hbody : Reads 2 Rule.block.body _ rest _ := hall.seq
  exact hbody.rule (congrArg (fun ss => (([] : List Diagnostic), Fragment.stmt (.block {} ss)))
    (stmts_bodyFragments ss))

/-- A while loop is read as such. -/
lemma reads_while (hx : x.Proper) (h : BodyRead ss) :
    Reads 3 (.rule .whileStatement) (name "while" :: x.words ++ inBraces (wordsAll ss)) rest
      [.stmt (.whileLoop {} x.unplaced (ss.map unplaced))] := by
  have hbraces : ReadsAll 100 (braced .statement ++ []) (inBraces (wordsAll ss) ++ []) rest
      (bodyFragments ss ++ []) := h.readsAll (by omega) .nil
  rw [List.append_nil, List.append_nil, List.append_nil] at hbraces
  have hbody : Reads 2 Rule.whileStatement.body _ rest _ :=
    (reads_condition (s := "while") hx (by decide) hbraces).seq
  refine hbody.rule (congrArg (fun ss => (([] : List Diagnostic),
    Fragment.stmt (.whileLoop {} x.unplaced ss))) ?_)
  exact stmts_bodyFragments ss

/-- What a `repeat` stands for. -/
lemma ofRule_repeat (h : Fragment.exprs fs = [x]) :
    Fragment.ofRule .repeatStatement {} {} fs =
      ([], .stmt (.repeatUntil {} (Fragment.stmts fs) x)) := by
  dsimp only [Fragment.ofRule]
  rw [h]

/-- A repeat loop is read as such. -/
lemma reads_repeat (hx : x.Proper) (h : BodyRead ss) :
    Reads 3 (.rule .repeatStatement)
      (name "repeat" :: inBraces (wordsAll ss) ++ name "until" :: x.words ++ [punct ";"]) rest
      [.stmt (.repeatUntil {} (ss.map unplaced) x.unplaced)] := by
  have hend : ReadsAll 100 [.literal ";"] [punct ";"] rest [(punct ";").fragment] :=
    .literal (by decide) rfl (by omega) .nil
  have hread : Reads 20 (.rule .expression) x.words ([punct ";"] ++ rest) [.expr x.unplaced] :=
    ((Expr.isRead hx).argument hx).1.reads (by decide)
  have huntil : ReadsAll 100 [.literal "until", .rule .expression, .literal ";"]
      (name "until" :: (x.words ++ [punct ";"])) rest
      ((name "until").fragment :: .expr x.unplaced :: [(punct ";").fragment]) :=
    .literal (by decide) rfl (by omega) (.next hread (by omega) hend)
  have hall : ReadsAll 1 (.literal "repeat" :: (braced .statement ++ _)) (name "repeat" ::
      (inBraces (wordsAll ss) ++ name "until" :: (x.words ++ [punct ";"]))) rest
      ((name "repeat").fragment :: (bodyFragments ss ++ _)) :=
    .literal (by decide) rfl le_rfl (h.readsAll (by omega) huntil)
  have hbody : Reads 2 Rule.repeatStatement.body
      (name "repeat" :: inBraces (wordsAll ss) ++ name "until" :: x.words ++ [punct ";"]) rest
      ((name "repeat").fragment :: (bodyFragments ss ++ (name "until").fragment ::
        .expr x.unplaced :: [(punct ";").fragment])) := by
    rw [List.cons_append, List.cons_append, List.append_assoc, List.cons_append]
    exact hall.seq
  have hexprs : Fragment.exprs ((name "repeat").fragment :: (bodyFragments ss ++
      (name "until").fragment :: .expr x.unplaced :: [(punct ";").fragment])) = [x.unplaced] := by
    simp
  refine hbody.rule ((ofRule_repeat hexprs).trans ?_)
  rw [Fragment.stmts_fragment, Fragment.stmts_append, stmts_bodyFragments]
  exact congrArg (fun ss => (([] : List Diagnostic), Fragment.stmt (.repeatUntil {} ss x.unplaced)))
    (List.append_nil _)

/-! ### Conditionals -/

/-- The fragments of a condition with its body. -/
def conditionFragments (x : Expr) (ss : List Stmt) : List Fragment :=
  (name "if").fragment :: .expr x.unplaced :: bodyFragments ss

/-- There is no else before the end of a condition. -/
lemma isWord_conditionFragments (x : Expr) (ss : List Stmt) :
    ∀ f ∈ conditionFragments x ss, f.isWord "else" = false := by
  intro f hf
  obtain rfl | hf := List.mem_cons.1 hf
  · rfl
  · obtain rfl | hf := List.mem_cons.1 hf
    · rfl
    · exact isWord_bodyFragments (by decide) (by decide) f hf

/-- A condition without an alternative. -/
lemma conditional_ifThen (x : Expr) (ss : List Stmt) :
    Fragment.conditional {} (conditionFragments x ss) =
      .stmt (.ifThen {} x.unplaced (ss.map unplaced)) := by
  obtain ⟨hbefore, hafter⟩ := Fragment.split_at_none (isWord_conditionFragments x ss)
  simp only [Fragment.conditional, hbefore, hafter]
  simp [conditionFragments]

/-- A condition with an alternative. -/
lemma conditional_ifElse (x : Expr) (ss other : List Stmt) : Fragment.conditional {}
    (conditionFragments x ss ++ (name "else").fragment :: [.stmt (.block {} other)]) =
      .stmt (.ifElse {} x.unplaced (ss.map unplaced) other) := by
  have helse : (name "else").fragment.isWord "else" := rfl
  obtain ⟨hbefore, hafter⟩ :=
    Fragment.split_at_word [.stmt (.block {} other)] (isWord_conditionFragments x ss) helse
  have hstmts : Fragment.stmts ((name "else").fragment :: [.stmt (.block {} other)]) =
      [.block {} other] := rfl
  simp only [Fragment.conditional, hbefore, hafter, hstmts]
  simp [conditionFragments]

/-- The part of a conditional that starts with `else`. -/
def elsePart : Grammar :=
  .optional (.seq [.literal "else", .alt [.rule .ifStatement, .rule .block]])

/-- A condition without an alternative is read as such. -/
lemma reads_ifThen (hx : x.Proper) (h : BodyRead ss) (hw : w.text ≠ "else") :
    Reads 3 (.rule .ifStatement) (name "if" :: x.words ++ inBraces (wordsAll ss)) (w :: rest)
      [.stmt (.ifThen {} x.unplaced (ss.map unplaced))] := by
  have hnone : Reads 1 elsePart [] (w :: rest) [] :=
    reads_optional_none (Bool.or_eq_true_iff.2 (.inl (bne_iff_ne.2 hw)))
  have hbraces : ReadsAll 100 (braced .statement ++ [elsePart]) (inBraces (wordsAll ss) ++ [])
      (w :: rest) (bodyFragments ss ++ []) := h.readsAll (by omega) (.last hnone (by omega))
  rw [List.append_nil, List.append_nil] at hbraces
  have hbody : Reads 2 Rule.ifStatement.body _ (w :: rest) (conditionFragments x ss) :=
    (reads_condition hx (by decide) hbraces).seq
  exact hbody.rule (congrArg (Prod.mk []) (conditional_ifThen x ss))

/-- A condition with an alternative is read as such. -/
lemma reads_ifElse {other : List Stmt} (hx : x.Proper) (h : BodyRead ss) (h' : BodyRead other) :
    Reads 3 (.rule .ifStatement)
      (name "if" :: x.words ++ (inBraces (wordsAll ss) ++ name "else" :: inBraces (wordsAll other)))
      rest [.stmt (.ifElse {} x.unplaced (ss.map unplaced) (other.map unplaced))] := by
  have hblock : Reads 4 (.alt [.rule .ifStatement, .rule .block]) (inBraces (wordsAll other)) rest
      [.stmt (.block {} (other.map unplaced))] :=
    (reads_block h').choice 1 rfl (by decide)
  have helse : ReadsAll 1 [.literal "else", .alt [.rule .ifStatement, .rule .block]]
      (name "else" :: inBraces (wordsAll other)) rest
      ((name "else").fragment :: [.stmt (.block {} (other.map unplaced))]) :=
    .literal (by decide) rfl le_rfl (.last hblock (by omega))
  have hpart : Reads 3 elsePart (name "else" :: inBraces (wordsAll other)) rest
      ((name "else").fragment :: [.stmt (.block {} (other.map unplaced))]) := helse.seq.optional
  have hbraces : ReadsAll 100 (braced .statement ++ [elsePart])
      (inBraces (wordsAll ss) ++ name "else" :: inBraces (wordsAll other)) rest
      (bodyFragments ss ++ (name "else").fragment :: [.stmt (.block {} (other.map unplaced))]) :=
    h.readsAll (by omega) (.last hpart (by omega))
  have hbody : Reads 2 Rule.ifStatement.body _ rest (conditionFragments x ss ++
      (name "else").fragment :: [.stmt (.block {} (other.map unplaced))]) :=
    (reads_condition hx (by decide) hbraces).seq
  exact hbody.rule (congrArg (Prod.mk []) (conditional_ifElse x ss (other.map unplaced)))

/-- A word before a semicolon is read. -/
lemma reads_semicolon {s : String} (hs : (name s).IsToken) :
    Reads 2 (.seq [.literal s, .literal ";"]) [name s, punct ";"] rest
      [(name s).fragment, (punct ";").fragment] := by
  have hend : ReadsAll 100 [.literal ";"] [punct ";"] rest [(punct ";").fragment] :=
    .literal (by decide) rfl (by omega) .nil
  exact (ReadsAll.literal hs rfl le_rfl hend).seq

end Bodies

/-! ### All statements -/

mutual

/-- **Statements are read**, before any word but `else`. -/
theorem reads : ∀ {s : Stmt}, s.Proper → ∀ {w : Word} {rest : List Word}, w.text ≠ "else" →
    Reads 26 (.rule .statement) s.words (w :: rest) [.stmt s.unplaced]
  | .assign pos ts vs, h, w, rest, _ => by
    have hassign : Reads 24 (.rule .assignment) _ (w :: rest) _ := reads_assign h.1 h.2.1 h.2.2 pos
    obtain ⟨v, ws, hv, hfirst⟩ := exists_first_assign h.1 h.2.1 pos vs
    rw [hv] at hassign ⊢
    have hbody : Reads 25 Rule.statement.body (v :: ws) (w :: rest) _ :=
      hassign.choice 7 rfl (avoidsAll_of_target hfirst)
    exact hbody.rule rfl
  | .ifThen _ x body, h, w, rest, hw => by
    rw [words, unplaced, unplacedAll_eq]
    exact (((reads_ifThen h.1 (readsAll h.2) hw).choice 0 rfl rfl).rule rfl).mono (by omega)
  | .ifElse _ x body other, h, w, rest, _ => by
    rw [words, unplaced, unplacedAll_eq, unplacedAll_eq]
    exact (((reads_ifElse h.1 (readsAll h.2.1) (readsAll h.2.2)).choice 0 rfl rfl).rule rfl).mono
      (by omega)
  | .whileLoop _ x body, h, w, rest, _ => by
    rw [words, unplaced, unplacedAll_eq]
    exact (((reads_while h.1 (readsAll h.2)).choice 1 rfl (by decide)).rule rfl).mono
      (by omega)
  | .repeatUntil _ body x, h, w, rest, _ => by
    rw [words, unplaced, unplacedAll_eq]
    exact (((reads_repeat h.1 (readsAll h.2)).choice 2 rfl (by decide)).rule rfl).mono
      (by omega)
  | .block _ body, h, w, rest, _ => by
    rw [words, unplaced, unplacedAll_eq]
    exact (((reads_block (readsAll h)).choice 3 rfl (by decide)).rule rfl).mono (by omega)
  | .ret _, _, w, rest, _ =>
    (((reads_semicolon (by decide)).choice 4 rfl (by decide)).rule rfl).mono (by omega)
  | .brk _, _, w, rest, _ =>
    (((reads_semicolon (by decide)).choice 5 rfl (by decide)).rule rfl).mono (by omega)
  | .cont _, _, w, rest, _ =>
    (((reads_semicolon (by decide)).choice 6 rfl (by decide)).rule rfl).mono (by omega)

/-- **The statements of a body are read.** -/
theorem readsAll : ∀ {ss : List Stmt}, ProperAll ss → BodyRead ss
  | [], _ => fun _ _ _ => .nil
  | s :: ss, h => by
    intro w rest hw
    have hss := readsAll h.2 w rest hw
    have hnext : ∃ v more, wordsAll ss ++ w :: rest = v :: more ∧ v.text ≠ "else" := by
      cases ss with
      | nil => exact ⟨w, rest, rfl, hw⟩
      | cons t ts =>
        obtain ⟨v, ws, hv, hne⟩ := exists_first h.2.1
        exact ⟨v, ws ++ wordsAll ts ++ w :: rest, by simp [wordsAll, hv], hne⟩
    obtain ⟨v, more, hmore, hv⟩ := hnext
    obtain ⟨u, ws, hu, -⟩ := exists_first h.1
    have hs : Reads 26 (.rule .statement) s.words (wordsAll ss ++ w :: rest)
        [.stmt s.unplaced] := by
      rw [hmore]
      exact reads h.1 hv
    exact .cons hs (by simp [hu]) hss

end

end Stmt

end Lane
