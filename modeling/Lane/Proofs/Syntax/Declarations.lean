import Lane.Proofs.Syntax.Statements

set_option relaxedAutoImplicit false
set_option autoImplicit false

/-!
# Reading declarations

Classes, their members and foreign functions are read. What stands between the parentheses of a
function's head is told apart by the arrow, which occurs nowhere else after the name.

## Main results

* `Lane.ParamSyntax.readsAll_signature`: the parameters and results of a function are read.
* `Lane.FuncSyntax.reads`, `Lane.MemberSyntax.reads`: members of classes are read.
* `Lane.ClassSyntax.reads`, `Lane.ForeignSyntax.reads`: classes and foreign functions are read.
-/

namespace Lane

open Grammar Word

/-! ## Parameters -/

namespace Fragment

/-- The parameters of fragments in sequence. -/
@[simp] lemma params_append (fs gs : List Fragment) : params (fs ++ gs) = params fs ++ params gs :=
  List.filterMap_append

/-- A word is no parameter. -/
@[simp] lemma params_fragment (w : Word) (fs : List Fragment) :
    params (w.fragment :: fs) = params fs :=
  rfl

/-- The parameters among parameters. -/
lemma params_map_param : ∀ ps : List ParamSyntax, params (ps.map .param) = ps
  | [] => rfl
  | p :: ps => congrArg (p :: ·) (params_map_param ps)

/-- Statements are no parameters. -/
lemma params_map_stmt : ∀ ss : List Stmt, params (ss.map .stmt) = []
  | [] => rfl
  | _ :: ss => params_map_stmt ss

/-- A body has no parameters. -/
@[simp] lemma params_bodyFragments (ss : List Stmt) : params (Stmt.bodyFragments ss) = [] := by
  rw [Stmt.bodyFragments, params_append, params_fragment, params_map_stmt]
  rfl

/-- Parameters are no statements. -/
lemma stmts_map_param : ∀ ps : List ParamSyntax, stmts (ps.map .param) = []
  | [] => rfl
  | _ :: ps => stmts_map_param ps

/-- The parameters of a list with commas. -/
@[simp] lemma params_separated (ps : List ParamSyntax) :
    params (separatedFragments (ps.map .param)) = ps :=
  (filterMap_separatedFragments rfl _).trans (params_map_param ps)

/-- A list of parameters has no statements. -/
@[simp] lemma stmts_separated_params (ps : List ParamSyntax) :
    stmts (separatedFragments (ps.map .param)) = [] :=
  (filterMap_separatedFragments rfl _).trans (stmts_map_param ps)

/-- A list of parameters has no words but commas. -/
lemma isWord_separated_params {ps : List ParamSyntax} {s : String} (hs : s ≠ ",") :
    ∀ f ∈ separatedFragments (ps.map .param), f.isWord s = false := by
  cases ps with
  | nil => simp [separatedFragments]
  | cons p ps =>
    intro f hf
    obtain rfl | hf := List.mem_cons.1 hf
    · rfl
    · obtain ⟨g, hg, hf⟩ := List.mem_flatMap.1 hf
      obtain ⟨q, -, rfl⟩ := List.mem_map.1 hg
      obtain rfl | hf := List.mem_cons.1 hf
      · exact beq_false_of_ne fun he => hs (Option.some.inj he).symm
      · obtain rfl := List.mem_singleton.1 hf
        rfl

end Fragment

namespace ParamSyntax

variable {ps params results : List ParamSyntax} {es : List Grammar} {w : Word}
  {ws rest : List Word} {fs : List Fragment}

/-- A qualifier, or none, is read before a type. -/
lemma reads_qualifier (q : Qualifier) {t : TypeExpr} (ht : t.Proper) (rest : List Word) :
    Reads 3 (.optional (oneOf ["var", "const", "ref", "cref"]))
      (if q = .none then [] else [Word.name q.word]) (t.words ++ rest)
      (if q = .none then [] else [(Word.name q.word).fragment]) := by
  obtain rfl | hq := eq_or_ne q .none
  · obtain ⟨w, ws, hw, hne⟩ : ∃ w ws, t.words = w :: ws ∧
        (oneOf ["var", "const", "ref", "cref"]).avoids w := by
      cases t with
      | name _ n => exact ⟨_, _, rfl, IsName.avoids ht (by decide) (by decide)⟩
      | container _ k t => exact ⟨_, _, rfl, by cases k <;> decide⟩
    rw [hw]
    exact (reads_optional_none hne).mono (by omega)
  · rw [if_neg hq, if_neg hq]
    have hword : Reads 2 (oneOf ["var", "const", "ref", "cref"]) [Word.name q.word]
      (t.words ++ rest)
        [(Word.name q.word).fragment] := by
      cases q with
      | none => exact absurd rfl hq
      | _ => exact reads_oneOf (by decide) (by decide)
    exact hword.optional

/-- **Parameters are read.** -/
lemma reads {p : ParamSyntax} (h : p.Proper) (rest : List Word) :
    Reads 3 (.rule .argumentDefinition) p.words rest [.param p.unplaced] := by
  have htype : ReadsAll 100 [.rule .type] p.type.words rest [.type p.type.unplaced] :=
    .last (TypeExpr.reads h.2) (by omega)
  have hcolon : (punct ":").IsToken := by decide
  have hbody : Reads 2 Rule.argumentDefinition.body p.words rest _ :=
    (ReadsAll.token h.1.1 rfl le_rfl (.literal hcolon rfl (by omega)
      (.next (reads_qualifier p.qualifier h.2 rest) (by omega) htype))).seq
  refine hbody.rule ?_
  obtain ⟨_, _, q, _⟩ := p
  cases q <;> rfl

/-- The items of a list of parameters. -/
def paramItems (ps : List ParamSyntax) : List (List Word × Fragment) :=
  ps.map fun p => (p.words, .param p.unplaced)

/-- Parameters are items of a list. -/
lemma items_of_params (h : ∀ p ∈ ps, p.Proper) :
    Items 3 .argumentDefinition (punct ")") (paramItems ps) where
  ne_nil q hq := by
    obtain ⟨p, -, rfl⟩ := List.mem_map.1 hq
    exact List.cons_ne_nil _ _
  reads q hq w rest _ := by
    obtain ⟨p, hp, rfl⟩ := List.mem_map.1 hq
    exact reads (h p hp) (w :: rest)

/-- The fragments of parameters in parentheses. -/
def paramFragments (ps : List ParamSyntax) : List Fragment :=
  (punct "(").fragment :: separatedFragments ((ps.map unplaced).map .param) ++
    [(punct ")").fragment]

/-- Parameters in parentheses are read. -/
lemma readsAll_params {j : Nat} (h : ∀ p ∈ ps, p.Proper) (hj : 1 ≤ j)
    (hes : ReadsAll 100 es ws rest fs) : ReadsAll j (parenthesized .argumentDefinition ++ es)
      (inParens (separated (ps.map words)) ++ ws) rest (paramFragments ps ++ fs) := by
  have hall := ReadsAll.parenthesized (items_of_params h) (by decide) (by omega) hj hes
  simpa [paramItems, paramFragments, Function.comp_def] using hall

/-- The fragments of results. -/
def resultFragments (ps : List ParamSyntax) : List Fragment :=
  if ps.isEmpty then [] else (op "->").fragment :: paramFragments ps

/-- Results are read before any word but the arrow. -/
lemma reads_results (h : ∀ p ∈ ps, p.Proper) (hw : w.text ≠ "->") :
    Reads 3 Grammar.results
      (if ps.isEmpty then [] else op "->" :: inParens (separated (ps.map words))) (w :: rest)
      (resultFragments ps) := by
  cases hps : ps.isEmpty with
  | true =>
    have hnone : Reads 1 Grammar.results [] (w :: rest) [] :=
      reads_optional_none (Bool.or_eq_true_iff.2 (.inl (bne_iff_ne.2 hw)))
    simpa [resultFragments, hps] using hnone.mono (j := 3) (by omega)
  | false =>
    have hparams : ReadsAll 100 (parenthesized .argumentDefinition ++ [])
        (inParens (separated (ps.map words)) ++ []) (w :: rest) (paramFragments ps ++ []) :=
      readsAll_params h (by omega) .nil
    rw [List.append_nil, List.append_nil, List.append_nil] at hparams
    have harrow : ReadsAll 1 (.literal "->" :: parenthesized .argumentDefinition) (op "->" :: _)
        (w :: rest) ((op "->").fragment :: _) := .literal (by decide) rfl le_rfl hparams
    have hsome : Reads 3 Grammar.results _ (w :: rest) _ := harrow.seq.optional
    simpa [resultFragments, hps] using hsome

/-- **The parameters and results of a function are read** before any word but the arrow. -/
lemma readsAll_signature (hparams : ∀ p ∈ params, p.Proper) (hresults : ∀ p ∈ results, p.Proper)
    (hw : w.text ≠ "->") (hes : ReadsAll 100 es (w :: ws) rest fs) :
    ReadsAll 100 (parenthesized .argumentDefinition ++ Grammar.results :: es)
      (signatureWords params results ++ w :: ws) rest
      (paramFragments params ++ (resultFragments results ++ fs)) := by
  rw [signatureWords, List.append_assoc]
  exact readsAll_params hparams (by omega) (.next (reads_results hresults hw) (by omega) hes)

/-- There is no arrow in a list of parameters. -/
lemma isWord_paramFragments : ∀ f ∈ paramFragments ps, f.isWord "->" = false := by
  intro f hf
  obtain rfl | hf := List.mem_cons.1 hf
  · rfl
  · obtain hf | hf := List.mem_append.1 hf
    · exact Fragment.isWord_separated_params (by decide) f hf
    · obtain rfl := List.mem_singleton.1 hf
      rfl

/-- The parameters in parentheses. -/
@[simp] lemma params_paramFragments (ps : List ParamSyntax) :
    Fragment.params (paramFragments ps) = ps.map unplaced := by
  rw [paramFragments, Fragment.params_append, Fragment.params_fragment, Fragment.params_separated]
  exact List.append_nil _

/-- Parameters in parentheses have no statements. -/
@[simp] lemma stmts_paramFragments (ps : List ParamSyntax) :
    Fragment.stmts (paramFragments ps) = [] := by
  rw [paramFragments, Fragment.stmts_append, Fragment.stmts_fragment,
    Fragment.stmts_separated_params]
  rfl

/-- Results have no statements. -/
@[simp] lemma stmts_resultFragments (ps : List ParamSyntax) :
    Fragment.stmts (resultFragments ps) = [] := by
  unfold resultFragments
  split
  · rfl
  · rw [Fragment.stmts_fragment, stmts_paramFragments]

/-- **What a head stands for**: the parameters before and after the arrow. -/
lemma signature_eq (hfs : ∀ f ∈ fs, f.isWord "->" = false) (hnone : Fragment.params fs = []) :
    Fragment.signature (paramFragments params ++ (resultFragments results ++ fs)) =
      (params.map unplaced, results.map unplaced) := by
  cases results with
  | nil =>
    have hall : ∀ f ∈ paramFragments params ++ fs, f.isWord "->" = false := fun f hf =>
      (List.mem_append.1 hf).elim (isWord_paramFragments f) (hfs f)
    obtain ⟨hbefore, hafter⟩ := Fragment.split_at_none hall
    have hnil : resultFragments [] ++ fs = fs := rfl
    rw [hnil, Fragment.signature, hbefore, hafter, Fragment.params_append, params_paramFragments,
      hnone, List.append_nil]
    rfl
  | cons r results =>
    have harrow : (op "->").fragment.isWord "->" := rfl
    have hwords : ∀ f ∈ paramFragments params, f.isWord "->" = false := isWord_paramFragments
    obtain ⟨hbefore, hafter⟩ := Fragment.split_at_word (paramFragments (r :: results) ++ fs)
      hwords harrow
    have hcons : resultFragments (r :: results) ++ fs =
        (op "->").fragment :: (paramFragments (r :: results) ++ fs) := rfl
    rw [hcons, Fragment.signature, hbefore, hafter, Fragment.params_fragment,
      Fragment.params_append, params_paramFragments, params_paramFragments, hnone, List.append_nil]

end ParamSyntax

/-! ## Members of classes -/

/-- **`simd` may stand before other words.** -/
lemma readsAll_simd (isSimd : Bool) {es : List Grammar} {w : Word} {ws rest : List Word}
    {fs : List Fragment} (hw : w.text ≠ "simd") (h : ReadsAll 2 es (w :: ws) rest fs) :
    ReadsAll 2 (.optional (.literal "simd") :: es) (simdWord isSimd ++ w :: ws) rest
      ((simdWord isSimd).map Word.fragment ++ fs) := by
  cases isSimd with
  | false =>
    have hnone : (Grammar.literal "simd").avoids w := bne_iff_ne.2 hw
    exact .skip (reads_optional_none hnone) (by omega) h
  | true =>
    have hword : Reads 1 (.literal "simd") [name "simd"] (w :: ws ++ rest)
        [(name "simd").fragment] := reads_literal (by decide) rfl
    exact .cons hword.optional (List.cons_ne_nil _ _) le_rfl (h.mono (by omega))

/-- The word for packed execution is a flag. -/
lemma flag_simd (isSimd : Bool) {f : Fragment} (hf : f.isWord "simd" = false) (fs : List Fragment) :
    Fragment.flag "simd" ((simdWord isSimd).map Word.fragment ++ f :: fs) = (isSimd, f :: fs) := by
  cases isSimd with
  | false => exact if_neg (by simp [hf])
  | true => rfl

namespace FuncKind

variable (k : FuncKind)

/-- The words for kinds of functions are tokens. -/
lemma isToken : (Word.name k.name).IsToken := by cases k <;> decide

/-- The word for packed execution is no kind of function. -/
lemma name_ne_simd : k.name ≠ "simd" := by cases k <;> decide

end FuncKind

namespace FuncSyntax

variable {f : FuncSyntax} {rest : List Word}

/-- The fragment of a function's name. -/
def nameFragment (f : FuncSyntax) : List Fragment := f.nameWord.map Word.fragment

/-- A name that the function has is read as such. -/
lemma reads_name (h : f.Proper) : Reads 3 (.optional (.alt [.token .ident, .token .op])) f.nameWord
    (punct "(" :: rest) f.nameFragment := by
  have hname := h.1
  unfold nameFragment nameWord
  split
  · exact (reads_optional_none (by decide)).mono (by omega)
  · rename_i hkind
    rw [if_neg hkind] at hname
    split
    · rename_i hop
      have hword : Reads 2 (.alt [.token .ident, .token .op]) [op f.name] (punct "(" :: rest)
          [(op f.name).fragment] := (reads_token hop).choice 1 rfl rfl
      exact hword.optional
    · rename_i hop
      have hword : Reads 2 (.alt [.token .ident, .token .op]) [Word.name f.name] (punct "(" :: rest)
          [(Word.name f.name).fragment] :=
        (reads_token (hname.resolve_right hop).1).choice 0 rfl rfl
      exact hword.optional

/-- The name that a function has, and what follows it. -/
lemma functionName_eq (h : f.Proper) {g : Token} (hg : g.text = "(") (fs : List Fragment) :
    Fragment.functionName {} f.kind (Fragment.nameOf (f.nameFragment ++ .token g :: fs)).1 =
        ([], f.name) ∧
      (Fragment.nameOf (f.nameFragment ++ .token g :: fs)).2 = .token g :: fs := by
  have hname := h.1
  have hopen : ∀ s, s = "(" → ¬IsName s ∧ ¬(op s).IsToken := by
    rintro s rfl
    exact ⟨by decide, by decide⟩
  unfold nameFragment nameWord
  split
  · rename_i hkind
    rw [if_pos hkind] at hname
    rw [hname]
    have hnone : Fragment.nameOf (.token g :: fs) = (none, .token g :: fs) := by
      simp [Fragment.nameOf, hg]
    rw [List.map_nil, List.nil_append, hnone]
    refine ⟨?_, rfl⟩
    cases hk : f.kind with
    | create | assign => rfl
    | _ => rw [hk] at hkind; exact absurd hkind (by decide)
  · rename_i hkind
    rw [if_neg hkind] at hname
    have hne : f.name ≠ "(" := fun he => hname.elim (hopen _ he).1 (hopen _ he).2
    have hsome : ∀ w : Word, w.text = f.name →
        Fragment.nameOf (w.fragment :: .token g :: fs) = (some f.name, .token g :: fs) := by
      intro w hw
      simp [Fragment.nameOf, Word.fragment, hw, hne]
    have hfound : Fragment.functionName {} f.kind (some f.name) = ([], f.name) := by
      cases hk : f.kind with
      | create | assign => rw [hk] at hkind; exact absurd rfl hkind
      | _ => rfl
    split
    · rw [List.map_cons, List.map_nil, List.singleton_append, hsome _ rfl]
      exact ⟨hfound, rfl⟩
    · rw [List.map_cons, List.map_nil, List.singleton_append, hsome _ rfl]
      exact ⟨hfound, rfl⟩

/-- The fragments of a function after its name. -/
def tailFragments (f : FuncSyntax) : List Fragment :=
  ParamSyntax.paramFragments f.params ++
    (ParamSyntax.resultFragments f.results ++ Stmt.bodyFragments f.body)

/-- What a function's parts stand for. -/
lemma function_fragments (h : f.Proper) :
    Fragment.function {} {} ((simdWord f.isSimd).map Word.fragment ++
      (Word.name f.kind.name).fragment :: (f.nameFragment ++ f.tailFragments)) =
        ([], .member (.func f.unplaced)) := by
  have hkind : (Word.name f.kind.name).fragment.isWord "simd" = false :=
    beq_false_of_ne fun he => f.kind.name_ne_simd (Option.some.inj he)
  have hopen : (⟨.punct, "(", {}⟩ : Token).text = "(" := rfl
  obtain ⟨hname, hrest⟩ := functionName_eq h hopen (f.tailFragments.drop 1)
  have htail : .token ⟨.punct, "(", {}⟩ :: f.tailFragments.drop 1 = f.tailFragments := rfl
  rw [htail] at hname hrest
  have hsignature : Fragment.signature f.tailFragments = _ := ParamSyntax.signature_eq
    (Stmt.isWord_bodyFragments (by decide) (by decide)) (Fragment.params_bodyFragments f.body)
  have hstmts : Fragment.stmts f.tailFragments = f.body.map Stmt.unplaced := by
    simp [tailFragments]
  have hfound : (FuncKind.ofName? (Word.name f.kind.name).text).getD .create = f.kind := by
    cases f.kind <;> rfl
  rw [Fragment.function_eq (flag_simd f.isSimd hkind _), hfound, hname, hrest, hsignature, hstmts]
  rfl

/-- **Member functions are read.** -/
lemma reads (h : f.Proper) (rest : List Word) :
    Reads 4 (.rule .functionDefinition) f.words rest [.member (.func f.unplaced)] := by
  have hbraces : ReadsAll 100 (braced .statement ++ [])
      (inBraces (Stmt.wordsAll f.body) ++ []) rest (Stmt.bodyFragments f.body ++ []) :=
    (Stmt.readsAll h.2.2.2).readsAll (by omega) .nil
  rw [List.append_nil, List.append_nil, List.append_nil] at hbraces
  have hhead := ParamSyntax.readsAll_signature h.2.1 h.2.2.1 (by decide) hbraces
  have hname : ReadsAll 100 _ _ rest (f.nameFragment ++ f.tailFragments) :=
    .next (reads_name h) (by omega) hhead
  have hkinds : f.kind.name ∈ ["create", "assign", "reader", "writer", "routine", "operator"] := by
    cases f.kind <;> decide
  have hkind : ReadsAll 2 (oneOf _ :: _) (Word.name f.kind.name :: _) rest
      ((Word.name f.kind.name).fragment :: (f.nameFragment ++ f.tailFragments)) :=
    .cons (reads_oneOf f.kind.isToken hkinds) (List.cons_ne_nil _ _) le_rfl hname
  have hbody : Reads 3 Rule.functionDefinition.body f.words rest _ :=
    (readsAll_simd f.isSimd f.kind.name_ne_simd hkind).seq
  exact hbody.rule (function_fragments h)

end FuncSyntax

namespace MemberSyntax

/-- Member variables are read. -/
lemma reads_var {v : VarSyntax} (hname : IsName v.name) (htype : v.type.Proper) (rest : List Word) :
    Reads 3 (.rule .fieldDefinition) (words (.var v)) rest
      [.member (.var ⟨{}, v.name, v.type.unplaced⟩)] := by
  have hcolon : (punct ":").IsToken := by decide
  have hsemicolon : (punct ";").IsToken := by decide
  have hend : ReadsAll 100 [.optional (.literal ";")] [punct ";"] rest [(punct ";").fragment] :=
    .last (reads_literal hsemicolon rfl).optional (by omega)
  have hcolonType : ReadsAll 100 [.literal ":", .rule .type, .optional (.literal ";")]
      (punct ":" :: (v.type.words ++ [punct ";"])) rest
      ((punct ":").fragment :: .type v.type.unplaced :: [(punct ";").fragment]) :=
    .literal hcolon rfl (by omega) (.next (TypeExpr.reads htype) (by omega) hend)
  have hvar : ReadsAll 1 (.literal "var" :: .token .ident :: _)
    (name "var" :: name v.name :: _) rest
      ((name "var").fragment :: (name v.name).fragment :: _) :=
    .literal (by decide) rfl le_rfl (.token hname.1 rfl (by omega) hcolonType)
  have hbody : Reads 2 Rule.fieldDefinition.body (words (.var v)) rest _ := hvar.seq
  exact hbody.rule rfl

/-- Member functions start with `simd` or their kinds. -/
lemma exists_first_func (f : FuncSyntax) : ∃ w ws, f.words = w :: ws ∧
    (Grammar.rule .fieldDefinition).avoids w := by
  unfold FuncSyntax.words simdWord
  split
  · exact ⟨_, _, rfl, by decide⟩
  · exact ⟨_, _, rfl, by cases f.kind <;> decide⟩

/-- **Members of classes are read.** -/
lemma reads {m : MemberSyntax} (h : m.Proper) (rest : List Word) :
    Reads 6 (.rule .classMember) m.words rest [.member m.unplaced] := by
  cases m with
  | var v => exact (((reads_var h.1 h.2 rest).choice 0 rfl rfl).rule rfl).mono (by omega)
  | func f =>
    obtain ⟨w, ws, hw, hfirst⟩ := exists_first_func f
    have hfunc := FuncSyntax.reads h rest
    rw [hw] at hfunc
    have hbody : Reads 5 Rule.classMember.body (w :: ws) rest _ :=
      hfunc.choice 1 rfl (avoidsAll_iff.2 (List.forall_mem_singleton.2 hfirst))
    rw [words, hw]
    exact hbody.rule rfl

/-- A member has words. -/
lemma words_ne_nil (m : MemberSyntax) : m.words ≠ [] := by
  cases m with
  | var => exact List.cons_ne_nil _ _
  | func f =>
    obtain ⟨w, ws, hw, -⟩ := exists_first_func f
    rw [words, hw]
    exact List.cons_ne_nil _ _

end MemberSyntax

/-! ## Classes and foreign functions -/

/-- Items that are read before any words are read one after the other. -/
lemma repeats_items {i : Nat} {e : Grammar} {rest : List Word} :
    ∀ {items : List (List Word × Fragment)}, (∀ q ∈ items, q.1 ≠ []) →
      (∀ q ∈ items, ∀ more, Reads i e q.1 more [q.2]) →
      Repeats i e (items.flatMap Prod.fst) rest (items.map Prod.snd)
  | [], _, _ => .nil
  | _ :: _, hne, h => by
    obtain ⟨hne, hnes⟩ := List.forall_mem_cons.1 hne
    obtain ⟨hfirst, h⟩ := List.forall_mem_cons.1 h
    exact .cons (hfirst _) hne (repeats_items hnes h)

namespace ClassSyntax

variable {c : ClassSyntax} {rest : List Word}

/-- The items of a class. -/
def memberItems (ms : List MemberSyntax) : List (List Word × Fragment) :=
  ms.map fun m => (m.words, .member m.unplaced)

/-- The members of a class are read one after the other. -/
lemma repeats_members (h : ∀ m ∈ c.members, m.Proper) : Repeats 6 (.rule .classMember)
    (c.members.flatMap MemberSyntax.words) rest (c.members.map fun m => .member m.unplaced) := by
  have hall : Repeats 6 (.rule .classMember) ((memberItems c.members).flatMap Prod.fst) rest
      ((memberItems c.members).map Prod.snd) := by
    refine repeats_items (fun q hq => ?_) fun q hq more => ?_
    · obtain ⟨m, -, rfl⟩ := List.mem_map.1 hq
      exact m.words_ne_nil
    · obtain ⟨m, hm, rfl⟩ := List.mem_map.1 hq
      exact MemberSyntax.reads (h m hm) more
  simpa [memberItems, List.flatMap_map, Function.comp_def] using hall

/-- The members of a class among its fragments. -/
lemma filterMap_members {g : Fragment → Option MemberSyntax} (hm : ∀ m, g (.member m) = some m)
    (hw : ∀ w : Word, g w.fragment = none) (ms : List MemberSyntax) :
    ((punct "\x7b").fragment :: (ms.map fun m => .member m.unplaced) ++
      [(punct "\x7d").fragment]).filterMap g = ms.map MemberSyntax.unplaced := by
  have hms : (ms.map fun m => Fragment.member m.unplaced).filterMap g =
      ms.map MemberSyntax.unplaced := by
    rw [List.filterMap_map, ← List.filterMap_eq_map]
    exact congrArg (List.filterMap · ms) (funext fun m => hm _)
  rw [List.cons_append, List.filterMap_cons_none (hw _), List.filterMap_append, hms,
    List.filterMap_cons_none (hw _)]
  exact List.append_nil _

/-- **Classes are read.** -/
lemma reads (h : c.Proper) (rest : List Word) :
    Reads 4 (.rule .classDefinition) c.words rest [.cls c.unplaced] := by
  have hbraces : ReadsAll 100 (braced .classMember ++ [])
      (inBraces (c.members.flatMap MemberSyntax.words) ++ []) rest _ :=
    .braced (repeats_members h.2) (by decide) (by omega) (by omega) .nil
  rw [List.append_nil, List.append_nil] at hbraces
  have hclass : ReadsAll 2 (.literal "class" :: .token .ident :: _)
      (Word.name "class" :: Word.name c.name :: _) rest
      ((Word.name "class").fragment :: (Word.name c.name).fragment :: _) :=
    .literal (by decide) rfl (by omega) (.token h.1.1 rfl (by omega) hbraces)
  have hbody : Reads 3 Rule.classDefinition.body c.words rest _ :=
    (readsAll_simd c.isSimd (by decide) hclass).seq
  refine hbody.rule ?_
  dsimp only [Fragment.ofRule]
  have hclass : (Word.name "class").fragment.isWord "simd" = false := rfl
  rw [flag_simd c.isSimd hclass]
  exact congrArg (fun ms => (([] : List Diagnostic), Fragment.cls ⟨{}, c.name, c.isSimd, ms⟩))
    (filterMap_members (fun _ => rfl) (fun _ => rfl) c.members)

end ClassSyntax

namespace ForeignSyntax

/-- **Foreign functions are read.** -/
lemma reads {f : ForeignSyntax} (h : f.Proper) (rest : List Word) :
    Reads 3 (.rule .externDefinition) f.words rest [.foreign f.unplaced] := by
  have hend : ReadsAll 100 [.literal ";"] [punct ";"] rest [(punct ";").fragment] :=
    .literal (by decide) rfl (by omega) .nil
  have hhead := ParamSyntax.readsAll_signature h.2.1 h.2.2 (by decide) hend
  have hextern : ReadsAll 1 (.literal "extern" :: .token .ident :: _)
      (Word.name "extern" :: Word.name f.name :: _) rest
      ((Word.name "extern").fragment :: (Word.name f.name).fragment :: _) :=
    .literal (by decide) rfl le_rfl (.token h.1.1 rfl (by omega) hhead)
  have hbody : Reads 2 Rule.externDefinition.body f.words rest _ := hextern.seq
  refine hbody.rule ?_
  have hsignature : Fragment.signature (ParamSyntax.paramFragments f.params ++
      (ParamSyntax.resultFragments f.results ++ [(punct ";").fragment])) = _ :=
    ParamSyntax.signature_eq (List.forall_mem_singleton.2 rfl) rfl
  exact congrArg (fun q => (([] : List Diagnostic), Fragment.foreign ⟨{}, f.name, q.1, q.2⟩))
    hsignature

end ForeignSyntax

end Lane
