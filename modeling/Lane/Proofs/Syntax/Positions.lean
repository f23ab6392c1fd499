import Lane.Syntax.Build
import Mathlib.Logic.Basic
import Mathlib.Tactic.Lemma

set_option relaxedAutoImplicit false
set_option autoImplicit false

/-!
# Syntax without positions

What a tree stands for depends on the places of its tokens in one way only: the places in the syntax
are places in the tree. Without them, the syntax is that of a tree without places.

## Main definitions

* `Lane.ProgramSyntax.unplaced`, and similarly for all other syntax: the same without places.
* `Lane.Fragment.IgnoresPlaces`: the action of a rule makes the same of fragments without places.

## Main results

* `Lane.Fragment.ofRule_unplaced`: the action of a rule does not look at places.
-/

namespace Lane

/-! ## Syntax -/

/-- A token without its place. -/
def Token.unplaced (t : Token) : Token := ⟨t.cls, t.text, {}⟩

/-- A diagnostic without its place. -/
def Diagnostic.unplaced (d : Diagnostic) : Diagnostic := { d with pos := {} }

/-- A type without its places. -/
def TypeExpr.unplaced : TypeExpr → TypeExpr
  | .name _ n => .name {} n
  | .container _ k t => .container {} k t.unplaced

namespace Expr

mutual

/-- An expression without its places. -/
def unplaced : Expr → Expr
  | .ident _ n => .ident {} n
  | .self _ => .self {}
  | .literal _ l => .literal {} l
  | .unary _ o x => .unary {} o x.unplaced
  | .binary _ o x y => .binary {} o x.unplaced y.unplaced
  | .member _ x n => .member {} x.unplaced n
  | .index _ x i => .index {} x.unplaced i.unplaced
  | .deref _ x => .deref {} x.unplaced
  | .method _ x n args => .method {} x.unplaced n (unplacedAll args)
  | .routine _ c n args => .routine {} c n (unplacedAll args)
  | .ccall _ n args => .ccall {} n (unplacedAll args)

/-- Expressions without their places. -/
def unplacedAll : List Expr → List Expr
  | [] => []
  | x :: xs => x.unplaced :: unplacedAll xs

end

/-- Positions of expressions are forgotten one by one. -/
@[simp] lemma unplacedAll_eq : ∀ xs : List Expr, unplacedAll xs = xs.map unplaced
  | [] => rfl
  | _ :: xs => congrArg _ (unplacedAll_eq xs)

end Expr

/-- A declaration without its places. -/
def DeclSyntax.unplaced (d : DeclSyntax) : DeclSyntax := ⟨{}, d.name, d.isConst, d.type.unplaced⟩

/-- A target without its places. -/
def Target.unplaced : Target → Target
  | .decl d => .decl d.unplaced
  | .expr x => .expr x.unplaced

namespace Stmt

mutual

/-- A statement without its places. -/
def unplaced : Stmt → Stmt
  | .assign _ ts vs => .assign {} (ts.map Target.unplaced) (vs.map Expr.unplaced)
  | .ifThen _ x body => .ifThen {} x.unplaced (unplacedAll body)
  | .ifElse _ x body other => .ifElse {} x.unplaced (unplacedAll body) (unplacedAll other)
  | .whileLoop _ x body => .whileLoop {} x.unplaced (unplacedAll body)
  | .repeatUntil _ body x => .repeatUntil {} (unplacedAll body) x.unplaced
  | .block _ body => .block {} (unplacedAll body)
  | .ret _ => .ret {}
  | .brk _ => .brk {}
  | .cont _ => .cont {}

/-- Statements without their places. -/
def unplacedAll : List Stmt → List Stmt
  | [] => []
  | s :: ss => s.unplaced :: unplacedAll ss

end

/-- Positions of statements are forgotten one by one. -/
@[simp] lemma unplacedAll_eq : ∀ ss : List Stmt, unplacedAll ss = ss.map unplaced
  | [] => rfl
  | _ :: ss => congrArg _ (unplacedAll_eq ss)

end Stmt

/-- A parameter without its places. -/
def ParamSyntax.unplaced (p : ParamSyntax) : ParamSyntax :=
  ⟨{}, p.name, p.qualifier, p.type.unplaced⟩

/-- A member function without its places. -/
def FuncSyntax.unplaced (f : FuncSyntax) : FuncSyntax :=
  ⟨{}, {}, f.kind, f.name, f.isSimd, f.params.map ParamSyntax.unplaced,
    f.results.map ParamSyntax.unplaced, f.body.map Stmt.unplaced⟩

/-- A member of a class without its places. -/
def MemberSyntax.unplaced : MemberSyntax → MemberSyntax
  | .var v => .var ⟨{}, v.name, v.type.unplaced⟩
  | .func f => .func f.unplaced

/-- A class without its places. -/
def ClassSyntax.unplaced (c : ClassSyntax) : ClassSyntax :=
  ⟨{}, c.name, c.isSimd, c.members.map MemberSyntax.unplaced⟩

/-- The declaration of a foreign function without its places. -/
def ForeignSyntax.unplaced (f : ForeignSyntax) : ForeignSyntax :=
  ⟨{}, f.name, f.params.map ParamSyntax.unplaced, f.results.map ParamSyntax.unplaced⟩

/-- **A program without its places.** -/
def ProgramSyntax.unplaced (p : ProgramSyntax) : ProgramSyntax :=
  ⟨p.classes.map ClassSyntax.unplaced, p.foreigns.map ForeignSyntax.unplaced⟩

/-! ## Fragments -/

/-- A selector without its places. -/
def Selector.unplaced : Selector → Selector
  | .member n => .member n
  | .call n args => .call n (args.map Expr.unplaced)
  | .index i => .index i.unplaced
  | .deref => .deref

namespace Fragment

/-- A fragment without its places. -/
def unplaced : Fragment → Fragment
  | .token t => .token t.unplaced
  | .type t => .type t.unplaced
  | .param p => .param p.unplaced
  | .expr x => .expr x.unplaced
  | .operand _ o y => .operand {} o y.unplaced
  | .selector s => .selector s.unplaced
  | .suffix _ s => .suffix {} s.unplaced
  | .target t => .target t.unplaced
  | .stmt s => .stmt s.unplaced
  | .member m => .member m.unplaced
  | .cls c => .cls c.unplaced
  | .foreign f => .foreign f.unplaced
  | .program p => .program p.unplaced
  | .invalid => .invalid

/-- What an action makes, without places. -/
def bare (q : List Diagnostic × Fragment) : List Diagnostic × Fragment :=
  (q.1.map Diagnostic.unplaced, q.2.unplaced)

variable {fs : List Fragment} {pos endPos : Position}

/-- A position does not make a word. -/
@[simp] lemma isWord_unplaced (w : String) (f : Fragment) : f.unplaced.isWord w = f.isWord w := by
  cases f <;> rfl

/-- Filters that ignore positions. -/
lemma filterMap_unplaced {α : Type} {g : Fragment → Option α} {h : α → α}
    (hg : ∀ f, g f.unplaced = (g f).map h) (fs : List Fragment) :
    (fs.map unplaced).filterMap g = (fs.filterMap g).map h := by
  rw [List.filterMap_map, List.map_filterMap]
  exact congrArg (List.filterMap · fs) (funext hg)

/-- The expressions among fragments. -/
@[simp] lemma exprs_unplaced : exprs (fs.map unplaced) = (exprs fs).map Expr.unplaced :=
  filterMap_unplaced (fun f => by cases f <;> rfl) fs

/-- The statements among fragments. -/
@[simp] lemma stmts_unplaced : stmts (fs.map unplaced) = (stmts fs).map Stmt.unplaced :=
  filterMap_unplaced (fun f => by cases f <;> rfl) fs

/-- The statements among fragments, as a list of a block. -/
lemma stmts_unplacedAll : stmts (fs.map unplaced) = Stmt.unplacedAll (stmts fs) := by simp

/-- The parameters among fragments. -/
@[simp] lemma params_unplaced : params (fs.map unplaced) = (params fs).map ParamSyntax.unplaced :=
  filterMap_unplaced (fun f => by cases f <;> rfl) fs

/-- The targets among fragments. -/
@[simp] lemma targets_unplaced : targets (fs.map unplaced) = (targets fs).map Target.unplaced :=
  filterMap_unplaced (fun f => by cases f <;> rfl) fs

/-- The fragments before a word. -/
lemma before_unplaced (w : String) : ((fs.map unplaced).takeWhile fun f => !f.isWord w) =
    (fs.takeWhile fun f => !f.isWord w).map unplaced := by
  simp [List.takeWhile_map, Function.comp_def]

/-- The fragments after a word. -/
lemma after_unplaced (w : String) : ((fs.map unplaced).dropWhile fun f => !f.isWord w) =
    (fs.dropWhile fun f => !f.isWord w).map unplaced := by
  simp [List.dropWhile_map, Function.comp_def]

/-- The parameters and results of a signature. -/
lemma signature_unplaced : signature (fs.map unplaced) =
    ((signature fs).1.map ParamSyntax.unplaced, (signature fs).2.map ParamSyntax.unplaced) := by
  simp only [signature, before_unplaced, after_unplaced, params_unplaced]

/-- A flag that comes first. -/
lemma flag_unplaced (fs : List Fragment) (w : String) :
    flag w (fs.map unplaced) = ((flag w fs).1, (flag w fs).2.map unplaced) := by
  cases fs with
  | nil => rfl
  | cons f fs =>
    by_cases hf : f.isWord w
    · simp [flag, hf]
    · simp [flag, hf]

/-- Operators are applied to operands. -/
lemma applyOperands_unplaced : ∀ (fs : List Fragment) (x : Expr),
    applyOperands x.unplaced (fs.map unplaced) = (applyOperands x fs).unplaced
  | [], _ => rfl
  | f :: fs, x => by
    cases f with
    | operand pos o y => exact applyOperands_unplaced fs (.binary pos o x y)
    | _ => exact applyOperands_unplaced fs x

/-- A selector is applied. -/
lemma apply_unplaced (x : Expr) (s : Selector) :
    s.unplaced.apply {} x.unplaced = (s.apply pos x).unplaced := by
  cases s <;> simp [Selector.apply, Selector.unplaced, Expr.unplaced]

/-- Suffixes are applied. -/
lemma applySuffixes_unplaced : ∀ (fs : List Fragment) (x : Expr),
    applySuffixes x.unplaced (fs.map unplaced) = (applySuffixes x fs).unplaced
  | [], _ => rfl
  | f :: fs, x => by
    cases f with
    | suffix pos s =>
      have happly := applySuffixes_unplaced fs (s.apply pos x)
      rw [← apply_unplaced] at happly
      exact happly
    | _ => exact applySuffixes_unplaced fs x

/-- Integer literals. -/
lemma intLiteral_unplaced (pos : Position) (text : String) :
    ((intLiteral pos text).1.map Diagnostic.unplaced, (intLiteral pos text).2) =
      intLiteral {} text := by
  by_cases h : digitsValue (text.toList.takeWhile Char.isDigit) < UInt64.size
  · simp [intLiteral, h]
  · simp [intLiteral, h, Diagnostic.error, Diagnostic.unplaced]

/-- Real literals. -/
lemma realLiteral_unplaced (pos : Position) (text : String) :
    ((realLiteral pos text).1.map Diagnostic.unplaced, (realLiteral pos text).2) =
      realLiteral {} text := by
  refine Prod.ext ?_ rfl
  simp only [realLiteral, apply_ite (List.map Diagnostic.unplaced)]
  rfl

/-- Words that stand for expressions. -/
lemma word_unplaced (t : Token) : word {} t.unplaced = bare (word pos t) := by
  obtain ⟨c, text, p⟩ := t
  by_cases hbool : text == "true" || text == "false"
  · cases c <;> simp [word, Token.unplaced, ← realLiteral_unplaced pos,
      ← intLiteral_unplaced pos, bare, unplaced, Expr.unplaced, hbool]
  · by_cases hself : text == "self"
    · cases c <;> simp [word, Token.unplaced, ← realLiteral_unplaced pos,
        ← intLiteral_unplaced pos, bare, unplaced, Expr.unplaced, hbool, hself]
    · cases c <;> simp [word, Token.unplaced, ← realLiteral_unplaced pos,
        ← intLiteral_unplaced pos, bare, unplaced, Expr.unplaced, hbool, hself]

/-- Names of functions. -/
lemma functionName_unplaced (pos : Position) (kind : FuncKind) (name : Option String) :
    ((functionName pos kind name).1.map Diagnostic.unplaced, (functionName pos kind name).2) =
      functionName {} kind name := by
  cases kind <;> cases name <;> rfl

/-- The name of a function, and what follows it. -/
def nameOf : List Fragment → Option String × List Fragment
  | .token n :: rest => if n.text == "(" then (none, .token n :: rest) else (some n.text, rest)
  | fs => (none, fs)

/-- A name that comes first. -/
lemma nameOf_unplaced : nameOf (fs.map unplaced) = ((nameOf fs).1, (nameOf fs).2.map unplaced) := by
  cases fs with
  | nil => rfl
  | cons f fs =>
    cases f with
    | token n =>
      by_cases hn : n.text == "("
      · simp [nameOf, unplaced, Token.unplaced, hn]
      · simp [nameOf, unplaced, Token.unplaced, hn]
    | _ => rfl

/-- A member function, from its parts. -/
lemma function_eq {isSimd : Bool} {rest : List Fragment} {k : Token}
    (h : flag "simd" fs = (isSimd, .token k :: rest)) :
    function pos endPos fs =
      ((functionName pos ((FuncKind.ofName? k.text).getD .create) (nameOf rest).1).1,
        .member (.func ⟨pos, endPos, (FuncKind.ofName? k.text).getD .create,
          (functionName pos ((FuncKind.ofName? k.text).getD .create) (nameOf rest).1).2,
          isSimd, (signature (nameOf rest).2).1, (signature (nameOf rest).2).2,
          stmts (nameOf rest).2⟩)) := by
  simp only [function, h]
  obtain _ | ⟨f, rest⟩ := rest
  · rfl
  · cases f <;> rfl

/-- Definitions of functions. -/
lemma function_unplaced : function {} {} (fs.map unplaced) = bare (function pos endPos fs) := by
  have hflag := flag_unplaced fs "simd"
  cases heq : flag "simd" fs with
  | mk isSimd rest =>
    rw [heq] at hflag
    cases rest with
    | nil => simp only [function, hflag, heq]; rfl
    | cons f rest =>
      cases f with
      | token k =>
        rw [function_eq hflag, function_eq heq, nameOf_unplaced, signature_unplaced, stmts_unplaced]
        simp only [Token.unplaced, ← functionName_unplaced pos]
        rfl
      | _ => simp only [function, hflag, heq]; rfl

/-- Conditional statements. -/
lemma conditional_unplaced :
    conditional {} (fs.map unplaced) = (conditional pos fs).unplaced := by
  simp only [conditional, before_unplaced, after_unplaced, exprs_unplaced, stmts_unplaced]
  cases exprs (fs.takeWhile fun f => !f.isWord "else") with
  | nil => rfl
  | cons x xs =>
    cases stmts (fs.dropWhile fun f => !f.isWord "else") with
    | nil => simp [unplaced, Stmt.unplaced]
    | cons s ss => cases s <;> simp [unplaced, Stmt.unplaced]

/-- Calls with arguments. -/
lemma call_unplaced (g : List Expr → Expr) :
    (([] : List Diagnostic), Fragment.expr (g (exprs (fs.map unplaced)))) =
      ([], .expr (g (Expr.unplacedAll (exprs fs)))) := by
  rw [exprs_unplaced, Expr.unplacedAll_eq]

/-- **The action of a rule ignores places**: it makes the same of fragments without places, up to
the places in what it makes. -/
def IgnoresPlaces (r : Rule) : Prop :=
  ∀ (pos endPos : Position) (fs : List Fragment),
    ofRule r {} {} (fs.map unplaced) = bare (ofRule r pos endPos fs)

/-! ### Declarations -/

/-- Programs are read alike at any place. -/
lemma ignoresPlaces_program : IgnoresPlaces .program := fun _ _ fs =>
  congrArg (Prod.mk _) (congrArg₂ (fun cs gs => Fragment.program ⟨cs, gs⟩)
    (filterMap_unplaced (fun f => by cases f <;> rfl) fs)
    (filterMap_unplaced (fun f => by cases f <;> rfl) fs))

/-- Definitions of classes are read alike at any place. -/
lemma ignoresPlaces_classDefinition : IgnoresPlaces .classDefinition := by
  intro pos endPos fs
  dsimp only [ofRule]
  simp only [flag_unplaced]
  obtain ⟨b, _ | ⟨f, _ | ⟨g, rest⟩⟩⟩ := flag "simd" fs
  · rfl
  · rfl
  · cases g with
    | token name =>
      exact congrArg (fun ms => (([] : List Diagnostic), Fragment.cls ⟨{}, name.text, b, ms⟩))
        (filterMap_unplaced (fun f => by cases f <;> rfl) rest)
    | _ => rfl

/-- The rules that only choose among other rules are read alike at any place. -/
lemma ignoresPlaces_of_choice : ∀ r ∈ [Rule.topDecl, .classMember], IgnoresPlaces r := by
  simp only [List.mem_cons, List.not_mem_nil, or_false, forall_eq_or_imp, forall_eq]
  constructor <;> (rintro _ _ (_ | ⟨f, _ | ⟨g, fs⟩⟩) <;> rfl)

/-- Definitions of member variables are read alike at any place. -/
lemma ignoresPlaces_fieldDefinition : IgnoresPlaces .fieldDefinition := by
  rintro pos endPos (_ | ⟨f, _ | ⟨g, _ | ⟨h, _ | ⟨k, fs⟩⟩⟩⟩)
  · rfl
  · rfl
  · cases g <;> rfl
  · cases g <;> rfl
  · cases g with
    | token => cases k <;> rfl
    | _ => rfl

/-- Types are read alike at any place. -/
lemma ignoresPlaces_type : IgnoresPlaces .type := by
  rintro pos endPos (_ | ⟨f, _ | ⟨g, _ | ⟨h, _ | ⟨k, _ | ⟨l, fs⟩⟩⟩⟩⟩)
  · rfl
  · cases f <;> rfl
  · cases f <;> rfl
  all_goals
    cases f with
    | token => cases h <;> rfl
    | _ => rfl

/-- The qualifier and the type of a parameter are read from fragments without places. -/
lemma qualified_unplaced :
    qualified (fs.map unplaced) = (qualified fs).map fun q => (q.1, q.2.unplaced) := by
  obtain _ | ⟨f, _ | ⟨g, _ | ⟨h, fs⟩⟩⟩ := fs
  · rfl
  · cases f <;> rfl
  all_goals
    cases f with
    | token => cases g <;> rfl
    | _ => rfl

/-- Definitions of parameters are read alike at any place. -/
lemma ignoresPlaces_argumentDefinition : IgnoresPlaces .argumentDefinition := by
  rintro pos endPos (_ | ⟨f, _ | ⟨g, fs⟩⟩)
  · rfl
  · cases f <;> rfl
  · cases f with
    | token name =>
      dsimp only [ofRule]
      simp only [List.map_cons, unplaced, Token.unplaced, qualified_unplaced]
      cases qualified fs <;> rfl
    | _ => rfl

/-- Declarations of foreign functions are read alike at any place. -/
lemma ignoresPlaces_externDefinition : IgnoresPlaces .externDefinition := by
  rintro pos endPos (_ | ⟨f, _ | ⟨g, fs⟩⟩)
  · rfl
  · rfl
  · cases g with
    | token name =>
      exact congrArg (fun q =>
        (([] : List Diagnostic), Fragment.foreign ⟨{}, name.text, q.1, q.2⟩)) signature_unplaced
    | _ => rfl

/-! ### Statements -/

/-- Blocks are read alike at any place. -/
lemma ignoresPlaces_block : IgnoresPlaces .block := fun _ _ _ =>
  congrArg (fun ss => (([] : List Diagnostic), Fragment.stmt (.block {} ss))) stmts_unplacedAll

/-- Assignments are read alike at any place. -/
lemma ignoresPlaces_assignment : IgnoresPlaces .assignment := fun _ _ _ =>
  congrArg₂ (fun ts vs => (([] : List Diagnostic), Fragment.stmt (.assign {} ts vs)))
    targets_unplaced exprs_unplaced

/-- The rules of loops are read alike at any place. -/
lemma ignoresPlaces_of_loop : ∀ r ∈ [Rule.whileStatement, .repeatStatement], IgnoresPlaces r := by
  simp only [List.mem_cons, List.not_mem_nil, or_false, forall_eq_or_imp, forall_eq]
  constructor <;>
  · intro pos endPos fs
    dsimp only [ofRule]
    simp only [exprs_unplaced, stmts_unplaced]
    cases exprs fs with
    | nil => rfl
    | cons x xs => simp [bare, unplaced, Stmt.unplaced]

/-- Statements are read alike at any place. -/
lemma ignoresPlaces_statement : IgnoresPlaces .statement := by
  rintro pos endPos (_ | ⟨f, _ | ⟨g, fs⟩⟩)
  · rfl
  all_goals
    cases f with
    | token w =>
      dsimp only [ofRule]
      simp only [List.map_cons, unplaced, Token.unplaced]
      split
      · rfl
      · split <;> rfl
    | _ => rfl

/-- Targets are read alike at any place. -/
lemma ignoresPlaces_target : IgnoresPlaces .target := by
  rintro pos endPos (_ | ⟨f, _ | ⟨g, fs⟩⟩)
  · rfl
  · cases f <;> rfl
  · cases f <;> rfl

/-- Definitions of variables are read alike at any place. -/
lemma ignoresPlaces_variableDefinition : IgnoresPlaces .variableDefinition := by
  rintro pos endPos (_ | ⟨f, _ | ⟨g, _ | ⟨h, _ | ⟨k, _ | ⟨l, fs⟩⟩⟩⟩⟩)
  · rfl
  · cases f <;> rfl
  all_goals
    cases f with
    | token => cases g <;> first | rfl | (cases k <;> rfl)
    | _ => rfl

/-! ### Expressions -/

/-- The rules of expressions with binary operators are read alike at any place. -/
lemma ignoresPlaces_of_level :
    ∀ r ∈ [Rule.expression, .conjunction, .comparison, .sum, .term], IgnoresPlaces r := by
  simp only [List.mem_cons, List.not_mem_nil, or_false, forall_eq_or_imp, forall_eq]
  refine ⟨?_, ?_, ?_, ?_, ?_⟩ <;>
  · rintro pos endPos (_ | ⟨f, fs⟩)
    · rfl
    · cases f with
      | expr x =>
        exact congrArg (fun y => (([] : List Diagnostic), Fragment.expr y))
          (applyOperands_unplaced fs x)
      | _ => rfl

/-- Binary operators with their second operands are read alike at any place. -/
lemma ignoresPlaces_of_operand :
    ∀ r ∈ [Rule.opDisjunction, .opConjunction, .opComparison, .opSum, .opTerm],
      IgnoresPlaces r := by
  simp only [List.mem_cons, List.not_mem_nil, or_false, forall_eq_or_imp, forall_eq]
  refine ⟨?_, ?_, ?_, ?_, ?_⟩ <;>
  · rintro pos endPos (_ | ⟨f, _ | ⟨g, _ | ⟨h, fs⟩⟩⟩)
    · rfl
    · cases f <;> rfl
    · cases f with
      | token o =>
        cases g with
        | expr y =>
          dsimp only [ofRule]
          simp only [List.map_cons, List.map_nil, unplaced, Token.unplaced]
          cases BinaryOp.ofSymbol? o.text <;> rfl
        | _ => rfl
      | _ => rfl
    · cases f with
      | token => cases g <;> rfl
      | _ => rfl

/-- Unary operators are read alike at any place. -/
lemma ignoresPlaces_unary : IgnoresPlaces .unary := by
  rintro pos endPos (_ | ⟨f, _ | ⟨g, _ | ⟨h, fs⟩⟩⟩)
  · rfl
  · cases f <;> rfl
  all_goals
    cases f with
    | token => cases g <;> rfl
    | _ => rfl

/-- Postfix operators are read alike at any place. -/
lemma ignoresPlaces_postfixed : IgnoresPlaces .postfixed := by
  rintro pos endPos (_ | ⟨f, fs⟩)
  · rfl
  · cases f with
    | expr x =>
      exact congrArg (fun y => (([] : List Diagnostic), Fragment.expr y))
        (applySuffixes_unplaced fs x)
    | _ => rfl

/-- Suffixes of expressions are read alike at any place. -/
lemma ignoresPlaces_suffixed : IgnoresPlaces .suffixed := by
  rintro pos endPos (_ | ⟨f, _ | ⟨g, _ | ⟨h, _ | ⟨k, fs⟩⟩⟩⟩)
  · rfl
  · rfl
  all_goals cases g <;> rfl

/-- Members of expressions are read alike at any place. -/
lemma ignoresPlaces_memberSuffix : IgnoresPlaces .memberSuffix := by
  rintro pos endPos (_ | ⟨f, _ | ⟨g, fs⟩⟩)
  · rfl
  · cases f <;> rfl
  · cases f with
    | token name =>
      exact congrArg (fun xs => (([] : List Diagnostic), Fragment.selector (.call name.text xs)))
        exprs_unplaced
    | _ => rfl

/-- Factors are read alike at any place. -/
lemma ignoresPlaces_factor : IgnoresPlaces .factor := by
  rintro pos endPos (_ | ⟨f, _ | ⟨g, _ | ⟨h, _ | ⟨k, fs⟩⟩⟩⟩)
  · rfl
  · cases f with
    | token t => exact word_unplaced t
    | _ => rfl
  all_goals cases f <;> cases g <;> rfl

/-- Calls of foreign functions are read alike at any place. -/
lemma ignoresPlaces_ccall : IgnoresPlaces .ccall := by
  rintro pos endPos (_ | ⟨f, _ | ⟨g, fs⟩⟩)
  · rfl
  · rfl
  · cases g with
    | token name => exact call_unplaced fun xs => .ccall {} name.text xs
    | _ => rfl

/-- Calls of routines of a class are read alike at any place. -/
lemma ignoresPlaces_staticCall : IgnoresPlaces .staticCall := by
  rintro pos endPos (_ | ⟨f, _ | ⟨g, _ | ⟨h, fs⟩⟩⟩)
  · rfl
  · cases f <;> rfl
  · cases f <;> rfl
  · cases f with
    | token owner =>
      cases h with
      | token name => exact call_unplaced fun xs => .routine {} owner.text name.text xs
      | _ => rfl
    | _ => rfl

/-- Calls of functions are read alike at any place. -/
lemma ignoresPlaces_functionCall : IgnoresPlaces .functionCall := by
  rintro pos endPos (_ | ⟨f, fs⟩)
  · rfl
  · cases f with
    | token name => exact call_unplaced fun xs => .routine {} none name.text xs
    | _ => rfl

/-- **The action of a rule does not look at places.** -/
theorem ofRule_unplaced (r : Rule) (pos endPos : Position) (fs : List Fragment) :
    ofRule r {} {} (fs.map unplaced) = bare (ofRule r pos endPos fs) := by
  suffices h : IgnoresPlaces r from h pos endPos fs
  cases r
  case program => exact ignoresPlaces_program
  case topDecl | classMember => exact ignoresPlaces_of_choice _ (by decide)
  case classDefinition => exact ignoresPlaces_classDefinition
  case fieldDefinition => exact ignoresPlaces_fieldDefinition
  case type => exact ignoresPlaces_type
  case functionDefinition => exact fun _ _ _ => function_unplaced
  case argumentDefinition => exact ignoresPlaces_argumentDefinition
  case externDefinition => exact ignoresPlaces_externDefinition
  case block => exact ignoresPlaces_block
  case statement => exact ignoresPlaces_statement
  case assignment => exact ignoresPlaces_assignment
  case target => exact ignoresPlaces_target
  case variableDefinition => exact ignoresPlaces_variableDefinition
  case ifStatement => exact fun _ _ _ => Prod.ext rfl conditional_unplaced
  case whileStatement | repeatStatement => exact ignoresPlaces_of_loop _ (by decide)
  case expression | conjunction | comparison | sum | term =>
    exact ignoresPlaces_of_level _ (by decide)
  case opDisjunction | opConjunction | opComparison | opSum | opTerm =>
    exact ignoresPlaces_of_operand _ (by decide)
  case unary => exact ignoresPlaces_unary
  case postfixed => exact ignoresPlaces_postfixed
  case suffixed => exact ignoresPlaces_suffixed
  case memberSuffix => exact ignoresPlaces_memberSuffix
  case factor => exact ignoresPlaces_factor
  case ccall => exact ignoresPlaces_ccall
  case staticCall => exact ignoresPlaces_staticCall
  case functionCall => exact ignoresPlaces_functionCall

end Fragment

end Lane
