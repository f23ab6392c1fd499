import Lane.Proofs.Syntax.Words

set_option relaxedAutoImplicit false
set_option autoImplicit false

/-!
# Programs as words

Syntax is written as words with spaces between them. Operators are left associative on the levels of
the grammar, and parentheses stand only where these levels require them.

## Main definitions

* `Lane.IsName`: identifiers that mean nothing else to the grammar.
* `Lane.Expr.words`, `Lane.Stmt.words`, and similarly for all other syntax: the words of syntax.
* `Lane.ProgramSyntax.text`: the text of a program.
* `Lane.ProgramSyntax.Proper`: programs of names and literals that can be written.
-/

namespace Lane

/-! ## Names -/

namespace Grammar

mutual

/-- The literals of an expression. -/
def literals : Grammar → List String
  | .literal s => [s]
  | .token _ | .rule _ => []
  | .seq es | .alt es => literalsOf es
  | .optional e | .many e | .ahead e => e.literals

/-- The literals of several expressions. -/
def literalsOf : List Grammar → List String
  | [] => []
  | e :: es => e.literals ++ literalsOf es

end

end Grammar

/-- The texts that the grammar gives a meaning. -/
def Rule.keywords : List String := reachable.flatMap fun r => r.body.literals

namespace Grammar.Word

/-- An identifier or keyword. -/
def name (s : String) : Word := ⟨.ident, s⟩

/-- An operator. -/
def op (s : String) : Word := ⟨.op, s⟩

/-- A punctuation mark. -/
def punct (s : String) : Word := ⟨.punct, s⟩

/-- Items after the first, each with a comma before it. -/
def afterCommas : List (List Word) → List Word
  | [] => []
  | ws :: rest => punct "," :: ws ++ afterCommas rest

/-- Items with commas between them. -/
def separated : List (List Word) → List Word
  | [] => []
  | ws :: rest => ws ++ afterCommas rest

/-- Words in parentheses. -/
def inParens (ws : List Word) : List Word := punct "(" :: ws ++ [punct ")"]

/-- Words in braces. -/
def inBraces (ws : List Word) : List Word := punct "\x7b" :: ws ++ [punct "\x7d"]

/-- The words of an expression of level `m` where the grammar has one of level `l`. -/
def atLevel (l m : Nat) (ws : List Word) : List Word := if m < l then inParens ws else ws

end Grammar.Word

/-- **Names**: identifiers that are no keywords. -/
def IsName (s : String) : Prop := (Grammar.Word.name s).IsToken ∧ s ∉ Rule.keywords

/-- Whether a text is a name is computed. -/
instance (s : String) : Decidable (IsName s) := inferInstanceAs (Decidable (_ ∧ _))

open Grammar Grammar.Word

/-! ## Types -/

namespace TypeExpr

/-- The words of a type. -/
def words : TypeExpr → List Word
  | .name _ n => [.name n]
  | .container _ k t => .name k.name :: inBraces t.words

/-- Types of names. -/
def Proper : TypeExpr → Prop
  | .name _ n => IsName n
  | .container _ _ t => t.Proper

end TypeExpr

/-! ## Expressions -/

namespace Literal

/-- The word of a literal. -/
def spelling (l : Literal) : Word :=
  ⟨match l.value with
    | .bool _ => .ident
    | .int _ => .int
    | .real _ => .real, l.text⟩

/-- **Literals that can be written**: the text is one token, which stands for the literal with
nothing wrong. -/
def Proper (l : Literal) : Prop :=
  l.spelling.IsToken ∧ Fragment.word {} ⟨l.spelling.cls, l.text, {}⟩ = ([], .expr (.literal {} l))

end Literal

/-- The word of an operator with one operand. -/
def UnaryOp.word : UnaryOp → Word
  | .neg => .op "-"
  | .not => .name "not"

namespace BinaryOp

/-- The word of an operator. -/
def word : BinaryOp → Word
  | .or => .name "or"
  | .xor => .name "xor"
  | .and => .name "and"
  | o => .op o.symbol

/-- **The level of an operator**: those of higher levels bind tighter. -/
def level : BinaryOp → Nat
  | .or | .xor => 0
  | .and => 1
  | .eq | .ne | .le | .ge | .lt | .gt => 2
  | .add | .sub => 3
  | .mul | .div | .mod => 4

end BinaryOp

namespace Expr

/-- The level of an expression. -/
def level : Expr → Nat
  | .binary _ o _ _ => o.level
  | .unary .. => 5
  | _ => 6

mutual

/-- **The words of an expression**, with parentheses only where the levels require them. -/
def words : Expr → List Word
  | .ident _ n => [.name n]
  | .self _ => [.name "self"]
  | .literal _ l => [l.spelling]
  | .unary _ o x => o.word :: atLevel 5 x.level x.words
  | .binary _ o x y =>
    atLevel o.level x.level x.words ++ o.word :: atLevel (o.level + 1) y.level y.words
  | .member _ x n => atLevel 6 x.level x.words ++ [.punct ".", .name n]
  | .index _ x i => atLevel 6 x.level x.words ++ .punct "[" :: i.words ++ [.punct "]"]
  | .deref _ x => atLevel 6 x.level x.words ++ [.op "^"]
  | .method _ x n args =>
    atLevel 6 x.level x.words ++ .punct "." :: .name n :: inParens (separated (wordsAll args))
  | .routine _ none n args => .name n :: inParens (separated (wordsAll args))
  | .routine _ (some c) n args =>
    .name c :: .op "::" :: .name n :: inParens (separated (wordsAll args))
  | .ccall _ n args => .name "c_call" :: .name n :: inParens (separated (wordsAll args))

/-- The words of several expressions. -/
def wordsAll : List Expr → List (List Word)
  | [] => []
  | x :: xs => x.words :: wordsAll xs

end

mutual

/-- Expressions of names and literals that can be written. -/
def Proper : Expr → Prop
  | .ident _ n => IsName n
  | .self _ => True
  | .literal _ l => l.Proper
  | .unary _ _ x | .deref _ x => x.Proper
  | .binary _ _ x y | .index _ x y => x.Proper ∧ y.Proper
  | .member _ x n => x.Proper ∧ IsName n
  | .method _ x n args => x.Proper ∧ IsName n ∧ ProperAll args
  | .routine _ c n args => (∀ d ∈ c, IsName d) ∧ IsName n ∧ ProperAll args
  | .ccall _ n args => IsName n ∧ ProperAll args

/-- Several expressions of names and literals that can be written. -/
def ProperAll : List Expr → Prop
  | [] => True
  | x :: xs => x.Proper ∧ ProperAll xs

end

/-- The words of expressions, one by one. -/
@[simp] lemma wordsAll_eq : ∀ xs : List Expr, wordsAll xs = xs.map words
  | [] => rfl
  | _ :: xs => congrArg _ (wordsAll_eq xs)

end Expr

/-! ## Statements -/

namespace Target

/-- The words of a target. -/
def words : Target → List Word
  | .decl d => .name (if d.isConst then "const" else "var") :: .name d.name ::
      .punct ":" :: d.type.words
  | .expr x => x.words

/-- Targets of names and literals that can be written. -/
def Proper : Target → Prop
  | .decl d => IsName d.name ∧ d.type.Proper
  | .expr x => x.Proper

end Target

namespace Stmt

/-- The words of the values of an assignment. -/
def valueWords (vs : List Expr) : List Word :=
  if vs.isEmpty then [] else .op "=" :: separated (vs.map Expr.words)

mutual

/-- The words of a statement. -/
def words : Stmt → List Word
  | .assign _ ts vs => separated (ts.map Target.words) ++ (valueWords vs ++ [.punct ";"])
  | .ifThen _ x body => .name "if" :: x.words ++ inBraces (wordsAll body)
  | .ifElse _ x body other =>
    .name "if" :: x.words ++ (inBraces (wordsAll body) ++ .name "else" :: inBraces (wordsAll other))
  | .whileLoop _ x body => .name "while" :: x.words ++ inBraces (wordsAll body)
  | .repeatUntil _ body x =>
    .name "repeat" :: inBraces (wordsAll body) ++ .name "until" :: x.words ++ [.punct ";"]
  | .block _ body => inBraces (wordsAll body)
  | .ret _ => [.name "return", .punct ";"]
  | .brk _ => [.name "break", .punct ";"]
  | .cont _ => [.name "continue", .punct ";"]

/-- The words of several statements. -/
def wordsAll : List Stmt → List Word
  | [] => []
  | s :: ss => s.words ++ wordsAll ss

end

mutual

/-- **Statements that can be written**: every assignment has a target. -/
def Proper : Stmt → Prop
  | .assign _ ts vs => ts ≠ [] ∧ (∀ t ∈ ts, t.Proper) ∧ ∀ v ∈ vs, v.Proper
  | .ifThen _ x body | .whileLoop _ x body | .repeatUntil _ body x => x.Proper ∧ ProperAll body
  | .ifElse _ x body other => x.Proper ∧ ProperAll body ∧ ProperAll other
  | .block _ body => ProperAll body
  | .ret _ | .brk _ | .cont _ => True

/-- Several statements that can be written. -/
def ProperAll : List Stmt → Prop
  | [] => True
  | s :: ss => s.Proper ∧ ProperAll ss

end

end Stmt

/-! ## Declarations -/

namespace ParamSyntax

/-- The words of a parameter. -/
def words (p : ParamSyntax) : List Word :=
  .name p.name :: .punct ":" ::
    ((if p.qualifier = .none then [] else [.name p.qualifier.word]) ++ p.type.words)

/-- Parameters of names. -/
def Proper (p : ParamSyntax) : Prop := IsName p.name ∧ p.type.Proper

/-- The words of parameters and results. -/
def signatureWords (params results : List ParamSyntax) : List Word :=
  inParens (separated (params.map words)) ++
    if results.isEmpty then [] else .op "->" :: inParens (separated (results.map words))

end ParamSyntax

/-- Whether functions of a kind have no names of their own. -/
def FuncKind.isNameless (k : FuncKind) : Bool := k == .create || k == .assign

/-- The word that starts the declaration of a `simd` class or function. -/
def simdWord (isSimd : Bool) : List Word := if isSimd then [.name "simd"] else []

namespace FuncSyntax

/-- The name of a function as it is written: an operator or an identifier, or nothing for
constructors and assignments. -/
def nameWord (f : FuncSyntax) : List Word :=
  if f.kind.isNameless then []
  else if (Word.op f.name).IsToken then [.op f.name] else [.name f.name]

/-- The words of a member function. -/
def words (f : FuncSyntax) : List Word :=
  simdWord f.isSimd ++ .name f.kind.name :: (f.nameWord ++
    (ParamSyntax.signatureWords f.params f.results ++ inBraces (Stmt.wordsAll f.body)))

/-- **Member functions that can be written**: constructors and assignments are called by their
kinds, other functions have a name or an operator of their own. -/
def Proper (f : FuncSyntax) : Prop :=
  (if f.kind.isNameless then f.name = f.kind.name
    else IsName f.name ∨ (Word.op f.name).IsToken) ∧
  (∀ p ∈ f.params, p.Proper) ∧ (∀ p ∈ f.results, p.Proper) ∧ Stmt.ProperAll f.body

end FuncSyntax

namespace MemberSyntax

/-- The words of a member of a class. -/
def words : MemberSyntax → List Word
  | .var v => .name "var" :: .name v.name :: .punct ":" :: v.type.words ++ [.punct ";"]
  | .func f => f.words

/-- Members that can be written. -/
def Proper : MemberSyntax → Prop
  | .var v => IsName v.name ∧ v.type.Proper
  | .func f => f.Proper

end MemberSyntax

namespace ClassSyntax

/-- The words of a class. -/
def words (c : ClassSyntax) : List Word :=
  simdWord c.isSimd ++ .name "class" :: .name c.name ::
    inBraces (c.members.flatMap MemberSyntax.words)

/-- Classes that can be written. -/
def Proper (c : ClassSyntax) : Prop := IsName c.name ∧ ∀ m ∈ c.members, m.Proper

end ClassSyntax

namespace ForeignSyntax

/-- The words of the declaration of a foreign function. -/
def words (f : ForeignSyntax) : List Word :=
  .name "extern" :: .name f.name :: ParamSyntax.signatureWords f.params f.results ++ [.punct ";"]

/-- Declarations of foreign functions that can be written. -/
def Proper (f : ForeignSyntax) : Prop :=
  IsName f.name ∧ (∀ p ∈ f.params, p.Proper) ∧ ∀ p ∈ f.results, p.Proper

end ForeignSyntax

namespace ProgramSyntax

/-- The words of a program. -/
def words (p : ProgramSyntax) : List Word :=
  p.classes.flatMap ClassSyntax.words ++ p.foreigns.flatMap ForeignSyntax.words

/-- **The text of a program**: its words with spaces between them. -/
def text (p : ProgramSyntax) : String := spaced p.words

/-- **Programs that can be written.** -/
def Proper (p : ProgramSyntax) : Prop :=
  (∀ c ∈ p.classes, c.Proper) ∧ ∀ f ∈ p.foreigns, f.Proper

end ProgramSyntax

end Lane
