import Lane.Diagnostic
import Lane.Grammar.Match
import Lane.Syntax.Basic
import Lane.Token.Scan

set_option relaxedAutoImplicit false
set_option autoImplicit false

/-!
# From trees to syntax

Every rule of the grammar has an action that makes one fragment of syntax from the fragments of its
parts. Two things the grammar leaves open are checked here: which functions have names, and whether
literals are in range.

## Main definitions

* `Lane.Fragment`: what a tree stands for.
* `Lane.Fragment.ofRule`: the action of each rule.
* `Lane.Tree.interpret`: the fragment of a tree, with what was found wrong.
* `Lane.ProgramSyntax.parse`: the program of a source text.
-/

namespace Lane

/-- What is selected from a value by a suffix. -/
inductive Selector where
  | member (name : String)
  | call (name : String) (args : List Expr)
  | index (i : Expr)
  | deref
  deriving Repr, Inhabited

/-- The expression that applies a selector to a value. -/
def Selector.apply (pos : Position) (x : Expr) : Selector → Expr
  | .member n => .member pos x n
  | .call n args => .method pos x n args
  | .index i => .index pos x i
  | .deref => .deref pos x

/-- What a tree stands for. -/
inductive Fragment where
  | token (t : Token)
  | type (t : TypeExpr)
  | param (p : ParamSyntax)
  | expr (e : Expr)
  /-- An operator with its right operand. -/
  | operand (pos : Position) (op : BinaryOp) (y : Expr)
  | selector (s : Selector)
  | suffix (pos : Position) (s : Selector)
  | target (t : Target)
  | stmt (s : Stmt)
  | member (m : MemberSyntax)
  | cls (c : ClassSyntax)
  | foreign (f : ForeignSyntax)
  | program (p : ProgramSyntax)
  /-- Parts that the rule cannot have. -/
  | invalid
  deriving Repr, Inhabited

namespace Fragment

/-- The text of a token. -/
def text? : Fragment → Option String
  | .token t => some t.text
  | _ => none

/-- Whether the fragment is a token with this text. -/
def isWord (w : String) (f : Fragment) : Bool := f.text? == some w

/-- The expressions among fragments. -/
def exprs (fs : List Fragment) : List Expr :=
  fs.filterMap fun | .expr e => some e | _ => none

/-- The statements among fragments. -/
def stmts (fs : List Fragment) : List Stmt :=
  fs.filterMap fun | .stmt s => some s | _ => none

/-- The parameters among fragments. -/
def params (fs : List Fragment) : List ParamSyntax :=
  fs.filterMap fun | .param p => some p | _ => none

/-- The targets among fragments. -/
def targets (fs : List Fragment) : List Target :=
  fs.filterMap fun | .target t => some t | _ => none

/-- The parameters before and after the arrow of a function's head. -/
def signature (fs : List Fragment) : List ParamSyntax × List ParamSyntax :=
  (params (fs.takeWhile fun f => !f.isWord "->"), params (fs.dropWhile fun f => !f.isWord "->"))

/-- Take a word off the front, if it is there. -/
def flag (w : String) : List Fragment → Bool × List Fragment
  | f :: fs => if f.isWord w then (true, fs) else (false, f :: fs)
  | [] => (false, [])

/-! ## Literals -/

/-- The scalar type that a suffix of an integer literal selects. -/
def suffixType : String → String
  | "x" => "index"
  | "b" => "int8"
  | "s" => "int16"
  | "l" => "int64"
  | "u" => "uint"
  | "ub" => "uint8"
  | "us" => "uint16"
  | "ul" => "uint64"
  | _ => "int"

/-- Every suffix selects a type that integer literals can have. -/
theorem suffixType_mem (suffix : String) (n : UInt64) :
    suffixType suffix ∈ (LiteralValue.int n).typeNames := by
  unfold suffixType
  split <;> simp [LiteralValue.typeNames]

/-- An integer literal. A value beyond 64 bits is an error and stands for the largest. -/
def intLiteral (pos : Position) (text : String) : List Diagnostic × Literal :=
  let digits := text.toList.takeWhile Char.isDigit
  let suffix := String.ofList (text.toList.dropWhile Char.isDigit)
  let n := digitsValue digits
  if n < UInt64.size then
    ([], ⟨suffixType suffix, .int (UInt64.ofNat n), text, suffixType_mem ..⟩)
  else
    ([.error .malformed pos ("invalid integer literal '" ++ text ++ "'")],
      ⟨suffixType suffix, .int (UInt64.ofNat (UInt64.size - 1)), text, suffixType_mem ..⟩)

/-- A real literal. A value beyond the largest double is an error and stands for infinity. -/
def realLiteral (pos : Position) (text : String) : List Diagnostic × Literal :=
  let short := text.endsWith "r32"
  let digits := if short then text.toList.take (text.length - 3) else text.toList
  let x := match Decimal.ofDigits? digits with
    | some d => d.toBinary64 false
    | none => .zero
  (if x.isInfinite then
      [.error .malformed pos ("invalid real literal '" ++ text ++ "'")]
    else [],
    ⟨if short then "real32" else "real", .real x, text,
      by split <;> simp [LiteralValue.typeNames]⟩)

/-! ## Actions -/

/-- Apply operators with their right operands from left to right. -/
def applyOperands (x : Expr) (fs : List Fragment) : Expr :=
  fs.foldl (fun x f => match f with
    | .operand pos op y => .binary pos op x y
    | _ => x) x

/-- Apply suffixes from left to right. -/
def applySuffixes (x : Expr) (fs : List Fragment) : Expr :=
  fs.foldl (fun x f => match f with
    | .suffix pos s => s.apply pos x
    | _ => x) x

/-- A primary expression that is one token. -/
def word (pos : Position) (t : Token) : List Diagnostic × Fragment :=
  match t.cls with
  | .real => let (ds, l) := realLiteral pos t.text; (ds, .expr (.literal pos l))
  | .int => let (ds, l) := intLiteral pos t.text; (ds, .expr (.literal pos l))
  | _ =>
    if t.text == "true" || t.text == "false" then
      ([], .expr (.literal pos ⟨"bool", .bool (t.text == "true"), t.text, .head _⟩))
    else if t.text == "self" then ([], .expr (.self pos))
    else ([], .expr (.ident pos t.text))

/-- The name of a function: constructors and assignments have none of their own. -/
def functionName (pos : Position) (kind : FuncKind) (name : Option String) :
    List Diagnostic × String :=
  match kind, name with
  | .create, none | .assign, none => ([], kind.name)
  | .create, some n | .assign, some n =>
    ([.error .malformed pos (kind.name ++ " takes no name, found '" ++ n ++ "'")], kind.name)
  | _, none => ([.error .malformed pos (kind.name ++ " needs a name")], "")
  | _, some n => ([], n)

/-- A member function: an optional `simd`, the kind, an optional name, and the rest. -/
def function (pos endPos : Position) (fs : List Fragment) : List Diagnostic × Fragment :=
  let (isSimd, fs) := flag "simd" fs
  match fs with
  | .token k :: fs =>
    let kind := (FuncKind.ofName? k.text).getD .create
    let (name, fs) := match fs with
      | .token n :: rest => if n.text == "(" then (none, fs) else (some n.text, rest)
      | _ => (none, fs)
    let (ds, name) := functionName pos kind name
    let (params, results) := signature fs
    (ds, .member (.func ⟨pos, endPos, kind, name, isSimd, params, results, stmts fs⟩))
  | _ => ([], .invalid)

/-- An `if`: without `else`, with a block after it, or with another `if` after it. -/
def conditional (pos : Position) (fs : List Fragment) : Fragment :=
  let before := fs.takeWhile fun f => !f.isWord "else"
  let after := fs.dropWhile fun f => !f.isWord "else"
  match exprs before with
  | cond :: _ =>
    match stmts after with
    | [] => .stmt (.ifThen pos cond (stmts before))
    | .block _ body :: _ => .stmt (.ifElse pos cond (stmts before) body)
    | other => .stmt (.ifElse pos cond (stmts before) other)
  | [] => .invalid

/-- An optional qualifier and a type. -/
def qualified : List Fragment → Option (Qualifier × TypeExpr)
  | [.type t] => some (.none, t)
  | [.token q, .type t] => some (.ofWord q.text, t)
  | _ => none

/-- The container that a word names. -/
def container (w : String) : ContainerKind :=
  if w == "ptr" then .ptr else if w == "array" then .array else .simd

/-- What a rule makes of its parts, with what it finds wrong itself. -/
def ofRule (rule : Rule) (pos endPos : Position) (fs : List Fragment) :
    List Diagnostic × Fragment :=
  match rule, fs with
  | .program, fs =>
    ([], .program
      ⟨fs.filterMap fun | .cls c => some c | _ => none,
        fs.filterMap fun | .foreign f => some f | _ => none⟩)
  | .topDecl, [f] => ([], f)
  | .classDefinition, fs =>
    match flag "simd" fs with
    | (isSimd, _ :: .token name :: rest) =>
      ([], .cls ⟨pos, name.text, isSimd, rest.filterMap fun | .member m => some m | _ => none⟩)
    | _ => ([], .invalid)
  | .classMember, [f] => ([], f)
  | .fieldDefinition, _ :: .token name :: _ :: .type t :: _ =>
    ([], .member (.var ⟨pos, name.text, t⟩))
  | .type, [.token name] => ([], .type (.name pos name.text))
  | .type, [.token c, _, .type t, _] => ([], .type (.container pos (container c.text) t))
  | .functionDefinition, fs => function pos endPos fs
  | .argumentDefinition, .token name :: _ :: rest =>
    match qualified rest with
    | some (q, t) => ([], .param ⟨pos, name.text, q, t⟩)
    | none => ([], .invalid)
  | .statement, [.stmt s] => ([], .stmt s)
  | .statement, .token w :: _ =>
    ([], .stmt (if w.text == "return" then .ret pos
      else if w.text == "break" then .brk pos else .cont pos))
  | .ifStatement, fs => ([], conditional pos fs)
  | .whileStatement, fs =>
    match exprs fs with
    | cond :: _ => ([], .stmt (.whileLoop pos cond (stmts fs)))
    | [] => ([], .invalid)
  | .repeatStatement, fs =>
    match exprs fs with
    | cond :: _ => ([], .stmt (.repeatUntil pos (stmts fs) cond))
    | [] => ([], .invalid)
  | .block, fs => ([], .stmt (.block pos (stmts fs)))
  | .assignment, fs => ([], .stmt (.assign pos (targets fs) (exprs fs)))
  | .target, [.expr e] => ([], .target (.expr e))
  | .target, [f] => ([], f)
  | .variableDefinition, [.token kind, .token name, _, .type t] =>
    ([], .target (.decl ⟨pos, name.text, kind.text == "const", t⟩))
  | .expression, .expr x :: fs | .conjunction, .expr x :: fs | .comparison, .expr x :: fs
  | .sum, .expr x :: fs | .term, .expr x :: fs => ([], .expr (applyOperands x fs))
  | .opDisjunction, [.token o, .expr y] | .opConjunction, [.token o, .expr y]
  | .opComparison, [.token o, .expr y] | .opSum, [.token o, .expr y]
  | .opTerm, [.token o, .expr y] =>
    match BinaryOp.ofSymbol? o.text with
    | some op => ([], .operand pos op y)
    | none => ([], .invalid)
  | .unary, [.token o, .expr x] =>
    ([], .expr (.unary pos (if o.text == "-" then .neg else .not) x))
  | .unary, [.expr x] => ([], .expr x)
  | .postfixed, .expr x :: fs => ([], .expr (applySuffixes x fs))
  | .suffixed, [_, .selector s] => ([], .suffix pos s)
  | .suffixed, [_, .expr i, _] => ([], .suffix pos (.index i))
  | .suffixed, [_] => ([], .suffix pos .deref)
  | .memberSuffix, [.token name] => ([], .selector (.member name.text))
  | .memberSuffix, .token name :: fs => ([], .selector (.call name.text (exprs fs)))
  | .factor, [.token t] => word pos t
  | .factor, [.expr e] => ([], .expr e)
  | .factor, [_, .expr e, _] => ([], .expr e)
  | .ccall, _ :: .token name :: fs => ([], .expr (.ccall pos name.text (exprs fs)))
  | .staticCall, .token owner :: _ :: .token name :: fs =>
    ([], .expr (.routine pos (some owner.text) name.text (exprs fs)))
  | .functionCall, .token name :: fs => ([], .expr (.routine pos none name.text (exprs fs)))
  | .externDefinition, _ :: .token name :: fs =>
    let (params, results) := signature fs
    ([], .foreign ⟨pos, name.text, params, results⟩)
  | _, _ => ([], .invalid)

end Fragment

namespace Tree

mutual

/-- The fragment that a tree stands for, and what was found wrong: the findings of a rule come
before those of its parts. -/
def interpret : Tree → List Diagnostic × Fragment
  | .leaf t => ([], .token t)
  | .node r pos endPos children =>
    let (below, fs) := interpretAll children
    let (here, f) := Fragment.ofRule r pos endPos fs
    (here ++ below, f)

/-- The fragments of several trees, in order. -/
def interpretAll : List Tree → List Diagnostic × List Fragment
  | [] => ([], [])
  | t :: ts =>
    let (ds, f) := interpret t
    let (more, fs) := interpretAll ts
    (ds ++ more, f :: fs)

end

end Tree

namespace ProgramSyntax

/-- The program of a source text with the diagnostics about it. There is no program where a part of
the text is unreadable or the grammar does not allow a token. -/
def parse (file : String) (rs : List Rune) : List Diagnostic × Option ProgramSyntax :=
  match Token.scan file rs with
  | (_, some u) => ([.error .malformed u.pos u.message], none)
  | (tokens, none) =>
    match Tree.ofTokens tokens with
    | .error m => ([.error .malformed m.pos m.message], none)
    | .ok tree =>
      match tree.interpret with
      | (ds, .program p) => (ds, some p)
      | (ds, _) => (ds, some {})

end ProgramSyntax

end Lane
