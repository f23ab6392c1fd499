import Lane.Typing.Class
import Lane.Typing.Scope

set_option relaxedAutoImplicit false
set_option autoImplicit false

/-!
# Elaborated programs

The result of an analysis: the syntax of every function body with the types of its expressions, what
its names are bound to, which functions its calls select, and how its assignments are carried out.

## Main definitions

* `Lane.TExpr`, `Lane.TTarget`, `Lane.TStmt`: elaborated syntax.
* `Lane.Pair`: how one target of an assignment gets its value.
* `Lane.FuncBody`, `Lane.Elaborated`: elaborated functions and programs.
* `Lane.TExpr.erase`, `Lane.TStmt.erase`: the syntax that was elaborated.
-/

namespace Lane

/-- What a call without an instance stands for. -/
inductive CallTarget where
  /-- A conversion to a scalar type. -/
  | convert (k : ScalarKind)
  /-- A routine. -/
  | routine (f : MemberFunction)
  /-- The construction of a value of the class of `f`. -/
  | construct (f : MemberFunction)
  deriving DecidableEq, Repr, Inhabited

/-- Elaborated expressions: those of the syntax, with one type for each value they yield. -/
inductive TExpr where
  | ident (pos : Position) (types : List Ty) (name : String) (binding : Option Local)
  | self (pos : Position) (types : List Ty) (binding : Option Local)
  | literal (pos : Position) (types : List Ty) (value : Literal)
  | unary (pos : Position) (types : List Ty) (op : UnaryOp) (call : Option MemberFunction)
      (x : TExpr)
  | binary (pos : Position) (types : List Ty) (op : BinaryOp) (call : Option MemberFunction)
      (x y : TExpr)
  /-- The access to a member; it is foldable if it is at a fixed distance from a variable. -/
  | member (pos : Position) (types : List Ty) (x : TExpr) (name : String)
      (var : Option MemberVar) (isFoldable : Bool)
  | index (pos : Position) (types : List Ty) (x i : TExpr)
  | deref (pos : Position) (types : List Ty) (x : TExpr)
  | method (pos : Position) (types : List Ty) (x : TExpr) (name : String) (args : List TExpr)
      (call : Option MemberFunction)
  | routine (pos : Position) (types : List Ty) (cls : Option String) (name : String)
      (args : List TExpr) (call : Option CallTarget)
  | ccall (pos : Position) (types : List Ty) (name : String) (args : List TExpr)
      (call : Option Foreign)
  deriving Repr, Inhabited

namespace TExpr

/-- Where an expression stands. -/
def pos : TExpr → Position
  | .ident p .. | .self p .. | .literal p .. | .unary p .. | .binary p .. | .member p ..
  | .index p .. | .deref p .. | .method p .. | .routine p .. | .ccall p .. => p

/-- The types of the values that an expression yields. -/
def types : TExpr → List Ty
  | .ident _ ts .. | .self _ ts .. | .literal _ ts .. | .unary _ ts .. | .binary _ ts ..
  | .member _ ts .. | .index _ ts .. | .deref _ ts .. | .method _ ts .. | .routine _ ts ..
  | .ccall _ ts .. => ts

/-- The type of an expression that yields one value. -/
def type? (e : TExpr) : Option Ty :=
  match e.types with
  | [t] => some t
  | _ => none

/-- Whether the expression is a call by its form. -/
def isCall : TExpr → Bool
  | .method .. | .routine .. | .ccall .. => true
  | _ => false

/-- Whether the expression was found to call a function. -/
def callsFunction : TExpr → Bool
  | .unary _ _ _ (some _) _ | .binary _ _ _ (some _) _ _ | .method _ _ _ _ _ (some _)
  | .routine _ _ _ _ _ (some (.routine _)) | .routine _ _ _ _ _ (some (.construct _))
  | .ccall _ _ _ _ (some _) => true
  | _ => false

/-- Whether the expression stands for a place that has an address or is a variable. -/
def isAddressable : TExpr → Bool
  | .ident .. | .self .. | .index .. | .deref .. => true
  | .member _ _ _ _ var _ => var.isSome
  | _ => false

/-- Whether the expression stands for a place in memory even if its value is atomic. -/
def isInMemory : TExpr → Bool
  | .index .. | .deref .. => true
  | .member _ _ _ _ var _ => var.isSome
  | _ => false

mutual

/-- The syntax of an elaborated expression. -/
def erase : TExpr → Expr
  | .ident p _ n _ => .ident p n
  | .self p _ _ => .self p
  | .literal p _ l => .literal p l
  | .unary p _ o _ x => .unary p o x.erase
  | .binary p _ o _ x y => .binary p o x.erase y.erase
  | .member p _ x n _ _ => .member p x.erase n
  | .index p _ x i => .index p x.erase i.erase
  | .deref p _ x => .deref p x.erase
  | .method p _ x n args _ => .method p x.erase n (eraseAll args)
  | .routine p _ c n args _ => .routine p c n (eraseAll args)
  | .ccall p _ n args _ => .ccall p n (eraseAll args)

/-- The syntax of several elaborated expressions. -/
def eraseAll : List TExpr → List Expr
  | [] => []
  | e :: es => e.erase :: eraseAll es

end

end TExpr

/-- Elaborated targets: a declaration comes with the local that it declares. -/
inductive TTarget where
  | decl (d : DeclSyntax) (l : Local)
  | expr (e : TExpr)
  deriving Repr, Inhabited

namespace TTarget

/-- Where a target stands. -/
def pos : TTarget → Position
  | .decl d _ => d.pos
  | .expr e => e.pos

/-- The local that a target declares. -/
def local? : TTarget → Option Local
  | .decl _ l => some l
  | .expr _ => none

/-- The syntax of an elaborated target. -/
def erase : TTarget → Target
  | .decl d _ => .decl d
  | .expr e => .expr e.erase

end TTarget

/-- How a target gets its value. -/
inductive PairKind where
  /-- A scalar or pointer is stored, zero if there is no value. -/
  | copy
  /-- A create or assign is called. -/
  | user (f : MemberFunction)
  | containerCopy
  /-- A container is allocated from a size, or left empty if there is no value. -/
  | containerCreate
  /-- The analysis failed, and nothing is done. -/
  | empty
  /-- The function called on the right writes straight to the new local. -/
  | initializedByCaller
  /-- The address of a value is stored in a pointer. -/
  | addressOf
  deriving DecidableEq, Repr, Inhabited

/-- The word of a kind. -/
def PairKind.name : PairKind → String
  | .copy => "copy"
  | .user _ => "user"
  | .containerCopy => "container-copy"
  | .containerCreate => "container-create"
  | .empty => "empty"
  | .initializedByCaller => "initialized-by-caller"
  | .addressOf => "address-of"

/-- One result of an expression on the right: the place of the expression among those on the right
and in the text, and the number of the result. -/
structure PairValue where
  source : Nat
  pos : Position
  result : Nat
  type : Ty
  deriving DecidableEq, Repr, Inhabited

/-- A target with the values that it gets. -/
structure Pair where
  kind : PairKind
  target : TTarget
  values : List PairValue
  deriving Repr, Inhabited

/-- Elaborated statements: those of the syntax, with the scopes that they open. -/
inductive TStmt where
  | assign (pos : Position) (targets : List TTarget) (values : List TExpr) (pairs : List Pair)
      (discarded : List TExpr)
  | ifThen (pos : Position) (cond : TExpr) (scope : Scope) (body : List TStmt)
  | ifElse (pos : Position) (cond : TExpr) (scope : Scope) (body : List TStmt)
      (otherScope : Scope) (other : List TStmt)
  | whileLoop (pos : Position) (cond : TExpr) (scope : Scope) (body : List TStmt)
  | repeatUntil (pos : Position) (scope : Scope) (body : List TStmt) (cond : TExpr)
  | block (pos : Position) (scope : Scope) (body : List TStmt)
  | ret (pos : Position)
  | brk (pos : Position)
  | cont (pos : Position)
  deriving Repr, Inhabited

namespace TStmt

mutual

/-- The syntax of an elaborated statement. -/
def erase : TStmt → Stmt
  | .assign p ts vs _ _ => .assign p (ts.map TTarget.erase) (vs.map TExpr.erase)
  | .ifThen p c _ b => .ifThen p c.erase (eraseAll b)
  | .ifElse p c _ b _ o => .ifElse p c.erase (eraseAll b) (eraseAll o)
  | .whileLoop p c _ b => .whileLoop p c.erase (eraseAll b)
  | .repeatUntil p _ b c => .repeatUntil p (eraseAll b) c.erase
  | .block p _ b => .block p (eraseAll b)
  | .ret p => .ret p
  | .brk p => .brk p
  | .cont p => .cont p

/-- The syntax of several elaborated statements. -/
def eraseAll : List TStmt → List Stmt
  | [] => []
  | s :: ss => s.erase :: eraseAll ss

end

end TStmt

/-- The elaborated body of a function. It is clean if no error was found in it. -/
structure FuncBody where
  fn : MemberFunction
  scope : Scope
  body : List TStmt
  isClean : Bool
  deriving Repr, Inhabited

/-- An elaborated program. -/
structure Elaborated where
  program : Program
  bodies : List FuncBody
  isOk : Bool
  deriving Repr, Inhabited

namespace Elaborated

/-- The elaborated body of a function, which functions that the compiler added do not have. -/
def body? (e : Elaborated) (f : MemberFunction) : Option FuncBody :=
  e.bodies.find? fun b => b.fn.cls.id == f.cls.id && b.fn.index == f.index

/-- Whether a function is free of errors. -/
def isClean (e : Elaborated) (f : MemberFunction) : Bool :=
  f.isGenerated || ((e.body? f).map FuncBody.isClean).getD false

end Elaborated

end Lane
