import Lane.Number.Decimal
import Lane.Position

set_option relaxedAutoImplicit false
set_option autoImplicit false

/-!
# Syntax of Lane programs

A program is a list of classes and a list of foreign functions. Classes have member variables and
member functions; the body of a function is a list of statements. Declarations stand only among the
targets of an assignment.

## Main definitions

* `Lane.TypeExpr`: written types.
* `Lane.Expr`, `Lane.Target`, `Lane.Stmt`: expressions, targets of assignments, statements.
* `Lane.FuncSyntax`, `Lane.ClassSyntax`, `Lane.ForeignSyntax`, `Lane.ProgramSyntax`: declarations.
-/

namespace Lane

/-- The types built from another type. -/
inductive ContainerKind where
  | ptr
  | array
  | simd
  deriving DecidableEq, Repr, Inhabited

/-- The word that names a container. -/
def ContainerKind.name : ContainerKind → String
  | .ptr => "ptr"
  | .array => "array"
  | .simd => "simd"

/-- A written type: a name, or a container of a written type. -/
inductive TypeExpr where
  | name (pos : Position) (name : String)
  | container (pos : Position) (kind : ContainerKind) (inner : TypeExpr)
  deriving Repr, Inhabited, DecidableEq

namespace TypeExpr

/-- Where the type is written. -/
def pos : TypeExpr → Position
  | .name p _ => p
  | .container p _ _ => p

/-- The type as text. -/
def text : TypeExpr → String
  | .name _ n => n
  | .container _ k t => k.name ++ "\x7b" ++ t.text ++ "\x7d"

end TypeExpr

/-- The value of a literal. -/
inductive LiteralValue where
  | bool (b : Bool)
  | int (n : UInt64)
  | real (x : Binary64)
  deriving DecidableEq, Repr, Inhabited

/-- The names of the scalar types that a form of literals can select. -/
def LiteralValue.typeNames : LiteralValue → List String
  | .bool _ => ["bool"]
  | .int _ => ["int", "index", "int8", "int16", "int64", "uint", "uint8", "uint16", "uint64"]
  | .real _ => ["real", "real32"]

/-- A literal: the scalar type that its form selects, its value and its text. -/
structure Literal where
  typeName : String
  value : LiteralValue
  text : String
  /-- The value has a form that can select the type. -/
  typeName_mem : typeName ∈ value.typeNames
  deriving DecidableEq, Repr

/-- A literal for where none was written. -/
instance : Inhabited Literal := ⟨⟨"bool", .bool false, "false", by decide⟩⟩

/-- Operators with one operand. -/
inductive UnaryOp where
  | neg
  | not
  deriving DecidableEq, Repr, Inhabited

/-- How an operator is written. -/
def UnaryOp.symbol : UnaryOp → String
  | .neg => "-"
  | .not => "not"

/-- Operators with two operands. -/
inductive BinaryOp where
  | or
  | xor
  | and
  | eq
  | ne
  | le
  | ge
  | lt
  | gt
  | add
  | sub
  | mul
  | div
  | mod
  deriving DecidableEq, Repr, Inhabited

namespace BinaryOp

/-- How an operator is written. -/
def symbol : BinaryOp → String
  | .or => "or"
  | .xor => "xor"
  | .and => "and"
  | .eq => "=="
  | .ne => "!="
  | .le => "<="
  | .ge => ">="
  | .lt => "<"
  | .gt => ">"
  | .add => "+"
  | .sub => "-"
  | .mul => "*"
  | .div => "/"
  | .mod => "%"

/-- All operators. -/
def all : List BinaryOp :=
  [.or, .xor, .and, .eq, .ne, .le, .ge, .lt, .gt, .add, .sub, .mul, .div, .mod]

/-- The operator that is written so. -/
def ofSymbol? (s : String) : Option BinaryOp := all.find? fun o => o.symbol == s

end BinaryOp

/-- Expressions. The place of an operator expression is that of its operator, the place of a suffix
that of its first character. -/
inductive Expr where
  | ident (pos : Position) (name : String)
  | self (pos : Position)
  | literal (pos : Position) (value : Literal)
  | unary (pos : Position) (op : UnaryOp) (x : Expr)
  | binary (pos : Position) (op : BinaryOp) (x y : Expr)
  | member (pos : Position) (x : Expr) (name : String)
  | index (pos : Position) (x i : Expr)
  | deref (pos : Position) (x : Expr)
  /-- A reader or writer called on a value. -/
  | method (pos : Position) (x : Expr) (name : String) (args : List Expr)
  /-- A routine or constructor, perhaps of a named class. -/
  | routine (pos : Position) (cls : Option String) (name : String) (args : List Expr)
  /-- A foreign function. -/
  | ccall (pos : Position) (name : String) (args : List Expr)
  deriving Repr, Inhabited

/-- Where an expression stands. -/
def Expr.pos : Expr → Position
  | .ident p _ | .self p | .literal p _ | .unary p _ _ | .binary p _ _ _ | .member p _ _
  | .index p _ _ | .deref p _ | .method p _ _ _ | .routine p _ _ _ | .ccall p _ _ => p

/-- The declaration of a local. -/
structure DeclSyntax where
  pos : Position
  name : String
  isConst : Bool
  type : TypeExpr
  deriving Repr, Inhabited, DecidableEq

/-- What stands on the left of an assignment. -/
inductive Target where
  | decl (d : DeclSyntax)
  | expr (e : Expr)
  deriving Repr, Inhabited

/-- Where a target stands. -/
def Target.pos : Target → Position
  | .decl d => d.pos
  | .expr e => e.pos

/-- Statements. An assignment without values declares its targets or evaluates them. -/
inductive Stmt where
  | assign (pos : Position) (targets : List Target) (values : List Expr)
  | ifThen (pos : Position) (cond : Expr) (body : List Stmt)
  | ifElse (pos : Position) (cond : Expr) (body other : List Stmt)
  | whileLoop (pos : Position) (cond : Expr) (body : List Stmt)
  | repeatUntil (pos : Position) (body : List Stmt) (cond : Expr)
  | block (pos : Position) (body : List Stmt)
  | ret (pos : Position)
  | brk (pos : Position)
  | cont (pos : Position)
  deriving Repr, Inhabited

/-- Where a statement stands. -/
def Stmt.pos : Stmt → Position
  | .assign p _ _ | .ifThen p _ _ | .ifElse p _ _ _ | .whileLoop p _ _ | .repeatUntil p _ _
  | .block p _ | .ret p | .brk p | .cont p => p

/-- What may be written before the type of a parameter. -/
inductive Qualifier where
  | none
  | var
  | const
  | ref
  | cref
  deriving DecidableEq, Repr, Inhabited

namespace Qualifier

/-- The word of a qualifier, empty for none. -/
def word : Qualifier → String
  | .none => ""
  | .var => "var"
  | .const => "const"
  | .ref => "ref"
  | .cref => "cref"

/-- The qualifier with a word. -/
def ofWord : String → Qualifier
  | "var" => .var
  | "const" => .const
  | "ref" => .ref
  | "cref" => .cref
  | _ => .none

end Qualifier

/-- A parameter or result of a function. -/
structure ParamSyntax where
  pos : Position
  name : String
  qualifier : Qualifier
  type : TypeExpr
  deriving Repr, Inhabited, DecidableEq

/-- The kinds of member functions. -/
inductive FuncKind where
  | create
  | assign
  | reader
  | writer
  | routine
  | operator
  deriving DecidableEq, Repr, Inhabited

namespace FuncKind

/-- The keyword of a kind. -/
def name : FuncKind → String
  | .create => "create"
  | .assign => "assign"
  | .reader => "reader"
  | .writer => "writer"
  | .routine => "routine"
  | .operator => "operator"

/-- All kinds. -/
def all : List FuncKind := [.create, .assign, .reader, .writer, .routine, .operator]

/-- The kind with a keyword. -/
def ofName? (s : String) : Option FuncKind := all.find? fun k => k.name == s

end FuncKind

/-- A member function as written. -/
structure FuncSyntax where
  pos : Position
  endPos : Position
  kind : FuncKind
  name : String
  isSimd : Bool
  params : List ParamSyntax
  results : List ParamSyntax
  body : List Stmt
  deriving Repr, Inhabited

/-- A member variable as written. -/
structure VarSyntax where
  pos : Position
  name : String
  type : TypeExpr
  deriving Repr, Inhabited, DecidableEq

/-- A member of a class as written. -/
inductive MemberSyntax where
  | var (v : VarSyntax)
  | func (f : FuncSyntax)
  deriving Repr, Inhabited

/-- A class as written. -/
structure ClassSyntax where
  pos : Position
  name : String
  isSimd : Bool
  members : List MemberSyntax
  deriving Repr, Inhabited

/-- The declaration of a foreign function. -/
structure ForeignSyntax where
  pos : Position
  name : String
  params : List ParamSyntax
  results : List ParamSyntax
  deriving Repr, Inhabited, DecidableEq

/-- A program as written. -/
structure ProgramSyntax where
  classes : List ClassSyntax := []
  foreigns : List ForeignSyntax := []
  deriving Repr, Inhabited

end Lane
