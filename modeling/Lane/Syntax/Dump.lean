import Lane.Syntax.Basic
import Lane.Text.Json

set_option relaxedAutoImplicit false
set_option autoImplicit false

/-!
# Syntax trees as JSON

The tree of a program for other tools. Lists that the parser leaves out when they are empty are
written as nothing, and enumerations as numbers.

## Main definitions

* `Lane.ProgramSyntax.toJson`: the JSON value of a tree.
* `Lane.ProgramSyntax.dump`: its text.
-/

namespace Lane

open Text (Json)

/-- A place as JSON. -/
def Position.toJson (p : Position) : Json :=
  .object [("Filename", .string p.file), ("Offset", .nat p.offset),
    ("Line", .number (toString p.line)), ("Column", .number (toString p.column))]

/-- An object that starts with its place. -/
def placed (p : Position) (fields : List (String × Json)) : Json :=
  .object (("Pos", p.toJson) :: fields)

/-- The number of a kind of container. -/
def ContainerKind.number : ContainerKind → Nat
  | .ptr => 1
  | .array => 2
  | .simd => 3

/-- A written type as JSON. -/
def TypeExpr.toJson : TypeExpr → Json
  | .name p n =>
    placed p [("Name", .string n), ("Container", .nat 0), ("Inner", .null)]
  | .container p k t =>
    placed p [("Name", .string ""), ("Container", .nat k.number), ("Inner", t.toJson)]

/-- Reals from a millionth up to a sextillion are written without an exponent. -/
def jsonReal : NumberStyle := ⟨-6, 21, 1⟩

/-- A literal as JSON. All values that it does not have are zero. -/
def Literal.toJson (p : Position) (l : Literal) : Json :=
  let (kind, b, n, x) : Nat × Bool × UInt64 × Binary64 := match l.value with
    | .bool b => (0, b, 0, .zero)
    | .int n => (1, false, n, .zero)
    | .real x => (2, false, 0, x)
  placed p [("Kind", .nat kind), ("TypeName", .string l.typeName), ("Bool", .bool b),
    ("Int", .nat n.toNat), ("Real", .number (x.writeWith jsonReal.write)),
    ("Text", .string l.text)]

mutual

/-- An expression as JSON. -/
def Expr.toJson : Expr → Json
  | .ident p n => placed p [("Name", .string n)]
  | .self p => placed p []
  | .literal p l => l.toJson p
  | .unary p o x => placed p [("Op", .string o.symbol), ("X", x.toJson)]
  | .binary p o x y => placed p [("Op", .string o.symbol), ("X", x.toJson), ("Y", y.toJson)]
  | .member p x n => placed p [("X", x.toJson), ("Name", .string n)]
  | .index p x i => placed p [("X", x.toJson), ("Index", i.toJson)]
  | .deref p x => placed p [("X", x.toJson)]
  | .method p x n args =>
    placed p [("X", x.toJson), ("Name", .string n), ("Args", .list (Expr.listToJson args))]
  | .routine p c n args =>
    placed p [("Class", .string (c.getD "")), ("Name", .string n),
      ("Args", .list (Expr.listToJson args))]
  | .ccall p n args => placed p [("Name", .string n), ("Args", .list (Expr.listToJson args))]

/-- Expressions as JSON. -/
def Expr.listToJson : List Expr → List Json
  | [] => []
  | e :: es => e.toJson :: Expr.listToJson es

end

/-- A target of an assignment as JSON. -/
def Target.toJson : Target → Json
  | .decl d =>
    placed d.pos [("Name", .string d.name), ("Const", .bool d.isConst), ("Type", d.type.toJson)]
  | .expr e => e.toJson

mutual

/-- A statement as JSON. -/
def Stmt.toJson : Stmt → Json
  | .assign p targets values =>
    placed p [("Lhs", .listOrNull (targets.map Target.toJson)),
      ("Rhs", .listOrNull (Expr.listToJson values))]
  | .ifThen p c body =>
    placed p [("Cond", c.toJson), ("Then", .list (Stmt.listToJson body)), ("Else", .null),
      ("HasElse", .bool false)]
  | .ifElse p c body other =>
    placed p [("Cond", c.toJson), ("Then", .list (Stmt.listToJson body)),
      ("Else", .list (Stmt.listToJson other)), ("HasElse", .bool true)]
  | .whileLoop p c body => placed p [("Cond", c.toJson), ("Body", .list (Stmt.listToJson body))]
  | .repeatUntil p body c => placed p [("Body", .list (Stmt.listToJson body)), ("Cond", c.toJson)]
  | .block p body => placed p [("Body", .list (Stmt.listToJson body))]
  | .ret p | .brk p | .cont p => placed p []

/-- Statements as JSON. -/
def Stmt.listToJson : List Stmt → List Json
  | [] => []
  | s :: ss => s.toJson :: Stmt.listToJson ss

end

/-- The number of a qualifier. -/
def Qualifier.number : Qualifier → Nat
  | .none => 0
  | .var => 1
  | .const => 2
  | .ref => 3
  | .cref => 4

/-- A parameter as JSON. -/
def ParamSyntax.toJson (p : ParamSyntax) : Json :=
  placed p.pos
    [("Name", .string p.name), ("Qual", .nat p.qualifier.number), ("Type", p.type.toJson)]

/-- Parameters as JSON. -/
def ParamSyntax.listToJson (ps : List ParamSyntax) : Json := .listOrNull (ps.map ParamSyntax.toJson)

/-- The number of a kind of function. -/
def FuncKind.number : FuncKind → Nat
  | .create => 0
  | .assign => 1
  | .reader => 2
  | .writer => 3
  | .routine => 4
  | .operator => 5

/-- A member of a class as JSON. -/
def MemberSyntax.toJson : MemberSyntax → Json
  | .var v => placed v.pos [("Name", .string v.name), ("Type", v.type.toJson)]
  | .func f =>
    placed f.pos [("EndPos", f.endPos.toJson), ("Kind", .nat f.kind.number),
      ("Name", .string f.name), ("Simd", .bool f.isSimd), ("In", ParamSyntax.listToJson f.params),
      ("Out", ParamSyntax.listToJson f.results), ("Body", .list (Stmt.listToJson f.body))]

/-- A class as JSON. -/
def ClassSyntax.toJson (c : ClassSyntax) : Json :=
  placed c.pos [("Name", .string c.name), ("Simd", .bool c.isSimd),
    ("Members", .listOrNull (c.members.map MemberSyntax.toJson))]

/-- A foreign function as JSON. -/
def ForeignSyntax.toJson (f : ForeignSyntax) : Json :=
  placed f.pos [("Name", .string f.name), ("In", ParamSyntax.listToJson f.params),
    ("Out", ParamSyntax.listToJson f.results)]

namespace ProgramSyntax

/-- A program as JSON. -/
def toJson (p : ProgramSyntax) : Json :=
  .object [("Classes", .listOrNull (p.classes.map ClassSyntax.toJson)),
    ("Externs", .listOrNull (p.foreigns.map ForeignSyntax.toJson))]

/-- The text of a program as JSON. -/
def dump (p : ProgramSyntax) : String := p.toJson.text ++ "\n"

end ProgramSyntax

end Lane
