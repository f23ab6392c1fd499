import Lane.Analysis.Elaborated

set_option relaxedAutoImplicit false
set_option autoImplicit false

/-!
# Traces of an analysis

An elaborated function as lines of text: each statement and each expression has a line, and its
parts follow one level deeper.

## Main definitions

* `Lane.TExpr.trace`, `Lane.TStmt.trace`: the lines of elaborated syntax.
* `Lane.FuncBody.trace`: the lines of a function.
* `Lane.Elaborated.describeMember`: the line of a member of a class.
-/

namespace Lane

/-- A line at a level of nesting. -/
def traceLine (level : Nat) (s : String) : String :=
  String.ofList (List.replicate (2 * level) ' ') ++ s

/-- A local by its name and place. -/
def Local.reference (l : Local) : String := l.name ++ "@" ++ l.pos.lineColumn

namespace TExpr

/-- The word that names an expression in a trace. -/
def traceKind : TExpr → String
  | .ident .. => "ident"
  | .self .. => "self"
  | .literal .. => "literal"
  | .unary _ _ op _ _ => "unary " ++ op.symbol
  | .binary _ _ op _ _ _ => "binary " ++ op.symbol
  | .member _ _ _ n _ _ => "member " ++ n
  | .index .. => "index"
  | .deref .. => "deref"
  | .method _ _ _ n _ _ => "method " ++ n
  | .routine _ _ _ n _ _ => "routine " ++ n
  | .ccall _ _ n _ _ => "ccall " ++ n

/-- What a trace says about a local. -/
def traceLocal : Option Local → String
  | some l => " local " ++ l.reference
  | none => ""

/-- What a trace says about a function called. -/
def traceCall : Option MemberFunction → String
  | some f => " call " ++ f.describe
  | none => ""

/-- What a trace says about an expression beyond its types. -/
def traceExtra : TExpr → String
  | .ident _ _ _ l | .self _ _ l => traceLocal l
  | .unary _ _ _ f _ | .binary _ _ _ f _ _ => traceCall f
  | .method _ _ _ _ _ f => traceCall f ++ if f.isSome then " recv" else ""
  | .routine _ _ _ _ _ (some (.convert k)) => " convert " ++ k.name
  | .routine _ _ _ _ _ (some (.routine f)) => traceCall (some f)
  | .routine _ _ _ _ _ (some (.construct f)) => traceCall (some f) ++ " construct"
  | .ccall _ _ _ _ (some f) => " extern " ++ f.name
  | .member _ _ _ _ v foldable =>
    (match v with
      | some v => " of " ++ v.cls.name
      | none => "") ++ if foldable then " fold" else ""
  | _ => ""

mutual

/-- The lines of an expression. -/
def trace (level : Nat) (e : TExpr) : List String :=
  traceLine level
      (e.traceKind ++ " " ++ e.pos.lineColumn ++ " " ++ Ty.listText e.types ++ e.traceExtra) ::
    match e with
    | .ident .. | .self .. | .literal .. => []
    | .unary _ _ _ _ x | .member _ _ x _ _ _ | .deref _ _ x => trace (level + 1) x
    | .binary _ _ _ _ x y | .index _ _ x y => trace (level + 1) x ++ trace (level + 1) y
    | .method _ _ x _ args _ => trace (level + 1) x ++ traceAll (level + 1) args
    | .routine _ _ _ _ args _ | .ccall _ _ _ args _ => traceAll (level + 1) args

/-- The lines of several expressions. -/
def traceAll (level : Nat) : List TExpr → List String
  | [] => []
  | e :: es => trace level e ++ traceAll level es

end

end TExpr

/-- The lines of a target. -/
def TTarget.trace (level : Nat) : TTarget → List String
  | .decl d l =>
    [traceLine level
      ("decl " ++ d.pos.lineColumn ++ " " ++ Ty.listText [l.type] ++ TExpr.traceLocal (some l))]
  | .expr e => e.trace level

/-- The line of a pair. -/
def Pair.trace (p : Pair) : String :=
  let decl := match p.target.local? with
    | some l => l.name ++ ": " ++ l.type.text
    | none => "-"
  let fn := match p.kind with
    | .user f => f.describe
    | _ => "-"
  let values := p.values.map fun v =>
    v.pos.lineColumn ++ "#" ++ toString v.result ++ " " ++ v.type.text
  "pair " ++ p.kind.name ++ " lhs " ++ p.target.pos.lineColumn ++ " decl " ++ decl ++ " fn " ++
    fn ++ " values [" ++ ", ".intercalate values ++ "]"

namespace TStmt

mutual

/-- The lines of a statement. -/
def trace (level : Nat) : TStmt → List String
  | .assign p ts vs pairs discarded =>
    traceLine level ("assign " ++ p.lineColumn) ::
      (ts.flatMap (TTarget.trace (level + 1)) ++ TExpr.traceAll (level + 1) vs ++
        pairs.map (fun q => traceLine (level + 1) q.trace) ++
        [traceLine (level + 1) s!"exprs {vs.length} discard {discarded.length}"])
  | .ifThen p c s b =>
    traceLine level ("if " ++ p.lineColumn) :: c.trace (level + 1) ++
      traceLine (level + 1) ("then " ++ s.text) :: traceAll (level + 1) b
  | .ifElse p c s b t o =>
    traceLine level ("if " ++ p.lineColumn) :: c.trace (level + 1) ++
      traceLine (level + 1) ("then " ++ s.text) :: traceAll (level + 1) b ++
      traceLine (level + 1) ("else " ++ t.text) :: traceAll (level + 1) o
  | .whileLoop p c s b =>
    traceLine level ("while " ++ p.lineColumn ++ " " ++ s.text) ::
      (c.trace (level + 1) ++ traceAll (level + 1) b)
  | .repeatUntil p s b c =>
    traceLine level ("repeat " ++ p.lineColumn ++ " " ++ s.text) ::
      (traceAll (level + 1) b ++ c.trace (level + 1))
  | .block p s b =>
    traceLine level ("block " ++ p.lineColumn ++ " " ++ s.text) :: traceAll (level + 1) b
  | .ret p | .brk p | .cont p => [traceLine level ("jump " ++ p.lineColumn)]

/-- The lines of several statements. -/
def traceAll (level : Nat) : List TStmt → List String
  | [] => []
  | s :: ss => trace level s ++ traceAll level ss

end

end TStmt

/-- The lines of a function. -/
def FuncBody.trace (b : FuncBody) : List String :=
  ("scope " ++ b.scope.text) :: TStmt.traceAll 1 b.body

/-- A function with its place and what distinguishes it. -/
def Elaborated.describeFunction (e : Elaborated) (f : MemberFunction) : String :=
  let flag (b : Bool) (s : String) := if b then s else ""
  f.describe ++ " at " ++ f.pos.lineColumn ++ flag f.isSimd " simd" ++
    flag f.isGenerated " auto" ++ flag f.isCopy " copy" ++ flag f.hasSelf " self" ++
    flag f.hasConstSelf " constself" ++ flag (e.isClean f) " analyzed"

/-- A line for a member of a class. -/
def Elaborated.describeMember (e : Elaborated) : Member → String
  | .var v =>
    s!"var {v.index} " ++ v.name ++ ": " ++ v.type.text ++ " at " ++ v.pos.lineColumn
  | .func f => e.describeFunction f

end Lane
