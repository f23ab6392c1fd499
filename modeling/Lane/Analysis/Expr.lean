import Lane.Analysis.Context
import Lane.Analysis.Elaborated

set_option relaxedAutoImplicit false
set_option autoImplicit false

/-!
# Analysis of types and expressions

Every expression is given the types of its values; whatever fails is given the error type after one
report. All parts of an expression are analysed before the expression itself, whether or not one of
them failed.

## Main definitions

* `Lane.Analysis.resolveType`: the type that a written type stands for.
* `Lane.Analysis.expr`: elaborate an expression.
* `Lane.Analysis.checkRefArgs`: arguments of `ref` parameters are variables that may be written.
-/

namespace Lane

/-! ## Types of built-in operators -/

namespace UnaryOp

/-- The type of a built-in operator applied to an operand. -/
def builtinType? : UnaryOp → Ty → Option Ty
  | .neg, .scalar _ k => if k != .bool then some (.ofScalar k) else none
  | .not, .scalar _ k => if k == .bool || k.isInteger then some (.ofScalar k) else none
  | _, _ => none

end UnaryOp

namespace BinaryOp

/-- The type of a built-in operator applied to two scalars of one kind. -/
def scalarType? (op : BinaryOp) (k : ScalarKind) : Option Ty :=
  match op with
  | .add | .sub | .mul | .div => if k != .bool then some (.ofScalar k) else none
  | .mod => if k.isInteger then some (.ofScalar k) else none
  | .eq | .ne => some (.ofScalar .bool)
  | .lt | .le | .gt | .ge => if k != .bool then some (.ofScalar .bool) else none
  | .and | .or | .xor => if k == .bool || k.isInteger then some (.ofScalar k) else none

/-- The type of a built-in operator applied to two operands; pointers can only be compared for
equality. -/
def builtinType? (op : BinaryOp) (x y : Ty) : Option Ty :=
  if x.compatible y then
    match x with
    | .ptr _ _ => if op = .eq ∨ op = .ne then some (.ofScalar .bool) else none
    | .scalar _ k => op.scalarType? k
    | _ => none
  else none

end BinaryOp

namespace Analysis

/-! ## Written types -/

/-- The type that a written type stands for. A `simd` container holds scalars or `simd` classes. -/
def resolveType : TypeExpr → Analysis Ty
  | .name pos n => do
    match ScalarKind.ofName? n with
    | some k => return .ofScalar k
    | none =>
      match (← get).program.class? n with
      | some c => return .ofClass c.ref
      | none =>
        report .undeclared pos ("undeclared type '" ++ n ++ "'")
        return .failed
  | .container pos kind inner => do
    let t ← resolveType inner
    if t.isError then return t
    match kind with
    | .ptr => return .ptr .var t
    | .array => return .container .var .array t
    | .simd =>
      let written := (TypeExpr.container pos kind inner).text
      match t with
      | .scalar _ _ => return .container .var .simd t
      | .cls _ c =>
        if c.isSimd then return .container .var .simd t
        report .containerUse pos (written ++ ": class " ++ c.name ++ " is not declared simd")
        return .failed
      | _ =>
        report .containerUse pos (written ++ ": simd containers hold scalars or simd classes")
        return .failed

/-! ## Expressions -/

/-- The types of an expression that failed. -/
def failure : List Ty := [.failed]

/-- The type of an expression where one value is expected. -/
def single (e : TExpr) : Analysis Ty :=
  match e.types with
  | [t] => return t
  | ts => do
    report .mismatch e.pos
      s!"expression yields {ts.length} values where one is expected"
    return .failed

/-- Arguments of `ref` parameters are variables that may be written. -/
def checkRefArgs (f : MemberFunction) (args : List TExpr) : Analysis Unit :=
  (f.sig.params.zip args).zipIdx.forM fun ((p, e), i) => do
    if p.type.modifier = .ref then
      let isConst := match e.type? with
        | some t => t.modifier.isConst
        | none => false
      if !e.isAddressable || isConst then
        report .mismatch e.pos
          ("argument " ++ toString (i + 1) ++ " of " ++ f.qualifiedName ++
            " must be a writable variable")

/-- A name. -/
def ident (pos : Position) (name : String) : Analysis TExpr := do
  match (← get).lookup? name with
  | some l => return .ident pos [l.type] name (some l)
  | none =>
    report .undeclared pos ("undeclared identifier '" ++ name ++ "'")
    return .ident pos failure name none

/-- The current instance. -/
def selfExpr (pos : Position) : Analysis TExpr := do
  match (← get).function.bind Frame.self with
  | some l => return .self pos [l.type] (some l)
  | none =>
    report .undeclared pos
      "'self' is only available in create, assign, reader and writer"
    return .self pos failure none

/-- A literal, whose value has to fit its type. -/
def literal (pos : Position) (l : Literal) : Analysis TExpr := do
  match ScalarKind.ofName? l.typeName with
  | none =>
    bug ("literal " ++ l.text ++ " has unknown type " ++ l.typeName)
    return .literal pos failure l
  | some k =>
    match l.value with
    | .int n =>
      if n.toNat > k.maxValue then
        report .mismatch pos ("literal " ++ l.text ++ " overflows " ++ k.name)
    | _ => pure ()
    return .literal pos [.scalar .const k] l

/-- The function that an operator selects for operands, the left of which is of a class. -/
def operator (pos : Position) (c : ClassRef) (op : String) (operands : List TExpr)
    (args : List Ty) : Analysis (List Ty × Option MemberFunction) := do
  match ((← get).program.classOf c).resolveOperator op args with
  | .error e =>
    report .overload pos e.message
    return (failure, none)
  | .ok f =>
    checkRefArgs f operands
    return (f.sig.resultTypes, some f)

/-- An operator with one operand. -/
def unary (pos : Position) (op : UnaryOp) (x : TExpr) : Analysis TExpr := do
  let t ← single x
  if t.isError then return .unary pos failure op none x
  match t with
  | .cls _ c =>
    let (ts, call) ← operator pos c op.symbol [x] [t]
    return .unary pos ts op call x
  | _ =>
    match op.builtinType? t with
    | some r => return .unary pos [r] op none x
    | none =>
      report .mismatch pos ("operator " ++ op.symbol ++ " is not defined for " ++ t.text)
      return .unary pos failure op none x

/-- An operator with two operands. -/
def binary (pos : Position) (op : BinaryOp) (x y : TExpr) (t u : Ty) : Analysis TExpr := do
  if t.isError || u.isError then return .binary pos failure op none x y
  match t with
  | .cls _ c =>
    let (ts, call) ← operator pos c op.symbol [x, y] [t, u]
    return .binary pos ts op call x y
  | _ =>
    match op.builtinType? t u with
    | some r => return .binary pos [r] op none x y
    | none =>
      report .mismatch pos
        ("operator " ++ op.symbol ++ " is not defined for " ++ t.text ++ " and " ++ u.text)
      return .binary pos failure op none x y

/-- Whether a member of a value is at a fixed distance from a variable: the value has to be reached
from a variable by member steps, none of which goes through a pointer. -/
def foldableBase (x : TExpr) (t : Ty) : Bool :=
  !t.isPtr &&
    match x with
    | .ident .. | .self .. => true
    | .member _ _ _ _ var foldable => foldable && var.isSome
    | _ => false

/-- The access to a member. -/
def member (pos : Position) (x : TExpr) (name : String) : Analysis TExpr := do
  let t ← single x
  if t.isError then return .member pos [t] x name none false
  let foldable := foldableBase x t
  match t, t.classOf? with
  | .container .., _ =>
    if name == "size" then
      return .member pos [.scalar .const .index] x name none foldable
    report .containerUse pos (t.text ++ " has no member '" ++ name ++ "'")
    return .member pos failure x name none foldable
  | _, some c =>
    match ((← get).program.classOf c).var? name with
    | none =>
      report .undeclared pos
        ("class " ++ c.name ++ " has no member variable '" ++ name ++ "'")
      return .member pos failure x name none foldable
    | some v =>
      let m : Modifier := if t.isClass && t.modifier.isConst then .const else .var
      return .member pos [v.type.withModifier m] x name (some v) foldable
  | _, none =>
    report .mismatch pos (t.text ++ " has no members")
    return .member pos failure x name none foldable

/-- An element of a container. -/
def index (pos : Position) (x i : TExpr) (t u : Ty) : Analysis TExpr := do
  if !u.isError && !u.isIndex then
    report .containerUse i.pos ("index must be of type index, found " ++ u.text)
  match t with
  | .error _ => return .index pos [t] x i
  | .container m _ inner =>
    return .index pos [inner.withModifier (if m.isConst then .const else .var)] x i
  | _ =>
    report .containerUse pos ("cannot index " ++ t.text)
    return .index pos failure x i

/-- What a pointer points at. -/
def deref (pos : Position) (x : TExpr) : Analysis TExpr := do
  match ← single x with
  | .error m => return .deref pos [.error m] x
  | .ptr _ inner => return .deref pos [inner.withModifier .var] x
  | t =>
    report .mismatch pos ("cannot dereference " ++ t.text)
    return .deref pos failure x

/-- A reader or writer called on a value of type `t`. -/
def method (pos : Position) (x : TExpr) (name : String) (args : List TExpr) (t : Ty)
    (argTypes : List Ty) : Analysis TExpr := do
  if t.isError || argTypes.any Ty.isError then
    return .method pos failure x name args none
  match t.classOf? with
  | none =>
    report .mismatch pos (t.text ++ " has no member functions")
    return .method pos failure x name args none
  | some c =>
    match ((← get).program.classOf c).resolve name argTypes [.reader, .writer] with
    | .error e =>
      report .overload pos e.message
      return .method pos failure x name args none
    | .ok f =>
      if t.isClass && f.kind = .writer && t.modifier.isConst then
        report .mismatch pos ("cannot call writer " ++ name ++ " on read-only " ++ t.text)
      checkRefArgs f args
      return .method pos f.sig.resultTypes x name args (some f)

/-- A routine of a class. -/
def routineOf (pos : Position) (owner : Option String) (name : String) (args : List TExpr)
    (c : Class) (argTypes : List Ty) : Analysis TExpr := do
  if argTypes.any Ty.isError then return .routine pos failure owner name args none
  match c.resolve name argTypes [.routine] with
  | .error e =>
    report .overload pos e.message
    return .routine pos failure owner name args none
  | .ok f =>
    checkRefArgs f args
    return .routine pos f.sig.resultTypes owner name args (some (.routine f))

/-- A conversion to a scalar type. -/
def conversion (pos : Position) (name : String) (args : List TExpr) (k : ScalarKind)
    (argTypes : List Ty) : Analysis TExpr := do
  let target := Ty.ofScalar k
  if argTypes.any Ty.isError then return .routine pos [target] none name args none
  match argTypes, k != .bool with
  | [t], true =>
    if t.isNumeric then return .routine pos [target] none name args (some (.convert k))
  | _, _ => pure ()
  report .mismatch pos
    ("cannot convert " ++ Ty.listText argTypes ++ " to " ++ target.text)
  return .routine pos failure none name args none

/-- The construction of a value of a class. -/
def construction (pos : Position) (name : String) (args : List TExpr) (c : Class)
    (argTypes : List Ty) : Analysis TExpr := do
  if argTypes.any Ty.isError then return .routine pos [.ofClass c.ref] none name args none
  match c.resolve "create" argTypes [.create] with
  | .error e =>
    report .overload pos e.message
    return .routine pos failure none name args none
  | .ok f =>
    checkRefArgs f args
    return .routine pos [.ofClass c.ref] none name args (some (.construct f))

/-- A call by name: a routine of a named class, a conversion, a construction, or a routine of the
current class. -/
def routine (pos : Position) (owner : Option String) (name : String) (args : List TExpr)
    (argTypes : List Ty) : Analysis TExpr := do
  let ctx ← get
  match owner with
  | some o =>
    match ctx.program.class? o with
    | some c => routineOf pos owner name args c argTypes
    | none =>
      report .undeclared pos ("undeclared class '" ++ o ++ "'")
      return .routine pos failure owner name args none
  | none =>
    match ScalarKind.ofName? name, ctx.program.class? name with
    | some k, _ => conversion pos name args k argTypes
    | none, some c => construction pos name args c argTypes
    | none, none =>
      match (ctx.cls.map ctx.program.classOf).filter
          fun c => !(c.lookup name [.routine]).isEmpty with
      | some c => routineOf pos owner name args c argTypes
      | none =>
        report .undeclared pos ("undeclared routine '" ++ name ++ "'")
        return .routine pos failure owner name args none

/-- A call of a foreign function. -/
def ccall (pos : Position) (name : String) (args : List TExpr) (argTypes : List Ty) :
    Analysis TExpr := do
  match (← get).program.foreign? name with
  | none =>
    report .undeclared pos ("undeclared extern '" ++ name ++ "'")
    return .ccall pos failure name args none
  | some f =>
    if argTypes.any Ty.isError then return .ccall pos f.sig.resultTypes name args none
    if f.sig.applicable argTypes then
      return .ccall pos f.sig.resultTypes name args (some f)
    report .mismatch pos
      ("arguments " ++ Ty.listText argTypes ++ " do not match extern " ++ f.name ++ f.sig.text)
    return .ccall pos failure name args none

mutual

/-- Elaborate an expression. -/
def expr : Expr → Analysis TExpr
  | .ident pos n => ident pos n
  | .self pos => selfExpr pos
  | .literal pos l => literal pos l
  | .unary pos op x => do
    unary pos op (← expr x)
  | .binary pos op x y => do
    let x ← expr x
    let t ← single x
    let y ← expr y
    let u ← single y
    binary pos op x y t u
  | .member pos x n => do
    member pos (← expr x) n
  | .index pos x i => do
    let x ← expr x
    let t ← single x
    let i ← expr i
    let u ← single i
    index pos x i t u
  | .deref pos x => do
    deref pos (← expr x)
  | .method pos x n args => do
    let x ← expr x
    let t ← single x
    let (args, ts) ← arguments args
    method pos x n args t ts
  | .routine pos owner n args => do
    let (args, ts) ← arguments args
    routine pos owner n args ts
  | .ccall pos n args => do
    let (args, ts) ← arguments args
    ccall pos n args ts

/-- Elaborate arguments, each of which has to yield one value. -/
def arguments : List Expr → Analysis (List TExpr × List Ty)
  | [] => return ([], [])
  | e :: es => do
    let e ← expr e
    let t ← single e
    let (es, ts) ← arguments es
    return (e :: es, t :: ts)

end

end Analysis

end Lane
