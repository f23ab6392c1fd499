import Lane.Lowering.Builder

set_option relaxedAutoImplicit false
set_option autoImplicit false

/-!
# Lowering expressions

An expression is lowered in two ways: to the place that it stands for, and to one operand for each
value that it yields. Steps to members fold into the distance from one base; an index or a pointer
starts a new base.

## Main definitions

* `Lane.Lowering.Lowered`: both ways of lowering an expression.
* `Lane.Lowering.call`: lower a call.
* `Lane.Lowering.expr`: lower an expression.
-/

namespace Lane.Lowering

open Lane.Code

/-- The two ways of lowering an expression. The values that are not atomic may be given storage by
the caller. -/
structure Lowered where
  expr : TExpr
  place : Lower Place
  values : List (Option Operand) → Lower (List Operand)

/-- The type of an expression that yields one value. -/
def typeOf (e : TExpr) : Lower Ty := do
  match e.type? with
  | some t => return t
  | none => bug ("expression at " ++ e.pos.describe ++ " has no single type")

namespace Lowered

/-- An expression that stands for a place. -/
def ofPlace (expr : TExpr) (place : Lower Place) : Lowered where
  expr
  place
  values _ := do return [← fetch (← place)]

/-- An expression that only has values. -/
def ofValues (expr : TExpr) (values : List (Option Operand) → Lower (List Operand)) : Lowered where
  expr
  place := do
    let _ ← typeOf expr
    bug ("expression at " ++ expr.pos.describe ++ " is not addressable")
  values

/-- An expression with one value. -/
def ofValue (expr : TExpr) (value : Lower Operand) : Lowered :=
  ofValues expr fun _ => do return [← value]

/-- The value of an expression that yields one. -/
def value (l : Lowered) : Lower Operand := do
  match ← l.values [] with
  | [o] => return o
  | os => bug s!"expression at {l.expr.pos.describe} yields {os.length} values"

/-- The place of a value that is not atomic; results of calls are in temporary storage. -/
def object (l : Lowered) : Lower Place := do
  if l.expr.isAddressable then l.place
  else
    let v ← l.value
    return .memory v none (← typeOf l.expr)

/-- The address that a reader or writer is called on. -/
def receiver (l : Lowered) : Lower Operand := do
  if (← typeOf l.expr).isPtr then l.value else address (← l.object)

end Lowered

/-- The constant of a literal. -/
def constant (l : Literal) : Const :=
  let t := VType.scalar ((ScalarKind.ofName? l.typeName).getD .int32).code
  match l.value with
  | .bool b => .ofBool b
  | .int n => .ofInt t n
  | .real x => .ofReal t x

/-! ## Calls -/

/-- Copy a variable to a stack slot for a `ref` parameter. -/
def spill (v : Var) : Lower Operand := do
  let slot ← newSlot v.name v.type.size v.type.size none
  emit (.store slot none (.var v))
  return slot

/-- Copy variables back from the slots to which they were copied. -/
def writeBack : List (Operand × Var) → Lower Unit
  | [] => return
  | (slot, v) :: rest => do
    let r ← newReg v.type
    emit (.load r slot none)
    emit (.assign .move (.var v) [r])
    writeBack rest

/-- Lower an argument against its parameter. A variable that is bound to a `ref` parameter is copied
to a slot, which is to be copied back after the call. -/
def argument (p : Param) (e : Lowered) : Lower (Operand × List (Operand × Var)) := do
  if !p.type.isAtomic then
    return (← address (← e.object), [])
  else if p.type.modifier = .ref then
    match ← e.place with
    | .var v _ =>
      let slot ← spill v
      return (slot, [(slot, v)])
    | q => return (← address q, [])
  else
    return (← e.value, [])

/-- Lower arguments against parameters, with the variables that are to be copied back. -/
def arguments : List Param → List Lowered → Lower (List Operand × List (Operand × Var))
  | [], _ => return ([], [])
  | _ :: _, [] => throw .missing
  | p :: ps, e :: es => do
    let (o, back) ← argument p e
    let (os, more) ← arguments ps es
    return (o :: os, back ++ more)

/-- Storage for the results of a call: all results, the addresses passed and the values returned. -/
def resultStorage (dests : List (Option Operand)) :
    Nat → List Param → Lower (List Operand × List Operand × List Operand)
  | _, [] => return ([], [], [])
  | i, p :: ps => do
    if p.isHidden then
      let a ← match dests[i]? with
        | some (some d) => pure d
        | _ => temp p.type
      let (results, hidden, outs) ← resultStorage dests (i + 1) ps
      return (a :: results, a :: hidden, outs)
    else
      let r ← newReg p.type.code
      let (results, hidden, outs) ← resultStorage dests (i + 1) ps
      return (r :: results, hidden, r :: outs)

/-- Lower a call: the instance, the arguments and the addresses of results that are not atomic are
passed, the other results are returned. A call that does nothing and returns nothing is left out. -/
def call (sig : Signature) (decl : Option FuncDecl) (self : Lower (List Operand))
    (args : List Lowered) (dests : List (Option Operand)) :
    Lower (List Operand × List Operand) := do
  match decl with
  | none => bug "call to a function without declaration"
  | some d =>
    let self ← self
    let (args, back) ← arguments sig.params args
    let (results, hidden, outs) ← resultStorage dests 0 sig.results
    if !d.isTrivial || !outs.isEmpty then emit (.call d (self ++ args ++ hidden) outs)
    writeBack back
    return (self, results)

/-- Lower a call of a member function. -/
def callMember (f : MemberFunction) (self : Lower (List Operand)) (args : List Lowered)
    (dests : List (Option Operand)) : Lower (List Operand × List Operand) := do
  call f.sig ((← read).decls.lookup (f.cls.id, f.index)) self args dests

/-- Lower the call of a routine or operator, which has no instance. -/
def callRoutine (f : MemberFunction) (args : List Lowered) (dests : List (Option Operand)) :
    Lower (List Operand) := do
  let self : Lower (List Operand) :=
    if f.hasSelf then bug (f.qualifiedName ++ " called without an instance") else return []
  return (← callMember f self args dests).2

/-- Lower the construction of a value, in the storage of the caller if there is some. -/
def callCreate (f : MemberFunction) (args : List Lowered) (dests : List (Option Operand)) :
    Lower (List Operand) := do
  let self : Lower (List Operand) :=
    match dests with
    | some d :: _ => return [d]
    | _ => do return [← temp (.ofClass f.cls)]
  return (← callMember f self args dests).1

/-- Lower a conversion. -/
def convert (k : ScalarKind) (args : List Lowered) : Lower (List Operand) := do
  match args with
  | x :: _ =>
    let v ← x.value
    return [← compute .convert (.scalar k.code) [v]]
  | [] => throw .missing

/-! ## Expressions -/

/-- The computation of a built-in operator. -/
def unaryKind : UnaryOp → AssignKind
  | .neg => .neg
  | .not => .not

/-- The computation of a built-in operator. -/
def binaryKind : BinaryOp → AssignKind
  | .or => .or
  | .xor => .xor
  | .and => .and
  | .eq => .eq
  | .ne => .ne
  | .le => .le
  | .ge => .ge
  | .lt => .lt
  | .gt => .gt
  | .add => .add
  | .sub => .sub
  | .mul => .mul
  | .div => .div
  | .mod => .rem

/-- The place of a local. -/
def localPlace (e : TExpr) (l : Option Local) : Lower Place := do
  let t ← typeOf e
  match l with
  | some l => return .ofStorage t (← storageOf l)
  | none => bug ("unbound variable at " ++ e.pos.describe)

/-- The place of a member variable. -/
def memberPlace (e : TExpr) (x : Lowered) (v : MemberVar) : Lower Place := do
  let t ← typeOf e
  let m ← memberOf v
  if (← typeOf x.expr).isPtr then
    let base ← x.value
    return .memory base (some (Offset.ofPath [m])) t
  return (← x.object).field m t

/-- The place of an element of a container. -/
def elementPlace (e : TExpr) (x i : Lowered) : Lower Place := do
  let t ← typeOf e
  match ← typeOf x.expr with
  | .container _ _ inner =>
    let header ← x.object
    let data ← loadField header .headerData
    let n ← i.value
    let (size, _) ← sizeOf inner
    let n ← if size = 1 then pure n
      else compute .mul .index [n, .const (.ofInt .index size.toUInt64)]
    let addr ← compute .ptrAdd .ptr [data, n]
    return .memory addr none t
  | _ => throw .missing

/-- The value of an access to something that is no member variable: the size of a container. -/
def sizeAccess (e : TExpr) (x : Lowered) : Lower Operand := do
  if (← typeOf x.expr).isContainer then loadField (← x.object) .headerLen
  else
    let _ ← typeOf e
    bug ("expression at " ++ e.pos.describe ++ " is not addressable")

/-- An expression whose call was not resolved. -/
def unresolved (e : TExpr) : Lowered :=
  .ofValues e fun _ => bug ("unresolved call at " ++ e.pos.describe)

mutual

/-- Lower an expression. -/
def expr : TExpr → Lowered
  | .ident p ts n l =>
    let e := TExpr.ident p ts n l
    .ofPlace e (localPlace e l)
  | .self p ts l =>
    let e := TExpr.self p ts l
    .ofPlace e (localPlace e l)
  | .literal p ts l => .ofValue (.literal p ts l) (return .const (constant l))
  | .unary p ts op f x =>
    let e := TExpr.unary p ts op f x
    let x := expr x
    match f with
    | some f => .ofValues e fun dests => callRoutine f [x] dests
    | none => .ofValue e do
      let a ← x.value
      let t ← typeOf e
      compute (unaryKind op) t.code [a]
  | .binary p ts op f x y =>
    let e := TExpr.binary p ts op f x y
    let x := expr x
    let y := expr y
    match f with
    | some f => .ofValues e fun dests => callRoutine f [x, y] dests
    | none => .ofValue e do
      let a ← x.value
      let b ← y.value
      let t ← typeOf e
      compute (binaryKind op) t.code [a, b]
  | .member p ts x n v foldable =>
    let e := TExpr.member p ts x n v foldable
    let x := expr x
    match v with
    | some v => .ofPlace e (memberPlace e x v)
    | none => .ofValue e (sizeAccess e x)
  | .index p ts x i =>
    let e := TExpr.index p ts x i
    let x := expr x
    let i := expr i
    .ofPlace e (elementPlace e x i)
  | .deref p ts x =>
    let e := TExpr.deref p ts x
    let x := expr x
    .ofPlace e do
      let t ← typeOf e
      return .memory (← x.value) none t
  | .method p ts x n args f =>
    let e := TExpr.method p ts x n args f
    let x := expr x
    let args := exprs args
    match f with
    | some f => .ofValues e fun dests => do
      let self : Lower (List Operand) := do return [← x.receiver]
      return (← callMember f self args dests).2
    | none => unresolved e
  | .routine p ts c n args f =>
    let e := TExpr.routine p ts c n args f
    let args := exprs args
    match f with
    | some (.convert k) => .ofValues e fun _ => convert k args
    | some (.routine f) => .ofValues e fun dests => callRoutine f args dests
    | some (.construct f) => .ofValues e fun dests => callCreate f args dests
    | none => unresolved e
  | .ccall p ts n args f =>
    let e := TExpr.ccall p ts n args f
    let args := exprs args
    match f with
    | some f => .ofValues e fun dests => do
      return (← call f.sig ((← read).foreigns.lookup f.name) (return []) args dests).2
    | none => unresolved e

/-- Lower several expressions. -/
def exprs : List TExpr → List Lowered
  | [] => []
  | e :: es => expr e :: exprs es

end

end Lane.Lowering
