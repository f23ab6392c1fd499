import Lane.Analysis.Expr

set_option relaxedAutoImplicit false
set_option autoImplicit false

/-!
# Analysis of statements

Every statement is analysed, whatever failed before it. An assignment is taken apart into pairs of a
target and the values that it gets: one target may get several values, which become the arguments of
a create or assign, and otherwise there have to be as many values as targets.

## Main definitions

* `Lane.Analysis.classify`: how a target gets one value.
* `Lane.Analysis.assign`: elaborate an assignment.
* `Lane.Analysis.statement`, `Lane.Analysis.statements`: elaborate statements.
-/

namespace Lane.Analysis

/-! ## Assignments -/

/-- A target may be written: it stands for a place, and the place is not read-only. -/
def checkWritable (e : TExpr) (t : Ty) : Analysis Unit := do
  if t.isError then return
  if !e.isAddressable then
    report .mismatch e.pos "cannot assign to this expression"
  else if t.modifier.isConst then
    report .mismatch e.pos ("cannot assign to read-only " ++ t.text)

/-- Elaborate a target, and give its type. Expressions are evaluated if there are no values to
assign; a declared local is not bound yet. -/
def target (hasValues : Bool) : Target → Analysis (TTarget × Ty)
  | .decl d => do
    let t ← resolveType d.type
    let id ← freshLocal
    let l : Local :=
      ⟨id, d.name, d.pos, t.withModifier (if d.isConst then .const else .var), .declared⟩
    return (.decl d l, l.type)
  | .expr e => do
    let e ← expr e
    if hasValues then
      let t ← single e
      checkWritable e t
      return (.expr e, t)
    return (.expr e, .failed)

/-- The values of an expression on the right, which is number `source` there. -/
def valuesOf (source : Nat) (e : TExpr) : Analysis (List PairValue) := do
  if e.types.isEmpty then
    report .mismatch e.pos "expression yields no value"
    return [⟨source, e.pos, 0, .failed⟩]
  return e.types.zipIdx.map fun (t, i) => ⟨source, e.pos, i, t⟩

/-- Elaborate the expressions on the right, the first of which is number `source` there. -/
def values (source : Nat) : List Expr → Analysis (List TExpr × List PairValue)
  | [] => return ([], [])
  | e :: es => do
    let e ← expr e
    let vs ← valuesOf source e
    let (es, more) ← values (source + 1) es
    return (e :: es, vs ++ more)

/-- A declared local without a value is zero, empty or constructed without arguments. -/
def defaultInit (t : TTarget) (l : Local) : Analysis Pair := do
  if l.type.modifier.isConst then
    report .mismatch l.pos ("constant '" ++ l.name ++ "' needs an initializer")
  match l.type with
  | .error _ => return ⟨.empty, t, []⟩
  | .scalar .. | .ptr .. => return ⟨.copy, t, []⟩
  | .container .. => return ⟨.containerCreate, t, []⟩
  | .cls _ c =>
    match ((← get).program.classOf c).resolve "create" [] [.create] with
    | .ok f => return ⟨.user f, t, []⟩
    | .error e =>
      report .overload l.pos
        ("class " ++ c.name ++ " has no default create: " ++ e.message)
      return ⟨.empty, t, []⟩

/-- Declared locals are created, all else is assigned. -/
def kindFor (t : TTarget) : FuncKind := if t.local?.isSome then .create else .assign

/-- How one target gets no or several values, which are the arguments of a create or assign. -/
def gather (target : TTarget) (t : Ty) (vs : List PairValue) : Analysis Pair := do
  let args := vs.map PairValue.type
  if args.any Ty.isError || t.isError then return ⟨.empty, target, vs⟩
  let kind := kindFor target
  match construct (← get).program.classOf t kind args with
  | .error e =>
    report .overload target.pos
      ("cannot " ++ kind.name ++ " " ++ t.text ++ " from " ++ Ty.listText args ++ ": " ++
        e.message)
    return ⟨.empty, target, vs⟩
  | .ok (.call f) => return ⟨.user f, target, vs⟩
  | .ok _ =>
    bug s!"builtin construction from {vs.length} values"
    return ⟨.empty, target, vs⟩

/-- How a target gets one value, which is a result of `source`. A new local that is not atomic is
written by the function that yields the value. -/
def classify (target : TTarget) (t : Ty) (source : TExpr) (v : PairValue) : Analysis Pair := do
  let failed : Pair := ⟨.empty, target, [v]⟩
  if t.isError || v.type.isError then return failed
  if target.local?.isSome && !t.isAtomic && source.callsFunction && t.identical v.type then
    return ⟨.initializedByCaller, target, [v]⟩
  let kind := kindFor target
  match construct (← get).program.classOf t kind [v.type] with
  | .error e =>
    let what := "cannot " ++ kind.name ++ " " ++ t.text ++ " from " ++ v.type.text
    if t.isClass then report .overload v.pos (what ++ ": " ++ e.message)
    else report .mismatch v.pos what
    return failed
  | .ok .copy => return ⟨if t.isContainer then .containerCopy else .copy, target, [v]⟩
  | .ok .alloc => return ⟨.containerCreate, target, [v]⟩
  | .ok .address =>
    if v.type.isAtomic && !source.isInMemory then
      report .mismatch v.pos ("cannot point " ++ t.text ++ " at a value without storage")
      return failed
    return ⟨.addressOf, target, [v]⟩
  | .ok (.call f) => return ⟨.user f, target, [v]⟩
  | .ok .unknown => return failed

/-- The pairs and discarded calls of an assignment without values. -/
def withoutValues : List TTarget → Analysis (List Pair × List TExpr)
  | [] => return ([], [])
  | t :: ts => do
    match t with
    | .decl _ l =>
      let p ← defaultInit t l
      let (ps, ds) ← withoutValues ts
      return (p :: ps, ds)
    | .expr e =>
      if e.isCall then
        let (ps, ds) ← withoutValues ts
        return (ps, e :: ds)
      else
        warn .mismatch e.pos "expression has no effect"
        withoutValues ts

/-- The pairs of as many targets as values. -/
def oneByOne (sources : List TExpr) : List (TTarget × Ty) → List PairValue → Analysis (List Pair)
  | (target, t) :: ts, v :: vs => do
    let p ← match sources[v.source]? with
      | some e => classify target t e v
      | none => pure ⟨.empty, target, [v]⟩
    return p :: (← oneByOne sources ts vs)
  | _, _ => return []

/-- The pairs of an assignment with values. -/
def withValues (pos : Position) (targets : List (TTarget × Ty)) (sources : List TExpr)
    (vs : List PairValue) : Analysis (List Pair) := do
  match targets with
  | [(target, t)] =>
    if vs.length = 1 then oneByOne sources targets vs
    else return [← gather target t vs]
  | _ =>
    if vs.length = targets.length then oneByOne sources targets vs
    else
      report .mismatch pos
        s!"assignment mismatch: {targets.length} targets but {vs.length} values"
      return targets.map fun (target, _) => ⟨.empty, target, []⟩

/-- Elaborate the targets of an assignment. -/
def targets (hasValues : Bool) : List Target → Analysis (List (TTarget × Ty))
  | [] => return []
  | t :: ts => do
    let t ← target hasValues t
    return t :: (← targets hasValues ts)

/-- Elaborate an assignment. Locals become visible only after the values they get. -/
def assign (pos : Position) (ts : List Target) (es : List Expr) : Analysis TStmt := do
  let ts ← targets (!es.isEmpty) ts
  let (sources, vs) ← values 0 es
  for (t, _) in ts do
    match t.local? with
    | some l => modify fun c => (c.insertLocal l).1
    | none => pure ()
  if es.isEmpty then
    let (pairs, discarded) ← withoutValues (ts.map Prod.fst)
    return .assign pos (ts.map Prod.fst) sources pairs discarded
  let pairs ← withValues pos ts sources vs
  return .assign pos (ts.map Prod.fst) sources pairs []

/-! ## Statements -/

/-- Elaborate a condition, which has to be boolean. -/
def condition (e : Expr) : Analysis TExpr := do
  let e ← expr e
  let t ← single e
  if !t.isError && !t.isBool then
    report .mismatch e.pos ("condition must be bool, found " ++ t.text)
  return e

/-- A jump out of a loop has to be inside one. -/
def checkJump (pos : Position) (word : String) : Analysis Unit := do
  if !(← get).inLoop then report .malformed pos (word ++ " outside of a loop")

mutual

/-- Elaborate a statement. The condition of a `repeat` sees the locals of its body. -/
def statement : Stmt → Analysis TStmt
  | .assign pos ts es => assign pos ts es
  | .ifThen pos cond body => do
    let cond ← condition cond
    let (scope, body) ← inScope (statements body)
    return .ifThen pos cond scope body
  | .ifElse pos cond body other => do
    let cond ← condition cond
    let (scope, body) ← inScope (statements body)
    let (otherScope, other) ← inScope (statements other)
    return .ifElse pos cond scope body otherScope other
  | .whileLoop pos cond body => do
    let cond ← condition cond
    let (scope, body) ← inLoop (inScope (statements body))
    return .whileLoop pos cond scope body
  | .repeatUntil pos body cond => do
    let (scope, body, cond) ← inScope do
      let body ← inLoop (statements body)
      return (body, ← condition cond)
    return .repeatUntil pos scope body cond
  | .block pos body => do
    let (scope, body) ← inScope (statements body)
    return .block pos scope body
  | .ret pos => return .ret pos
  | .brk pos => do
    checkJump pos "break"
    return .brk pos
  | .cont pos => do
    checkJump pos "continue"
    return .cont pos

/-- Elaborate statements in order. -/
def statements : List Stmt → Analysis (List TStmt)
  | [] => return []
  | s :: ss => do
    let s ← statement s
    return s :: (← statements ss)

end

end Lane.Analysis
