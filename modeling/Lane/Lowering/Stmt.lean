import Lane.Lowering.Expr

set_option relaxedAutoImplicit false
set_option autoImplicit false

/-!
# Lowering statements

Structured control flow becomes labels and jumps. An assignment evaluates all expressions on its
right before it changes any of its targets.

## Main definitions

* `Lane.Lowering.assign`: lower an assignment.
* `Lane.Lowering.statement`, `Lane.Lowering.statements`: lower statements.
-/

namespace Lane.Lowering

open Lane.Code

/-! ## Assignments -/

/-- The place that a pair writes to; a new local gets storage. -/
def targetPlace : TTarget → Lower Place
  | .decl _ l => do return .ofStorage l.type (← bindLocal l)
  | .expr e => (expr e).place

/-- The operand of a value of a pair, the operands of all expressions on the right being given. -/
def valueOf (operands : List (List Operand)) (v : PairValue) : Lower Operand := do
  match (operands.getD v.source [])[v.result]? with
  | some o => return o
  | none =>
    throw (.broken
      s!"value {v.result} of expression at {v.pos.describe} was not lowered")

/-- Store a value in a stack slot for a `ref` parameter. -/
def spillValue (o : Operand) : Lower Operand := do
  let slot ← newSlot "arg" o.type.size o.type.size none
  emit (.store slot none o)
  return slot

/-- The arguments of a create or assign whose values were evaluated before. -/
def givenArguments (operands : List (List Operand)) :
    List Param → List PairValue → Lower (List Operand)
  | _, [] => return []
  | [], _ :: _ => throw .missing
  | p :: ps, v :: vs => do
    let o ← valueOf operands v
    let o ← if p.type.isAtomic && p.type.modifier = .ref then spillValue o else pure o
    return o :: (← givenArguments operands ps vs)

/-- Carry out a pair. -/
def pair (operands : List (List Operand)) (p : Pair) : Lower Unit := do
  match p.kind, p.values with
  | .empty, _ =>
    match p.target with
    | .decl _ l => do
      let _ ← bindLocal l
    | .expr _ => return
  | .initializedByCaller, _ => return
  | .copy, [] =>
    let dst ← targetPlace p.target
    put dst (.const (.zero dst.type.code))
  | .copy, v :: _ | .addressOf, v :: _ =>
    let dst ← targetPlace p.target
    put dst (← valueOf operands v)
  | .containerCopy, v :: _ =>
    let dst ← targetPlace p.target
    copyContainer dst (.memory (← valueOf operands v) none v.type)
  | .containerCreate, [] => emptyContainer (← targetPlace p.target)
  | .containerCreate, v :: _ =>
    let dst ← targetPlace p.target
    allocContainer dst (← valueOf operands v)
  | .user f, vs =>
    let self ← address (← targetPlace p.target)
    let args ← givenArguments operands f.sig.params vs
    invoke f self args
  | .addressOf, [] | .containerCopy, [] => throw .missing

/-- Carry out pairs in order. -/
def pairs (operands : List (List Operand)) : List Pair → Lower Unit
  | [] => return
  | p :: ps => do
    pair operands p
    pairs operands ps

/-- A list with an entry set, filled up with nothing before it. -/
def setEntry (ds : List (Option Operand)) (i : Nat) (o : Operand) : List (Option Operand) :=
  (ds ++ List.replicate (i + 1 - ds.length) none).set i (some o)

/-- The storage of new locals that the functions called on the right write to, by the number of the
expression. -/
def destinations : List Pair → List (Nat × List (Option Operand)) →
    Lower (List (Nat × List (Option Operand)))
  | [], ds => return ds
  | p :: ps, ds => do
    match p.kind, p.target, p.values with
    | .initializedByCaller, .decl _ l, v :: _ =>
      match ← bindLocal l with
      | .memory addr =>
        let entry := setEntry ((ds.lookup v.source).getD []) v.result addr
        destinations ps ((v.source, entry) :: ds)
      | .var _ => destinations ps ds
    | _, _, _ => destinations ps ds

/-- Whether a pointer is pointed at the atomic value of an expression on the right. -/
def isPointee (ps : List Pair) (source : Nat) : Bool :=
  ps.any fun p => p.kind == .addressOf &&
    match p.values with
    | v :: _ => v.source == source && v.type.isAtomic
    | [] => false

/-- Copies of the variables among operands, so that later writes do not change them. -/
def snapshot : List Operand → Lower (List Operand)
  | [] => return []
  | .var v :: os => do
    let r ← compute .move v.type [.var v]
    return r :: (← snapshot os)
  | o :: os => do return o :: (← snapshot os)

/-- Evaluate the expressions on the right, the first of which is number `source`. -/
def evaluate (ps : List Pair) (dests : List (Nat × List (Option Operand))) :
    Nat → List TExpr → Lower (List (List Operand))
  | _, [] => return []
  | source, e :: es => do
    let os ← if isPointee ps source then do
        let a ← address (← (expr e).place)
        pure [a]
      else (expr e).values ((dests.lookup source).getD [])
    let os ← if ps.length > 1 then snapshot os else pure os
    return os :: (← evaluate ps dests (source + 1) es)

/-- Evaluate calls for their effect. -/
def discard : List TExpr → Lower Unit
  | [] => return
  | e :: es => do
    let _ ← (expr e).values []
    discard es

/-- Lower an assignment. A single create or assign takes its arguments directly. -/
def assign (values : List TExpr) (ps : List Pair) (discarded : List TExpr) : Lower Unit := do
  discard discarded
  let dests ← destinations ps []
  match ps with
  | [⟨.user f, target, vs⟩] =>
    if vs.all fun v => v.result == 0 then
      let self ← address (← targetPlace target)
      let (args, back) ← arguments f.sig.params (vs.filterMap fun v => values[v.source]?.map expr)
      invoke f self args
      writeBack back
      return
  | _ => pure ()
  let operands ← evaluate ps dests 0 values
  pairs operands ps

/-! ## Control flow -/

/-- Where `break` and `continue` lead. -/
structure Flow where
  leave : Label
  next : Label
  deriving Repr, Inhabited

mutual

/-- Whether a statement goes on with the next round of the loop around it. -/
def continues : TStmt → Bool
  | .cont _ => true
  | .ifThen _ _ _ b | .block _ _ b => anyContinues b
  | .ifElse _ _ _ b _ o => anyContinues b || anyContinues o
  | _ => false

/-- Whether one of several statements goes on with the next round of the loop around them. -/
def anyContinues : List TStmt → Bool
  | [] => false
  | s :: ss => continues s || anyContinues ss

end

mutual

/-- Lower a statement. The condition of a `repeat` sees the locals of its body, and has a label only
if a `continue` leads to it. -/
def statement (flow : Option Flow) : TStmt → Lower Unit
  | .assign _ _ values ps discarded => assign values ps discarded
  | .ifThen _ cond _ body => do
    let c ← (expr cond).value
    let yes ← newLabel "then"
    let next ← newLabel "next"
    emit (.branch c yes next)
    emit (.label yes)
    inBlock (statements flow body)
    emit (.label next)
  | .ifElse _ cond _ body _ other => do
    let c ← (expr cond).value
    let yes ← newLabel "then"
    let next ← newLabel "next"
    let no ← newLabel "else"
    emit (.branch c yes no)
    emit (.label yes)
    inBlock (statements flow body)
    emit (.goto next)
    emit (.label no)
    inBlock (statements flow other)
    emit (.label next)
  | .whileLoop _ cond _ body => do
    let header ← newLabel "header"
    let loop ← newLabel "loop"
    let out ← newLabel "out"
    emit (.label header)
    let c ← (expr cond).value
    emit (.branch c loop out)
    emit (.label loop)
    inBlock (statements (some ⟨out, header⟩) body)
    emit (.goto header)
    emit (.label out)
  | .repeatUntil _ _ body cond => do
    let loop ← newLabel "loop"
    let out ← newLabel "out"
    let next ← newLabel "cond"
    emit (.label loop)
    inBlock do
      statements (some ⟨out, next⟩) body
      if anyContinues body then emit (.label next)
      let c ← (expr cond).value
      emit (.branch c out loop)
    emit (.label out)
  | .block _ _ body => inBlock (statements flow body)
  | .ret _ => emit (.goto .epilogue)
  | .brk _ => do emit (.goto (← need flow).leave)
  | .cont _ => do emit (.goto (← need flow).next)

/-- Lower statements in order. -/
def statements (flow : Option Flow) : List TStmt → Lower Unit
  | [] => return
  | s :: ss => do
    statement flow s
    statements flow ss

end

end Lane.Lowering
