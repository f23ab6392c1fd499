import Lane.Lowering.Stmt

set_option relaxedAutoImplicit false
set_option autoImplicit false

/-!
# Lowering programs

Every member function has a declaration of code, and every function without errors has a body.
Nothing is lowered if a class has no layout.

## Main definitions

* `Lane.Lowering.declare`: the declarations of the functions of a program.
* `Lane.Lowering.function`: the code of a function.
* `Lane.Lowering.program`: the code of a program.
-/

namespace Lane.Lowering

open Lane.Code

/-! ## Declarations -/

/-- The type with which a parameter is passed: atomic values by value unless they are `ref`, and all
else by address. -/
def paramType (t : Ty) : VType :=
  if t.isAtomic && t.modifier != .ref then t.code else .ptr

/-- The word that stands for an operator in identifiers. -/
def operatorWord : String → String
  | "+" => "add"
  | "-" => "sub"
  | "*" => "mul"
  | "/" => "div"
  | "%" => "rem"
  | "==" => "eq"
  | "!=" => "ne"
  | "<" => "lt"
  | "<=" => "le"
  | ">" => "gt"
  | ">=" => "ge"
  | "and" => "and"
  | "or" => "or"
  | "xor" => "xor"
  | "not" => "not"
  | _ => ""

/-- The identifier of the function that is declared as number `n`. -/
def identifier (f : MemberFunction) (n : Nat) : String :=
  let name := if f.kind = .operator then "operator_" ++ operatorWord f.name else f.name
  f.cls.name ++ "." ++ name ++ "." ++ toString n

/-- Whether a function has nothing to do. -/
def isTrivial (e : Elaborated) (f : MemberFunction) : Bool :=
  if f.isGenerated then (e.program.classOf f.cls).vars.isEmpty
  else ((e.body? f).map fun b => b.body.isEmpty).getD true

/-- The declaration of a member function. -/
def memberDecl (e : Elaborated) (f : MemberFunction) (n : Nat) : FuncDecl where
  id := identifier f n
  params :=
    (if f.hasSelf then [VType.ptr] else []) ++
      (f.sig.params ++ f.sig.hiddenResults).map fun p => paramType p.type
  results := f.sig.valueResults.map fun p => p.type.code
  isTrivial := isTrivial e f

/-- The declaration of a foreign function. -/
def foreignDecl (f : Foreign) : FuncDecl where
  id := f.name
  params := f.sig.params.map fun p => p.type.code
  results := f.sig.results.map fun p => p.type.code
  isForeign := true

/-- The declarations of a program. -/
structure Declared where
  registry : Registry := {}
  decls : List ((Nat × Nat) × FuncDecl) := []
  foreigns : List (String × FuncDecl) := []

/-- Add a declaration to a registry, where its identifier has to be new. -/
def register (r : Registry) (d : FuncDecl) : Checked Registry :=
  match r.declare d with
  | .ok r => .ok r
  | .error m => broken m

/-- Declare foreign functions, leaving out those with types that failed to be analysed. -/
def declareForeigns : List Foreign → Declared → Checked Declared
  | [], d => return d
  | f :: fs, d => do
    if f.sig.isBroken then declareForeigns fs d
    else
      let decl := foreignDecl f
      let registry ← register d.registry decl
      declareForeigns fs { d with registry, foreigns := d.foreigns ++ [(f.name, decl)] }

/-- Declare member functions, leaving out those with types that failed to be analysed. -/
def declareMembers (e : Elaborated) : List MemberFunction → Declared → Checked Declared
  | [], d => return d
  | f :: fs, d => do
    if f.sig.isBroken then declareMembers e fs d
    else
      let decl := memberDecl e f d.decls.length
      let registry ← register d.registry decl
      declareMembers e fs
        { d with registry, decls := d.decls ++ [((f.cls.id, f.index), decl)] }

/-- Declare all functions of a program. -/
def declare (e : Elaborated) : Checked Declared := do
  let d ← declareForeigns e.program.foreigns {}
  declareMembers e (e.program.classes.flatMap Class.funcs) d

/-! ## Functions -/

/-- Whether a parameter arrives as an address. -/
def isByAddress (t : Ty) : Bool := !t.isAtomic || t.modifier == .ref

/-- Bind a parameter that arrives as an address. -/
def bindAddress (p : Param) : Lower Operand := do
  let v ← newVar p.name .ptr
  setStorage p.localId (.memory (.var v))
  return .var v

/-- Bind a parameter or result that is a variable. -/
def bindValue (p : Param) : Lower Operand := do
  let v ← newVar p.name p.type.code
  setStorage p.localId (.var v)
  return .var v

/-- Where a parameter is. -/
def paramPlace (p : Param) : Lower Place := do
  match (← get).locals.lookup p.localId with
  | some s => return .ofStorage p.type s
  | none => throw .missing

/-- Copy a parameter that the function may change but that arrived as an address. -/
def ownCopy (p : Param) : Lower Unit := do
  let src ← paramPlace p
  let addr ← temp p.type
  copyValue (.memory addr none p.type) src
  setStorage p.localId (.memory addr)

/-- Bind the instance, the parameters and the results. A parameter that may be changed is copied,
and the results that are not atomic are constructed in the storage of the caller. -/
def prologue (f : MemberFunction) : Lower (List Operand × List Operand) := do
  let self ← if f.hasSelf then do
      let v ← newVar "self" .ptr
      setStorage f.selfId (.memory (.var v))
      pure [Operand.var v]
    else pure []
  let ins ← f.sig.params.mapM fun p =>
    if isByAddress p.type then bindAddress p else bindValue p
  let hidden ← f.sig.hiddenResults.mapM bindAddress
  let outs ← f.sig.valueResults.mapM bindValue
  (f.sig.params.filter fun p => !p.type.isAtomic && p.type.modifier == .var).forM ownCopy
  f.sig.hiddenResults.forM fun p => do defaultValue (← paramPlace p)
  return (self ++ ins ++ hidden, outs)

/-- The body of a function that the compiler added: every member variable is constructed, copied or
assigned. -/
def generated (f : MemberFunction) : Lower Unit := do
  let self : Place ← match (← get).locals.lookup f.selfId with
    | some s => pure (.ofStorage (.ofClass f.cls) s)
    | none => throw .missing
  let vars := ((← read).program.classOf f.cls).vars
  match f.isCopy, f.sig.params with
  | false, _ =>
    vars.forM fun v => do
      defaultValue (self.field (← memberOf v) v.type)
  | true, p :: _ =>
    let other ← paramPlace p
    vars.forM fun v => do
      let m ← memberOf v
      let dst := self.field m v.type
      let src := other.field m v.type
      if f.kind = .assign then assignValue dst src else copyValue dst src
  | true, [] => throw .missing

/-- The code of a function. -/
def function (env : Env) (e : Elaborated) (f : MemberFunction) : Checked Function := do
  let build : Lower (List Operand × List Operand) := do
    let bound ← prologue f
    if f.isGenerated then generated f
    else statements none (((e.body? f).map FuncBody.body).getD [])
    return bound
  let ((params, results), b) ← (build.run env).run {}
  let fn : Function :=
    ⟨env.current, params, results, b.vars, b.slots, Function.frame b.code⟩
  match fn.verify with
  | none => return fn
  | some flaw => broken (flaw.message fn)

/-- The code of the functions that have a declaration and no errors. -/
def functions (env : FuncDecl → Env) (e : Elaborated) (d : Declared) :
    List MemberFunction → Checked (List Function)
  | [] => return []
  | f :: fs => do
    match (d.decls.lookup (f.cls.id, f.index)).filter fun _ => e.isClean f with
    | none => functions env e d fs
    | some decl =>
      let fn ← function (env decl) e f
      return fn :: (← functions env e d fs)

end Lane.Lowering

namespace Lane

open Code Lowering

/-- The width that packed code has unless another is asked for. -/
def defaultWidth : Nat := 4

/-- A lowered program. Its width is the number of instances that packed code works on. -/
structure LoweredProgram where
  module : Module
  layouts : Layouts
  declared : Declared
  width : Nat
  isOk : Bool

/-- The code of a program whose classes are all laid out. -/
def Elaborated.lowerWith (e : Elaborated) (module : Module) (layouts : Layouts) (width : Nat) :
    Checked LoweredProgram := do
  let declared ← declare e
  let env (current : FuncDecl) : Env :=
    ⟨e.program, layouts, declared.decls, declared.foreigns, width, current⟩
  let functions ← functions env e declared (e.program.classes.flatMap Class.funcs)
  return ⟨{ module with registry := declared.registry, functions }, layouts, declared, width, true⟩

/-- Lower an elaborated program, and add what is found to the diagnostics. -/
def Elaborated.lower (e : Elaborated) (name : String) (width : Int) (ds : Diagnostics) :
    Diagnostics × Checked LoweredProgram :=
  let width := if width ≤ 0 then defaultWidth else width.toNat
  let layouts := layoutAll e.program ds
  let module : Module := { name, structs := layouts.structs }
  (layouts.diagnostics,
    if layouts.classes.any fun (_, s) => s.isNone then .ok ⟨module, layouts, {}, width, false⟩
    else e.lowerWith module layouts width)

end Lane
