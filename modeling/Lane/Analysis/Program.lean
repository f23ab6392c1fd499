import Lane.Analysis.Stmt

set_option relaxedAutoImplicit false
set_option autoImplicit false

/-!
# Analysis of programs

Declarations are analysed in rounds, so that their order does not matter: first the names of all
classes, then their member variables, the foreign functions, the member functions, the members that
the compiler adds to every class, and last the bodies of the functions.

## Main definitions

* `Lane.Analysis.signature`: the signature and root scope of a function.
* `Lane.Analysis.declareGenerated`: the members that every class has.
* `Lane.Elaborated.ofSyntax`: elaborate a whole program.
-/

namespace Lane

namespace Analysis

/-- The modifier of a parameter. Values that are not atomic are passed by address, and may only be
read unless a qualifier allows more. -/
def paramModifier (q : Qualifier) (t : Ty) : Modifier :=
  match q with
  | .const | .cref => if t.isAtomic then .const else .cref
  | .ref => .ref
  | .var => .var
  | .none => if t.isAtomic then .var else .cref

/-! ## Classes and variables -/

/-- The number of a name, of which the characters are the digits. -/
def nameNumber (s : String) : Nat := s.toList.foldl (fun n c => n * 0x100000000 + c.toNat + 1) 0

/-- The name of a written class in types. Classes are told apart by their names. -/
def classRef (c : ClassSyntax) : ClassRef := ⟨nameNumber c.name, c.name, c.isSimd⟩

/-- Declare the classes; of several with one name the first counts. -/
def declareClasses : List ClassSyntax → Analysis (List (ClassRef × ClassSyntax))
  | [] => return []
  | c :: cs => do
    match (← get).program.addClass ⟨classRef c, c.pos, []⟩ with
    | .ok program =>
      modify fun ctx => { ctx with program }
      return (classRef c, c) :: (← declareClasses cs)
    | .error prev =>
      report .duplicate c.pos
        ("class " ++ c.name ++ " is already declared at " ++ prev.pos.describe)
      declareClasses cs

/-- Declare a member variable. A `simd` class has no members of other classes. -/
def declareVar (ref : ClassRef) (v : VarSyntax) : Analysis Unit := do
  let mut t ← resolveType v.type
  match t with
  | .cls _ c =>
    if ref.isSimd && !c.isSimd then
      report .containerUse v.pos
        ("simd class " ++ ref.name ++ " has member '" ++ v.name ++ "' of class " ++ c.name ++
          ", which is not declared simd")
      t := .failed
  | _ => pure ()
  match ((← get).program.classOf ref).addVar v.name v.pos t with
  | .ok (c, _) => modify fun ctx => { ctx with program := ctx.program.update c }
  | .error prev =>
    report .duplicate v.pos
      ("member '" ++ v.name ++ "' of " ++ ref.name ++ " is already declared at " ++
        prev.pos.describe)

/-- Declare the member variables of a class. -/
def declareVars (ref : ClassRef) (c : ClassSyntax) : Analysis Unit :=
  c.members.forM fun
    | .var v => declareVar ref v
    | .func _ => return

/-! ## Functions -/

/-- Declare a parameter or result in the root scope of its function. -/
def param (s : Scope) (p : ParamSyntax) (isOut : Bool) : Analysis (Scope × Param) := do
  let t ← resolveType p.type
  let t := t.withModifier (if isOut then .var else paramModifier p.qualifier t)
  let id ← freshLocal
  let param : Param := ⟨p.name, p.pos, t, isOut, id⟩
  match s.insert ⟨id, p.name, p.pos, t, .param param.isHidden⟩ with
  | .ok s => return (s, param)
  | .error prev =>
    report .duplicate p.pos
      ("parameter '" ++ p.name ++ "' is already declared at " ++ prev.pos.describe)
    return (s, param)

/-- Declare parameters or results in the root scope of their function. -/
def params (s : Scope) (isOut : Bool) : List ParamSyntax → Analysis (Scope × List Param)
  | [] => return (s, [])
  | p :: ps => do
    let (s, p) ← param s p isOut
    let (s, ps) ← params s isOut ps
    return (s, p :: ps)

/-- The signature and the root scope of a function. -/
def signature (ins outs : List ParamSyntax) : Analysis (Scope × Signature) := do
  let (s, ins) ← params { isRoot := true } false ins
  let (s, outs) ← params s true outs
  return (s, ⟨ins, outs⟩)

/-- The numbers of operands that an operator may have. -/
def operatorArity : String → Option (List Nat)
  | "-" => some [1, 2]
  | "not" => some [1]
  | "+" | "*" | "/" | "%" | "==" | "!=" | "<" | "<=" | ">" | ">=" | "and" | "or" | "xor" =>
    some [2]
  | _ => none

/-- Constructors and assignments have no results; operators have one, and an operand of their
class. -/
def checkShape (f : MemberFunction) : Analysis Unit := do
  match f.kind with
  | .create | .assign =>
    if !f.sig.results.isEmpty then
      report .mismatch f.pos (f.kind.name ++ " of " ++ f.cls.name ++ " cannot return results")
  | .operator =>
    match operatorArity f.name with
    | none => report .malformed f.pos ("unknown operator '" ++ f.name ++ "'")
    | some arity =>
      if !arity.contains f.sig.params.length || f.sig.results.length != 1 then
        report .mismatch f.pos
          ("operator " ++ f.name ++ " takes " ++ " or ".intercalate (arity.map toString) ++
            " parameters and returns one result")
      else if !f.sig.params.any fun p => p.type.identical (.ofClass f.cls) then
        report .mismatch f.pos
          ("operator " ++ f.name ++ " of " ++ f.cls.name ++ " must take a " ++ f.cls.name ++
            " operand")
  | _ => return

/-- The body of a declared function, still to be analysed. -/
structure Pending where
  fn : MemberFunction
  scope : Scope
  body : List Stmt

/-- Declare a member function. -/
def declareFunc (ref : ClassRef) (d : FuncSyntax) : Analysis (Option Pending) := do
  let selfId ← firstLocal
  let (scope, sig) ← signature d.params d.results
  let f : MemberFunction := ⟨ref, 0, d.kind, d.name, d.pos, d.isSimd, sig, selfId, false, false⟩
  checkShape f
  if f.isSimd && !ref.isSimd then
    report .notVectorizable d.pos
      ("simd " ++ f.kind.name ++ " " ++ f.name ++ " in class " ++ ref.name ++
        ", which is not declared simd")
  match ((← get).program.classOf ref).addFunc f with
  | .ok (c, f) =>
    modify fun ctx => { ctx with program := ctx.program.update c }
    return some ⟨f, scope, d.body⟩
  | .error prev =>
    report .duplicate d.pos
      ("redundant declaration of " ++ prev.describe ++ ", previous declaration at " ++
        prev.pos.describe)
    return none

/-- Declare the functions among the members of a class. -/
def declareFuncs (ref : ClassRef) : List MemberSyntax → Analysis (List Pending)
  | [] => return []
  | .var _ :: ms => declareFuncs ref ms
  | .func d :: ms => do
    let f ← declareFunc ref d
    return f.toList ++ (← declareFuncs ref ms)

/-- Declare the functions of all classes. -/
def declareAllFuncs : List (ClassRef × ClassSyntax) → Analysis (List Pending)
  | [] => return []
  | (ref, c) :: rest => do
    let fs ← declareFuncs ref c.members
    return fs ++ (← declareAllFuncs rest)

/-- Add a function of the compiler to a class, unless the class has one like it. -/
def generate (ref : ClassRef) (pos : Position) (kind : FuncKind) (isCopy : Bool) :
    Analysis Unit := do
  let selfId ← firstLocal
  let other : ParamSyntax := ⟨pos, "other", .cref, .name pos ref.name⟩
  let (_, sig) ← signature (if isCopy then [other] else []) []
  let f : MemberFunction :=
    ⟨ref, 0, kind, kind.name, pos, ref.isSimd, sig, selfId, true, isCopy⟩
  match ((← get).program.classOf ref).addFunc f with
  | .ok (c, _) => modify fun ctx => { ctx with program := ctx.program.update c }
  | .error _ => return

/-- Add the members that every class has: a create without arguments if no create is declared, and a
create and an assign from another instance. -/
def declareGenerated (ref : ClassRef) (pos : Position) : Analysis Unit := do
  if (((← get).program.classOf ref).lookup "create" [.create]).isEmpty then
    generate ref pos .create false
  generate ref pos .create true
  generate ref pos .assign true

/-! ## Foreign functions -/

/-- Declare a parameter or result of a foreign function, which has to be atomic. -/
def foreignParam (name : String) (isOut : Bool) (p : ParamSyntax) : Analysis Param := do
  let t ← resolveType p.type
  if !t.isError && !t.isAtomic then
    report .mismatch p.pos
      ("extern " ++ name ++ ": parameter '" ++ p.name ++
        "' must be a scalar or pointer, found " ++ t.text)
  return ⟨p.name, p.pos, t.withModifier .var, isOut, ← freshLocal⟩

/-- Declare a foreign function, which has at most one result. -/
def declareForeign (d : ForeignSyntax) : Analysis Unit := do
  let _ ← firstLocal
  let ins ← d.params.mapM (foreignParam d.name false)
  let outs ← d.results.mapM (foreignParam d.name true)
  if outs.length > 1 then
    report .mismatch d.pos ("extern " ++ d.name ++ " returns more than one result")
  match (← get).program.addForeign ⟨d.name, d.pos, ⟨ins, outs⟩⟩ with
  | .ok program => modify fun ctx => { ctx with program }
  | .error prev =>
    report .duplicate d.pos
      ("extern " ++ d.name ++ " is already declared at " ++ prev.pos.describe)

/-! ## Bodies -/

/-- The instance of a function. -/
def selfLocal (f : MemberFunction) : Option Local :=
  if f.hasSelf then
    some ⟨f.selfId, "self", f.pos, .cls (if f.hasConstSelf then .cref else .ref) f.cls, .self⟩
  else none

/-- Elaborate the body of a function in its root scope. -/
def functionBody (p : Pending) : Analysis FuncBody := do
  let outOfClass ← enter fun c => c.enterClass p.fn.cls
  let out ← enter fun c =>
    { c with nextLocal := p.fn.localCount }.enterFunction p.fn.name (selfLocal p.fn) p.scope.locals
  let before := (← get).errors
  let body ← statements p.body
  let after ← get
  set ((after.left out).left outOfClass)
  return ⟨p.fn, after.scopes.head?.getD {}, body, after.errors == before⟩

/-- All scopes that were opened are closed again. -/
def checkBalance : Analysis Unit := do
  let depth := (← get).depth
  if depth != 0 then bug s!"scope stack not empty after analysis: depth {depth}"

/-- Elaborate a whole program. -/
def program (tree : ProgramSyntax) : Analysis Elaborated := do
  let classes ← declareClasses tree.classes
  classes.forM fun (ref, c) => declareVars ref c
  tree.foreigns.forM declareForeign
  let pending ← declareAllFuncs classes
  classes.forM fun (ref, c) => declareGenerated ref c.pos
  let bodies ← pending.mapM functionBody
  checkBalance
  let ctx ← get
  return ⟨ctx.program, bodies, ctx.isOk⟩

end Analysis

/-- Elaborate a whole program, and add what is found to the diagnostics. -/
def Elaborated.ofSyntax (tree : ProgramSyntax) (ds : Diagnostics) : Elaborated × Diagnostics :=
  let (e, ctx) := Analysis.program tree { diagnostics := ds }
  (e, ctx.diagnostics)

end Lane
