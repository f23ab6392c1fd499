import Lane.Diagnostic
import Lane.Fault
import Lane.Typing.Resolve
import Lane.Typing.Scope

set_option relaxedAutoImplicit false
set_option autoImplicit false

/-!
# The context of an analysis

What is known while a program is analysed: its declarations, the scopes that are open, the class and
function under analysis, and the diagnostics so far. Entering a scope, class, function or loop gives
the way back out, which only fits while the scopes entered later have been left.

## Main definitions

* `Lane.Context`: the state of an analysis.
* `Lane.Leave`, `Lane.Context.leave`: the way back out of what was entered.
* `Lane.Context.insertLocal`: bind a local in the current scope.
-/

namespace Lane

/-- The function under analysis: its name, the depth of its root scope, and its instance. -/
structure Frame where
  name : String
  depth : Nat
  self : Option Local
  deriving DecidableEq, Repr, Inhabited

/-- The state of an analysis. Of the scopes the innermost comes first. -/
structure Context where
  program : Program := {}
  diagnostics : Diagnostics := {}
  errors : Nat := 0
  scopes : List Scope := []
  cls : Option ClassRef := none
  function : Option Frame := none
  loops : Int := 0
  nextLocal : Nat := 0
  /-- The first promise inside the compiler that was found broken. -/
  fault : Option Fault := none
  deriving Repr, Inhabited

/-- The way back out of what was entered. -/
inductive Leave where
  | scope (depth : Nat)
  | cls (outer : Option ClassRef)
  | function (depth : Nat) (outer : Option Frame) (loops : Int)
  | loop
  deriving Repr, Inhabited

namespace Context

/-- Report an error. -/
def report (c : Context) (kind : DiagnosticKind) (pos : Position) (message : String) : Context :=
  { c with
    diagnostics := c.diagnostics.push ⟨.error, kind, pos, message⟩
    errors := c.errors + 1 }

/-- Report a warning. -/
def warn (c : Context) (kind : DiagnosticKind) (pos : Position) (message : String) : Context :=
  { c with diagnostics := c.diagnostics.push ⟨.warning, kind, pos, message⟩ }

/-- Note that a promise is broken, unless one was before. -/
def fail (c : Context) (x : Fault) : Context := { c with fault := c.fault.or (some x) }

/-- Whether no error was reported. -/
def isOk (c : Context) : Bool := c.errors == 0

/-- The number of open scopes. -/
def depth (c : Context) : Nat := c.scopes.length

/-- Whether a loop is open in the current function. -/
def inLoop (c : Context) : Bool := c.loops > 0

/-- Open a scope inside the current one; without a current one it is a root. -/
def enterScope (c : Context) : Context × Leave :=
  let c := { c with scopes := { isRoot := c.scopes.isEmpty } :: c.scopes }
  (c, .scope c.depth)

/-- Make a class current. -/
def enterClass (c : Context) (r : ClassRef) : Context × Leave :=
  ({ c with cls := some r }, .cls c.cls)

/-- Make a function current and open its root scope. -/
def enterFunction (c : Context) (name : String) (self : Option Local) (locals : List Local) :
    Context × Leave :=
  let scopes := { locals, isRoot := true } :: c.scopes
  ({ c with scopes, loops := 0, function := some ⟨name, scopes.length, self⟩ },
    .function scopes.length c.function c.loops)

/-- Open a loop. -/
def enterLoop (c : Context) : Context × Leave := ({ c with loops := c.loops + 1 }, .loop)

/-- Close the current scope, which has to be at the given depth. -/
def closeScope (c : Context) (depth : Nat) : Checked Context :=
  if c.depth = depth then .ok { c with scopes := c.scopes.tail }
  else
    broken s!"scope stack out of balance: depth {c.depth}, expected {depth}"

/-- Step back out. -/
def leave (c : Context) : Leave → Checked Context
  | .scope depth => c.closeScope depth
  | .cls outer => .ok { c with cls := outer }
  | .function depth outer loops => do
    let c ← c.closeScope depth
    return { c with function := outer, loops }
  | .loop => .ok { c with loops := c.loops - 1 }

/-- Step back out, or note that this does not fit. -/
def left (c : Context) (out : Leave) : Context :=
  match c.leave out with
  | .ok c => c
  | .error x => c.fail x

/-- The root scope of the current function, unless it is the current scope. -/
def outerRoot? (c : Context) : Option Scope :=
  match c.function with
  | none => none
  | some f => if c.depth = f.depth then none else c.scopes.reverse[f.depth - 1]?

/-- Bind a local in the current scope and say whether it could be. A name that is bound in this
scope already, or that names a parameter of the current function, is a duplicate. -/
def insertLocal (c : Context) (l : Local) : Context × Bool :=
  match (c.outerRoot?.bind fun s => s.find? l.name).filter Local.isParam with
  | some p =>
    (c.report .duplicate l.pos
      ("'" ++ l.name ++ "' collides with parameter declared at " ++ p.pos.describe), false)
  | none =>
    match c.scopes with
    | [] => (c, false)
    | s :: below =>
      match s.insert l with
      | .ok s => ({ c with scopes := s :: below }, true)
      | .error prev =>
        (c.report .duplicate l.pos
          ("'" ++ l.name ++ "' is already declared at " ++ prev.pos.describe), false)

/-- The binding of a name. -/
def lookup? (c : Context) (name : String) : Option Local := Scope.lookup? name c.scopes

/-- The binding of a name in the current scope. -/
def lookupHere (c : Context) (name : String) : Checked (Option Local) :=
  (require c.scopes.head?).map fun s => s.find? name

/-- The binding of a name in the root of the current scope. -/
def lookupRoot (c : Context) (name : String) : Checked (Option Local) :=
  (require (Scope.root? c.scopes)).map fun s => s.find? name

end Context

/-- Computations that analyse a part of a program. -/
abbrev Analysis := StateM Context

namespace Analysis

/-- Report an error. -/
def report (kind : DiagnosticKind) (pos : Position) (message : String) : Analysis Unit :=
  modify fun c => c.report kind pos message

/-- Report a warning. -/
def warn (kind : DiagnosticKind) (pos : Position) (message : String) : Analysis Unit :=
  modify fun c => c.warn kind pos message

/-- Note that a stage before this one broke a promise. -/
def bug (what : String) : Analysis Unit := modify fun c => c.fail (.broken what)

/-- Enter something, and give the way back out. -/
def enter (f : Context → Context × Leave) : Analysis Leave := modifyGet fun c => (f c).swap

/-- The first number for the locals of another function, numbered anew. -/
def firstLocal : Analysis Nat := modifyGet fun c => (0, { c with nextLocal := 1 })

/-- A number that no local of the function has yet. -/
def freshLocal : Analysis Nat :=
  modifyGet fun c => (c.nextLocal, { c with nextLocal := c.nextLocal + 1 })

/-- Run an analysis in a scope of its own, and give the scope as it is in the end. -/
def inScope {α : Type} (inner : Analysis α) : Analysis (Scope × α) := do
  let out ← enter Context.enterScope
  let a ← inner
  modifyGet fun c => ((c.scopes.head?.getD {}, a), c.left out)

/-- Run an analysis inside a loop. -/
def inLoop {α : Type} (inner : Analysis α) : Analysis α := do
  let out ← enter Context.enterLoop
  let a ← inner
  modify fun c => c.left out
  return a

end Analysis

end Lane
