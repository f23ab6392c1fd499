import Lane.Code.Instr

set_option relaxedAutoImplicit false
set_option autoImplicit false

/-!
# Functions and modules of code

The body of a function is one list of instructions. It opens with the entry label and the binding of
the parameters, and closes with the epilogue label and the results.

## Main definitions

* `Lane.Code.Function`: a function of code.
* `Lane.Code.Function.verify`: whether the body is well formed.
* `Lane.Code.Registry`: the declarations of a module.
* `Lane.Code.Module`: structs, declarations and functions.
-/

namespace Lane.Code

/-- A function of code. -/
structure Function where
  decl : FuncDecl
  params : List Operand := []
  results : List Operand := []
  vars : List Var := []
  slots : List Slot := []
  body : List Instr
  deriving Repr, Inhabited

namespace Function

/-- The body around the instructions of a function. -/
def frame (code : List Instr) : List Instr :=
  [.label .entry, .params] ++ code ++ [.label .epilogue, .results]

/-- The instructions between the binding of the parameters and the epilogue. -/
def instrs (f : Function) : List Instr :=
  ((f.body.dropWhile fun i => !i.isParams).drop 1).takeWhile fun i =>
    !i.isLabelOf .epilogue

/-- How many instructions of the body have a word. -/
def count (f : Function) (name : String) : Nat :=
  (f.instrs.filter fun i => i.name == name).length

/-- The words of the instructions of the body. -/
def shape (f : Function) : List String := f.instrs.map Instr.name

/-- Why a body is not well formed. -/
inductive Flaw where
  | opening
  | closing
  /-- A jump to a label that is not in the body. -/
  | target (i : Instr)
  | reassigned (r : Reg)
  deriving Repr, Inhabited

/-- The message about a flaw. -/
def Flaw.message (f : Function) : Flaw → String
  | .opening => f.decl.id ++ ": entry label and parameter binding must open the function"
  | .closing => f.decl.id ++ ": epilogue and result binding must close the function"
  | .target i =>
    f.decl.id ++ ": " ++ i.text f.params f.results ++ " targets a label outside the stream"
  | .reassigned r => f.decl.id ++ ": register " ++ (Operand.reg r).text ++ " assigned twice"

/-- Whether the body opens as it should. -/
def opens : List Instr → Bool
  | .label l :: .params :: _ => l.id == Label.entry.id
  | _ => false

/-- Whether the body closes as it should. -/
def closes (body : List Instr) : Bool :=
  match body.reverse with
  | .results :: .label l :: _ => l.id == Label.epilogue.id
  | _ => false

/-- The first flaw in the rest of a body, some registers being assigned before. -/
def firstFlaw (body : List Instr) : List Instr → List Reg → Option Flaw
  | [], _ => none
  | i :: rest, assigned =>
    if i.targets.any fun l => !body.any (Instr.isLabelOf l) then some (.target i)
    else match i.dst? with
      | some (.reg r) =>
        if assigned.contains r then some (.reassigned r) else firstFlaw body rest (r :: assigned)
      | _ => firstFlaw body rest assigned

/-- The first flaw of a body: its ends, then jumps out of it and registers that are assigned
twice. -/
def verify (f : Function) : Option Flaw :=
  if !opens f.body then some .opening
  else if !closes f.body then some .closing
  else firstFlaw f.body f.body []

/-- A function as text. -/
def text (f : Function) : String :=
  "func " ++ f.decl.text ++ " \x7b\n" ++
    String.join (f.slots.map fun s =>
      "\tslot " ++ (Operand.slot s).text ++ s!" size {s.size} align {s.align}\n") ++
    String.join (f.body.map fun i =>
      (if i.isLabel then "" else "\t") ++ i.text f.params f.results ++ "\n") ++
    "\x7d\n"

end Function

/-- The declarations of a module, and the packed versions of scalar functions. -/
structure Registry where
  decls : List FuncDecl := []
  /-- The packed version of the function with an identifier, the newest first. -/
  packed : List (String × FuncDecl) := []
  deriving Repr, Inhabited

namespace Registry

/-- The declaration with an identifier. -/
def lookup? (r : Registry) (id : String) : Option FuncDecl := r.decls.find? fun d => d.id == id

/-- Add a declaration, unless its identifier is taken. -/
def declare (r : Registry) (d : FuncDecl) : Except String Registry :=
  if (r.lookup? d.id).isSome then .error ("function " ++ d.id ++ " declared twice")
  else .ok { r with decls := r.decls ++ [d] }

/-- Record the packed version of a function. -/
def mapPacked (r : Registry) (scalar packed : FuncDecl) : Registry :=
  { r with packed := (scalar.id, packed) :: r.packed }

/-- The packed version of a function. -/
def packed? (r : Registry) (scalar : FuncDecl) : Option FuncDecl := r.packed.lookup scalar.id

/-- The declarations as text, with what distinguishes them. -/
def texts (r : Registry) : List String :=
  r.decls.map fun d =>
    d.text ++ (if d.isTrivial then " trivial" else "") ++ if d.isForeign then " extern" else ""

end Registry

/-- A module of code. -/
structure Module where
  name : String
  registry : Registry := {}
  structs : List Struct := []
  functions : List Function := []
  deriving Repr, Inhabited

namespace Module

/-- The function with an identifier. -/
def function? (m : Module) (id : String) : Option Function :=
  m.functions.find? fun f => f.decl.id == id

/-- A module as text. -/
def text (m : Module) : String :=
  String.join (m.structs.map fun s => s.text ++ "\n") ++
    String.join ((m.registry.decls.filter FuncDecl.isForeign).map fun d =>
      "extern " ++ d.text ++ "\n") ++
    String.join (m.functions.map fun f => "\n" ++ f.text)

end Module

end Lane.Code
