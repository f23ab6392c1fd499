import Lane.Lowering.Program
import Lane.Packing.Widen

set_option relaxedAutoImplicit false
set_option autoImplicit false

/-!
# Packed programs

Every `simd` function of a `simd` class with a packed layout gets a packed version. All packed
versions are declared before any of them is made, so that they may call each other.

## Main definitions

* `Lane.Packing.declLanes`: the lanes of the parameters and results of a function.
* `Lane.LoweredProgram.pack`: add packed versions to a program.
-/

namespace Lane.Packing

open Lane.Code

/-- The lane kind of an atomic value: scalars vary, pointers are shared. -/
def valueLane : Ty → LaneKind
  | .scalar .. => .varying
  | _ => .uniform

/-- The lane kind of a parameter: classes with a packed layout and scalars passed by address are
packed. -/
def paramLane (l : PackedLayouts) : Ty → LaneKind
  | .cls _ c => if c.isSimd && (l.struct? c).isSome then .packed else .uniform
  | .scalar .ref _ => .packed
  | t => valueLane t

/-- The identifier of the packed version of a function. -/
def packedId (width : Nat) (d : FuncDecl) : String := d.id ++ ".x" ++ toString width

/-- The packed declaration of a function, with the lanes of its parameters and results. -/
def declLanes (l : PackedLayouts) (width : Nat) (f : MemberFunction) (d : FuncDecl) : DeclLanes :=
  let params := (if f.hasSelf then [LaneKind.packed] else []) ++
    (f.sig.params ++ f.sig.hiddenResults).map fun p => paramLane l p.type
  let results := f.sig.valueResults.map fun p => valueLane p.type
  let types (ts : List VType) (ls : List LaneKind) : List VType :=
    (ts.zip ls).map fun (t, lane) => lane.type width t
  { decl :=
      { id := packedId width d
        params := types d.params params
        results := types d.results results
        isTrivial := d.isTrivial }
    params
    results }

/-- A function to pack, with its scalar code. -/
structure Task where
  fn : MemberFunction
  scalar : Function
  deriving Repr, Inhabited

/-- The functions to pack: those of `simd` classes with a packed layout that are declared `simd` and
have code. -/
def tasks (e : Elaborated) (p : LoweredProgram) (l : PackedLayouts) : List Task :=
  let classes := e.program.classes.filter fun c => c.ref.isSimd && (l.struct? c.ref).isSome
  (classes.flatMap Class.funcs).filterMap fun f =>
    if f.isSimd && !f.isGenerated && e.isClean f then do
      let d ← p.declared.decls.lookup (f.cls.id, f.index)
      let scalar ← p.module.function? d.id
      return ⟨f, scalar⟩
    else none

/-- Declare the packed versions of functions. -/
def declareAll (l : PackedLayouts) (width : Nat) :
    List Task → Registry → Checked (Registry × List (String × DeclLanes))
  | [], r => return (r, [])
  | t :: ts, r => do
    let d := declLanes l width t.fn t.scalar.decl
    let r ← Lowering.register r d.decl
    let (r, ds) ← declareAll l width ts (r.mapPacked t.scalar.decl d.decl)
    return (r, (t.scalar.decl.id, d) :: ds)

/-- The packed functions and what was found while making them. A fault ends the work. -/
structure PackedFunctions where
  functions : List Function := []
  diagnostics : Diagnostics := {}
  errors : Nat := 0
  fault : Option Fault := none
  deriving Repr, Inhabited

/-- The error about a function that has no packed version. -/
def Obstacle.report (o : Obstacle) (f : MemberFunction) : Diagnostic :=
  .error .notVectorizable f.pos (f.qualifiedName ++ " cannot be vectorized: " ++ o.message)

/-- Make packed versions, and report the functions that have none. -/
def packFunctions (env : PackEnv) : List Task → PackedFunctions → PackedFunctions
  | [], r => r
  | t :: ts, r =>
    match env.packed? t.scalar.decl with
    | none => { r with fault := some .missing }
    | some d =>
      match packFunction env d t.scalar with
      | .ok f => packFunctions env ts { r with functions := r.functions ++ [f] }
      | .error (.obstacle o) =>
        packFunctions env ts
          { r with
            diagnostics := r.diagnostics.push (o.report t.fn)
            errors := r.errors + 1 }
      | .error (.fault f) => { r with fault := some f }

end Lane.Packing

namespace Lane

open Code Packing

/-- A program with packed versions of its functions. -/
structure PackedProgram where
  module : Module
  isOk : Bool
  deriving Repr, Inhabited

/-- Add packed versions to a program, and what is found to the diagnostics. -/
def LoweredProgram.pack (p : LoweredProgram) (e : Elaborated) (ds : Diagnostics) :
    Diagnostics × Checked PackedProgram :=
  let layouts := packAll e.program p.layouts p.width ds
  let tasks := tasks e p layouts
  match declareAll layouts p.width tasks p.module.registry with
  | .error f => (layouts.diagnostics, .error f)
  | .ok (registry, decls) =>
    let packed := packFunctions ⟨layouts, decls, p.width⟩ tasks
      { diagnostics := layouts.diagnostics }
    let module : Module :=
      { p.module with
        registry
        structs := p.module.structs ++ layouts.structs
        functions := p.module.functions ++ packed.functions }
    (packed.diagnostics,
      match packed.fault with
      | some f => .error f
      | none => .ok ⟨module, layouts.errors + packed.errors == 0⟩)

end Lane
