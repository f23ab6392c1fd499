import Lane.Analysis.Program
import Lane.Packing.Program
import Lane.Syntax.Build

set_option relaxedAutoImplicit false
set_option autoImplicit false

/-!
# Compilations

A compilation takes a source text through its stages: it is parsed, analysed, lowered and packed. It
ends at the first stage that fails, or at the stage that was asked for.

## Main definitions

* `Lane.Stage`: the stages of a compilation.
* `Lane.Compilation`: what the stages so far have given.
* `Lane.Compilation.run`: take a source text through the stages.
-/

namespace Lane

/-- The stages of a compilation. -/
inductive Stage where
  | parse
  | analyze
  | lower
  | vectorize
  deriving DecidableEq, Repr, Inhabited

namespace Stage

/-- The word of a stage. -/
def name : Stage → String
  | .parse => "parse"
  | .analyze => "analyze"
  | .lower => "lower"
  | .vectorize => "vectorize"

end Stage

/-- What a compilation works on. -/
structure SourceText where
  file : String
  text : List Rune
  /-- The number of instances that packed code works on; the default if it is not positive. -/
  width : Int
  deriving Repr, Inhabited

/-- What the stages of a compilation have given so far. -/
structure Compilation where
  /-- The last stage that ran. -/
  stage : Stage
  /-- Whether that stage succeeded. -/
  isOk : Bool
  diagnostics : Diagnostics
  tree : Option ProgramSyntax := none
  elaborated : Option Elaborated := none
  lowered : Option LoweredProgram := none
  packed : Option PackedProgram := none
  /-- What broke the stage after the last one. -/
  fault : Option Fault := none
  deriving Inhabited

namespace Compilation

/-- Whether another stage follows, if a compilation is to end with `last` and goes on after failures
if `force` is set. -/
def goesOn (c : Compilation) (last : Stage) (force : Bool) : Bool :=
  c.stage ≠ last && (c.isOk || force) && c.fault.isNone

/-- Parse a source text. -/
def parse (src : SourceText) : Compilation :=
  let (ds, tree) := ProgramSyntax.parse src.file src.text
  { stage := .parse, isOk := tree.isSome, diagnostics := .append .empty ds, tree }

/-- Analyse the tree of a compilation. -/
def analyze (c : Compilation) (tree : ProgramSyntax) : Compilation :=
  let (e, ctx) := Analysis.program tree { diagnostics := c.diagnostics }
  match ctx.fault with
  | none =>
    { c with
      stage := .analyze
      isOk := e.isOk
      diagnostics := ctx.diagnostics
      elaborated := some e }
  | some x => { c with diagnostics := ctx.diagnostics, fault := some x }

/-- Lower the program of a compilation. -/
def lower (c : Compilation) (src : SourceText) (e : Elaborated) : Compilation :=
  match e.lower src.file src.width c.diagnostics with
  | (ds, .ok p) => { c with stage := .lower, isOk := p.isOk, diagnostics := ds, lowered := some p }
  | (ds, .error f) => { c with diagnostics := ds, fault := some f }

/-- Pack the program of a compilation. -/
def pack (c : Compilation) (e : Elaborated) (p : LoweredProgram) : Compilation :=
  match p.pack e c.diagnostics with
  | (ds, .ok q) =>
    { c with stage := .vectorize, isOk := q.isOk, diagnostics := ds, packed := some q }
  | (ds, .error f) => { c with diagnostics := ds, fault := some f }

/-- The stage that follows the last one; nothing follows a text without a tree, or the last
stage. -/
def next (c : Compilation) (src : SourceText) : Compilation :=
  match c.stage, c.tree, c.elaborated, c.lowered with
  | .parse, some tree, _, _ => c.analyze tree
  | .analyze, _, some e, _ => c.lower src e
  | .lower, _, some e, some p => c.pack e p
  | _, _, _, _ => c

/-- Continue for a number of stages. -/
def advance (src : SourceText) (last : Stage) (force : Bool) : Nat → Compilation → Compilation
  | 0, c => c
  | n + 1, c => if c.goesOn last force then advance src last force n (c.next src) else c

/-- Take a source text through the stages up to `last`. A stage that fails is followed by the next
one only if `force` is set. -/
def run (src : SourceText) (last : Stage) (force : Bool) : Compilation :=
  advance src last force 3 (parse src)

end Compilation

end Lane
