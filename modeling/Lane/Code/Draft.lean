import Lane.Code.Chains
import Lane.Code.Function

set_option relaxedAutoImplicit false
set_option autoImplicit false

/-!
# Drafts of functions

A draft is a function whose instructions may still be inserted and removed anywhere. An instruction
is known by the item under which it was inserted; a label is its own item, so that it can be in the
body only once.

## Main definitions

* `Lane.Code.Item`: what stands for an instruction in the body of a draft.
* `Lane.Code.Draft`: a function that is being put together.
* `Lane.Code.Draft.emit`, `Lane.Code.Draft.insertAfter`, `Lane.Code.Draft.remove`: change its body.
* `Lane.Code.Draft.toFunction`: the function that a draft has become.
-/

namespace Lane.Code

/-- What stands for an instruction in the body of a draft. -/
inductive Item where
  | label (l : Label)
  | params
  | results
  /-- Any other instruction, by the order in which they were made. -/
  | other (n : Nat)
  deriving DecidableEq, Repr, Inhabited

/-- A function that is being put together. -/
structure Draft where
  decl : FuncDecl
  params : List Operand := []
  results : List Operand := []
  vars : List Var := []
  slots : List Slot := []
  regs : Nat := 0
  labels : Nat := 2
  /-- The instructions other than labels, parameters and results, in the order they were made. -/
  made : List Instr := []
  body : Chains Item
  deriving Repr

namespace Draft

/-- The draft of a function without instructions. -/
def new (decl : FuncDecl) : Draft where
  decl
  body := .ofRow [.label .entry, .params, .label .epilogue, .results]

/-- A new register. -/
def newReg (d : Draft) (t : VType) : Draft × Operand :=
  ({ d with regs := d.regs + 1 }, .reg ⟨d.regs + 1, t⟩)

/-- A new variable. -/
def newVar (d : Draft) (name : String) (t : VType) : Draft × Operand :=
  let v : Var := ⟨d.vars.length + 1, name, t⟩
  ({ d with vars := d.vars ++ [v] }, .var v)

/-- A new stack slot. -/
def newSlot (d : Draft) (name : String) (size align : Int64) : Draft × Operand :=
  let s : Slot := ⟨d.slots.length + 1, name, size, align, none⟩
  ({ d with slots := d.slots ++ [s] }, .slot s)

/-- A new label, not part of the body yet. -/
def newLabel (d : Draft) (hint : String) : Draft × Label :=
  ({ d with labels := d.labels + 1 }, ⟨d.labels + 1, hint⟩)

/-- The item of an instruction that is about to be inserted. -/
def itemOf (d : Draft) : Instr → Item
  | .label l => .label l
  | .params => .params
  | .results => .results
  | _ => .other d.made.length

/-- Insert an instruction by an operation on the body. -/
def insert (d : Draft) (i : Instr)
    (put : Chains Item → String → Item → Checked (Chains Item)) : Checked (Draft × Item) := do
  let item := d.itemOf i
  let body ← put d.body (i.text d.params d.results) item
  let made := match item with
    | .other _ => d.made ++ [i]
    | _ => d.made
  return ({ d with body, made }, item)

/-- Insert an instruction before the epilogue. -/
def emit (d : Draft) (i : Instr) : Checked (Draft × Item) :=
  d.insert i fun body text item => body.insertBefore text 0 item (.label .epilogue)

/-- Insert an instruction after another. -/
def insertAfter (d : Draft) (i : Instr) (mark : Item) : Checked (Draft × Item) :=
  d.insert i fun body text item => body.insertAfter text 0 item mark

/-- Take an instruction out of the body. -/
def remove (d : Draft) (mark : Item) : Draft := { d with body := d.body.remove 0 mark }

/-- The instruction that an item stands for. -/
def instr? (d : Draft) : Item → Option Instr
  | .label l => some (.label l)
  | .params => some .params
  | .results => some .results
  | .other n => d.made[n]?

/-- The function that a draft has become. -/
def toFunction (d : Draft) : Function :=
  ⟨d.decl, d.params, d.results, d.vars, d.slots, (d.body.row 0).filterMap d.instr?⟩

end Draft

end Lane.Code
