import Lane.Llvm.Value

set_option relaxedAutoImplicit false
set_option autoImplicit false

/-!
# LLVM text

Parameters, blocks and results without a name are numbered in one sequence in each function, in the
order in which they are printed.

## Main definitions

* `Lane.Llvm.Rejection`: why a module has no text.
* `Lane.Llvm.Numbering`: the numbers of a function.
* `Lane.Llvm.Module.print`: the text of a module.
-/

namespace Lane.Llvm

/-- Why a module has no text, or cannot be made. -/
inductive Rejection where
  /-- A value is stored to a place of another type. -/
  | storeType (src dst : String)
  /-- A vector instruction on a type that is none. -/
  | notAVector (type : String)
  /-- A part is put into or taken from something that has no such part. -/
  | notAnAggregate
  /-- A comparison of values that have no such order. -/
  | notComparable
  /-- An address computation on something else. -/
  | notAnAddress
  /-- A value is cut down to a type that is not narrower, or has another number of lanes. -/
  | notNarrower (source target : String)
  /-- An instruction has too few operands, or none where one should be. -/
  | missingOperand
  /-- A constant has more lanes than can be listed. -/
  | tooManyLanes
  /-- A block does not end. -/
  | openBlock
  /-- A truth value is neither zero nor one. -/
  | badTruthValue
  deriving DecidableEq, Repr, Inhabited

/-- A rejection in words. -/
def Rejection.text : Rejection → String
  | .storeType src dst => "store operands are not compatible: src=" ++ src ++ "; dst=" ++ dst
  | .notAVector type => "invalid vector type; expected *types.VectorType, got *types." ++ type
  | .notAnAggregate => "invalid aggregate value"
  | .notComparable => "invalid comparison operand type"
  | .notAnAddress => "invalid address"
  | .notNarrower source target =>
    "trunc operands are not compatible: from=" ++ source ++ "; to=" ++ target
  | .missingOperand => "runtime error: invalid memory address or nil pointer dereference"
  | .tooManyLanes => "runtime error: makeslice: len out of range"
  | .openBlock => "missing terminator in basic block"
  | .badTruthValue => "invalid integer value of boolean type"

/-- Whether a name is an unsigned number of 64 bits, which would be taken for a number. -/
def isNumeral (s : String) : Bool :=
  !s.isEmpty && s.toList.all Char.isDigit && digitsValue s.toList < UInt64.size

/-- A name that cannot be taken for a number. -/
def quoteName (s : String) : String := if isNumeral s then "\"" ++ s ++ "\"" else escapeName s

/-- The name of a function; only one can have none. -/
def functionName (name : String) : String := "@" ++ if name = "" then "0" else quoteName name

/-! ## Numbers of parameters, blocks and results -/

/-- The numbers of a function. Results are looked up by the order in which they were made. -/
structure Numbering where
  params : Array Nat := #[]
  blocks : Array Nat := #[]
  results : Array Nat
  next : Nat := 0
  deriving Repr, Inhabited

namespace Numbering

/-- Number a parameter. -/
def param (n : Numbering) (p : Param) : Numbering :=
  if p.name = "" then { n with params := n.params.push n.next, next := n.next + 1 }
  else { n with params := n.params.push 0 }

/-- Number a result. -/
def instr (n : Numbering) (i : Instr) : Numbering :=
  if i.isNumbered then
    { n with results := n.results.setIfInBounds i.key n.next, next := n.next + 1 }
  else n

/-- Number a block and its results. -/
def block (n : Numbering) (b : Block) : Numbering :=
  let n := if b.name = "" then { n with blocks := n.blocks.push n.next, next := n.next + 1 }
    else { n with blocks := n.blocks.push 0 }
  b.instrs.foldl instr n

/-- The numbers of a function. -/
def ofFunction (f : Function) : Numbering :=
  f.blocks.foldl block (f.params.foldl param { results := Array.replicate f.made 0 })

end Numbering

/-! ## Instructions -/

/-- What the text of an instruction depends on. -/
structure Printer where
  function : Function
  numbers : Numbering

namespace Printer

/-- A local name or number. -/
def localName (name : String) (number : Nat) : String :=
  "%" ++ if name = "" then toString number else quoteName name

/-- How a value is referred to. -/
def ident (p : Printer) : Value → Except Int String
  | .const c => c.ident
  | .param i _ =>
    .ok (localName (((p.function.params[i]?).map Param.name).getD "") (p.numbers.params.getD i 0))
  | .named name _ => .ok (localName name 0)
  | .result key _ => .ok (localName "" (p.numbers.results.getD key 0))

/-- What stands in the place of a truth value that is neither zero nor one. -/
def badTruth (x : Int) : String :=
  "%!s(PANIC=String method: invalid integer value of boolean type; expected 0 or 1, got " ++
    toString x ++ ")"

/-- A value with its type. -/
def typed (p : Printer) (v : Value) : String :=
  match p.ident v with
  | .ok s => v.type.text ++ " " ++ s
  | .error x => badTruth x

/-- A value without its type, which has to be a proper one. -/
def bare (p : Printer) (v : Value) : Except Rejection String :=
  match p.ident v with
  | .ok s => .ok s
  | .error _ => .error .badTruthValue

/-- How a block is referred to. -/
def label (p : Printer) (i : Nat) : String :=
  localName (((p.function.blocks[i]?).map Block.name).getD "") (p.numbers.blocks.getD i 0)

/-- The arguments of a call, which have to be proper values. -/
def arguments (p : Printer) : List Value → Except Rejection (List String)
  | [] => return []
  | v :: vs => do
    let s ← p.bare v
    return (v.type.text ++ " " ++ s) :: (← p.arguments vs)

/-- What an instruction does, as text. -/
def opText (p : Printer) : Op → Except Rejection String
  | .alloca _ t count align => do
    let count ← match count with
      | some c => do
        let s ← p.bare (.const c)
        pure (", " ++ c.type.text ++ " " ++ s)
      | none => pure ""
    let align := if align = 0 then "" else ", align " ++ toString align.toNat
    return "alloca " ++ t.text ++ count ++ align
  | .load t src => return "load " ++ t.text ++ ", " ++ p.typed src
  | .store src dst => return "store " ++ p.typed src ++ ", " ++ p.typed dst
  | .bitcast src t => return "bitcast " ++ p.typed src ++ " to " ++ t.text
  | .gep _ src i => return "getelementptr i8, " ++ p.typed src ++ ", " ++ p.typed i
  | .binary word x y => return word ++ " " ++ p.typed x ++ ", " ++ (← p.bare y)
  | .fneg x => return "fneg " ++ p.typed x
  | .compare word _ x y => return word ++ " " ++ p.typed x ++ ", " ++ (← p.bare y)
  | .cast word x t => return word ++ " " ++ p.typed x ++ " to " ++ t.text
  | .select c x y => return "select " ++ p.typed c ++ ", " ++ p.typed x ++ ", " ++ p.typed y
  | .insertElement x e i =>
    return "insertelement " ++ p.typed x ++ ", " ++ p.typed e ++ ", " ++ p.typed i
  | .shuffle _ x y m =>
    return "shufflevector " ++ p.typed x ++ ", " ++ p.typed y ++ ", " ++ p.typed m
  | .insertValue x e i =>
    return "insertvalue " ++ p.typed x ++ ", " ++ p.typed e ++ ", " ++ toString i
  | .extractValue _ x i => return "extractvalue " ++ p.typed x ++ ", " ++ toString i
  | .call t f args => do
    let args ← p.arguments args
    return "call " ++ t.text ++ " " ++ functionName f ++ "(" ++ ", ".intercalate args ++ ")"

/-- An instruction as text, with the name of its result. Only stores and calls are written without
one; any other instruction on a value of no type has a result with the number zero. -/
def instrText (p : Printer) (i : Instr) : Except Rejection String := do
  let s ← p.opText i.op
  let numbered := localName "" (p.numbers.results.getD i.key 0) ++ " = " ++ s
  match i.op with
  | .alloca name .. => return localName name 0 ++ " = " ++ s
  | .store .. => return s
  | .call .. => return if i.isNumbered then numbered else s
  | _ => return numbered

/-- The end of a block as text. -/
def terminatorText (p : Printer) : Terminator → String
  | .jump i => "br label " ++ p.label i
  | .branch c yes no =>
    "br " ++ p.typed c ++ ", label " ++ p.label yes ++ ", label " ++ p.label no
  | .ret none => "ret void"
  | .ret (some v) => "ret " ++ p.typed v

/-- Instructions as lines. -/
def instrLines (p : Printer) : List Instr → Except Rejection String
  | [] => return ""
  | i :: is => do
    let s ← p.instrText i
    return "\t" ++ s ++ "\n" ++ (← p.instrLines is)

/-- A block as text; it is the one with number `n`. -/
def blockText (p : Printer) (n : Nat) (b : Block) : Except Rejection String := do
  let head := if b.name = "" then toString (p.numbers.blocks.getD n 0) else quoteName b.name
  let code ← p.instrLines b.instrs.toList
  match b.terminator with
  | none => throw .openBlock
  | some t => return head ++ ":\n" ++ code ++ "\t" ++ p.terminatorText t ++ "\n"

/-- Blocks as texts, the first of which is the one with number `n`. -/
def blockTexts (p : Printer) : Nat → List Block → Except Rejection (List String)
  | _, [] => return []
  | n, b :: bs => do
    let s ← p.blockText n b
    return s :: (← p.blockTexts (n + 1) bs)

end Printer

/-- A function as text. -/
def Function.print (f : Function) : Except Rejection String := do
  let numbers := Numbering.ofFunction f
  let params := f.params.zipIdx.map fun (q, i) =>
    q.type.text ++ " " ++ Printer.localName q.name (numbers.params.getD i 0)
  let head := f.result.text ++ " " ++ functionName f.name ++ "(" ++ ", ".intercalate params ++ ")"
  if f.blocks.isEmpty then return "declare " ++ head ++ "\n"
  let blocks ← Printer.blockTexts ⟨f, numbers⟩ 0 f.blocks.toList
  return "define " ++ head ++ " \x7b\n" ++ "\n".intercalate blocks ++ "\x7d\n"

/-- Functions as texts. -/
def functionTexts : List Function → Except Rejection (List String)
  | [] => return []
  | f :: fs => do
    let s ← f.print
    return s :: (← functionTexts fs)

/-- The definition of a struct type. -/
def typeLine (t : LType) : String := t.text ++ " = type " ++ t.definition ++ "\n"

/-- The text of a module: the name of its source, its structs and its functions, with a blank line
between these parts. -/
def Module.print (m : Module) : Except Rejection String := do
  let source := if m.name = "" then [] else
    ["source_filename = \"" ++ escapeText m.name ++ "\"\n"]
  let structs := if m.structs.isEmpty then [] else [String.join (m.structs.map typeLine)]
  let functions ← functionTexts m.functions
  return "\n".intercalate (source ++ structs ++ functions)

end Lane.Llvm
