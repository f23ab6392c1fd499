import Lane.Code.Function
import Lane.Diagnostic
import Lane.Typing.Class

set_option relaxedAutoImplicit false
set_option autoImplicit false

/-!
# Layouts of classes

A class is laid out as a struct of its member variables. A class held by value is laid out first, so
a class that holds itself, directly or through others, has no layout; neither has a class that holds
such a class.

## Main definitions

* `Lane.ScalarKind.code`, `Lane.Ty.code`: the machine types of atomic types.
* `Lane.Lowering.Layouts`: the layouts made so far.
* `Lane.Lowering.layout`: lay out a class and the classes that it holds.
-/

namespace Lane

open Code (Struct VType MemberShape)

/-- The machine scalar of a scalar type. -/
def ScalarKind.code : ScalarKind → Code.Kind
  | .bool => .i1
  | .int8 => .i8
  | .int16 => .i16
  | .int32 => .i32
  | .int64 => .i64
  | .uint8 => .u8
  | .uint16 => .u16
  | .uint32 => .u32
  | .uint64 | .index => .u64
  | .real32 => .f32
  | .real64 => .f64

/-- The machine type of an atomic type; all else is handled through its address. -/
def Ty.code : Ty → VType
  | .scalar _ k => .scalar k.code
  | _ => .ptr

namespace Lowering

/-- The layouts made so far: for each class its struct, or nothing if it has none. The structs are
in the order in which they were completed. -/
structure Layouts where
  classes : List (Nat × Option Struct) := []
  structs : List Struct := []
  diagnostics : Diagnostics := {}
  errors : Nat := 0
  deriving Repr, Inhabited

namespace Layouts

/-- What is known about the layout of a class. -/
def find? (l : Layouts) (c : ClassRef) : Option (Option Struct) := l.classes.lookup c.id

/-- The struct of a class. -/
def struct? (l : Layouts) (c : ClassRef) : Option Struct := (l.find? c).join

/-- Record the struct of a class, or that it has none. -/
def record (l : Layouts) (c : ClassRef) (s : Option Struct) : Layouts :=
  { l with classes := l.classes ++ [(c.id, s)], structs := l.structs ++ s.toList }

/-- Report that a class holds itself through the classes that are being laid out. -/
def reportCycle (l : Layouts) (c : Class) (chain : List Class) : Layouts :=
  let names := (chain.map Class.name) ++ [c.name]
  { l with
    errors := l.errors + 1
    diagnostics := l.diagnostics.push (.error .cyclicLayout c.pos
      ("class " ++ c.name ++ " contains itself by value: " ++ " -> ".intercalate names)) }

end Layouts

/-- Place the member variables of a class one after the other, `nested` laying out the classes among
them. The result has no struct if a variable has none. -/
def placeVars (nested : ClassRef → Layouts → Option Struct × Layouts) :
    List MemberVar → Struct → Bool → Layouts → Option Struct × Layouts
  | [], s, ok, l => (if ok then some s.finish else none, l)
  | v :: vs, s, ok, l =>
    match v.type with
    | .cls _ c =>
      match nested c l with
      | (some t, l) => placeVars nested vs (s.append v.name t.asMember) ok l
      | (none, l) => placeVars nested vs s false l
    | .container .. => placeVars nested vs (s.append v.name .header) ok l
    | .error _ => placeVars nested vs s false l
    | t => placeVars nested vs (s.append v.name (.value t.code)) ok l

/-- Lay out a class inside the classes that are being laid out, the outermost first. The fuel is
enough if it is above the number of classes that are not among those. -/
def layoutIn (p : Program) : Nat → List Class → ClassRef → Layouts → Option Struct × Layouts
  | 0, _, _, l => (none, l)
  | fuel + 1, building, c, l =>
    match l.find? c with
    | some s => (s, l)
    | none =>
      let cls := p.classOf c
      let chain := building.dropWhile fun b => b.ref.id != c.id
      if chain.isEmpty then
        let (s, l) :=
          placeVars (layoutIn p fuel (building ++ [cls])) cls.vars (.empty cls.name) true l
        (s, l.record c s)
      else (none, l.reportCycle cls chain)

/-- Lay out a class and the classes that it holds. -/
def layout (p : Program) (c : ClassRef) (l : Layouts) : Option Struct × Layouts :=
  layoutIn p (p.classes.length + 1) [] c l

/-- Lay out all classes of a program. -/
def layoutAll (p : Program) (ds : Diagnostics) : Layouts :=
  p.classes.foldl (fun l c => (layout p c.ref l).2) { diagnostics := ds }

end Lowering

end Lane
