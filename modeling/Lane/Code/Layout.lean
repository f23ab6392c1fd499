import Lane.Code.Type

set_option relaxedAutoImplicit false
set_option autoImplicit false

/-!
# Struct layouts

A struct places its members one after the other, each at the next multiple of its alignment. A
member is a machine value, another struct, or the header of a container. A path of members leads to
a place inside a struct; its distance from the start is the sum of the distances of its steps.

## Main definitions

* `Lane.Code.StructMember`, `Lane.Code.Struct`: members and structs.
* `Lane.Code.Struct.append`, `Lane.Code.Struct.finish`: place a member, pad the size.
* `Lane.Code.Offset`: a path of members with its distance in bytes.
-/

namespace Lane.Code

open Lane.Llvm (LType)

/-- The size of a container header: a data address and a number of elements. -/
def headerSize : Int64 := 16

/-- The alignment of a container header. -/
def headerAlign : Int64 := 8

/-- The LLVM type of a container header. -/
def headerType : LType := .struct "" [.bytePtr, .int 64]

/-- The least multiple of a power of two that is not below `n`; what is below two aligns nothing.
The low bits are cleared, whatever the alignment is. -/
def alignUp (n a : Int64) : Int64 :=
  if a ≤ 1 then n else (n + a - 1) &&& ~~~(a - 1)

/-- What a member is. -/
inductive MemberShape where
  | value (t : VType)
  /-- A struct by its name, size, alignment and LLVM type. -/
  | nested (name : String) (size align : Int64) (llvm : LType)
  | header
  deriving Repr, Inhabited

namespace MemberShape

/-- The size in bytes. -/
def size : MemberShape → Int64
  | .value t => t.size
  | .nested _ n _ _ => n
  | .header => headerSize

/-- The alignment in bytes. -/
def align : MemberShape → Int64
  | .value t => t.align
  | .nested _ _ n _ => n
  | .header => headerAlign

/-- The LLVM type. -/
def llvm : MemberShape → LType
  | .value t => t.llvm
  | .nested _ _ _ t => t
  | .header => headerType

/-- The shape as text. -/
def text : MemberShape → String
  | .value t => t.text
  | .nested n _ _ _ => "struct " ++ n
  | .header => "header"

end MemberShape

/-- A member of a struct, or a field of a container header, which no struct owns. -/
structure StructMember where
  owner : Option String
  name : String
  offset : Int64
  shape : MemberShape
  deriving Repr, Inhabited

namespace StructMember

/-- The data address in a container header. -/
def headerData : StructMember := ⟨none, "data", 0, .value .ptr⟩

/-- The number of elements in a container header. -/
def headerLen : StructMember := ⟨none, "size", 8, .value .index⟩

/-- The type of a member that is a machine value. -/
def type? (m : StructMember) : Option VType :=
  match m.shape with
  | .value t => some t
  | _ => none

/-- Whether the member is a vector. -/
def isVector (m : StructMember) : Bool := (m.type?.map VType.isVector).getD false

/-- The member with its place, type, size and alignment. -/
def text (m : StructMember) : String :=
  m.name ++ "@" ++ toString m.offset ++ " " ++ m.shape.text ++ " size " ++
    toString m.shape.size ++ " align " ++ toString m.shape.align

end StructMember

/-- The layout of a class: one instance, or as many as there are lanes stored lane by lane. -/
structure Struct where
  name : String
  members : List StructMember := []
  size : Int64 := 0
  align : Int64 := 1
  isPacked : Bool := false
  lanes : Nat := 0
  deriving Repr, Inhabited

namespace Struct

/-- A struct without members. -/
def empty (name : String) : Struct := { name }

/-- Place a member after the others. -/
def append (s : Struct) (name : String) (shape : MemberShape) : Struct :=
  let offset := alignUp s.size shape.align
  { s with
    members := s.members ++ [⟨some s.name, name, offset, shape⟩]
    size := offset + shape.size
    align := max s.align shape.align }

/-- Pad the size to a multiple of the alignment. -/
def finish (s : Struct) : Struct := { s with size := alignUp s.size s.align }

/-- The member with a name; of several the last. -/
def member? (s : Struct) (name : String) : Option StructMember :=
  s.members.reverse.find? fun m => m.name == name

/-- The LLVM type of the struct. -/
def llvm (s : Struct) : LType := .struct s.name (s.members.map fun m => m.shape.llvm)

/-- The struct as a member of another. -/
def asMember (s : Struct) : MemberShape := .nested s.name s.size s.align s.llvm

/-- The struct as text. -/
def text (s : Struct) : String :=
  "struct " ++ s.name ++ s!" size {s.size} align {s.align} \x7b" ++
    String.join (s.members.map fun m => " " ++ m.name ++ "@" ++ toString m.offset) ++ " \x7d"

end Struct

/-- A path of members from a base address, with its distance in bytes. -/
structure Offset where
  path : List StructMember := []
  bytes : Int64 := 0
  deriving Repr, Inhabited

namespace Offset

/-- Move one step further. -/
def add (o : Offset) (m : StructMember) : Offset := ⟨o.path ++ [m], o.bytes + m.offset⟩

/-- The offset of a path. -/
def ofPath (path : List StructMember) : Offset := path.foldl add {}

/-- The offset as text, empty without steps. -/
def text (o : Offset) : String :=
  if o.path.isEmpty then ""
  else s!"+{o.bytes}(." ++ ".".intercalate (o.path.map StructMember.name) ++ ")"

/-- Move one step further from an offset or from the base itself. -/
def step (o : Option Offset) (m : StructMember) : Offset := (o.getD {}).add m

/-- The distance of an offset or of the base itself. -/
def value (o : Option Offset) : Int64 := (o.map Offset.bytes).getD 0

/-- Whether there is no step to take. -/
def isTrivial (o : Option Offset) : Bool := (o.map fun o => o.path.isEmpty).getD true

/-- An offset as text, empty for the base itself. -/
def textOf (o : Option Offset) : String := (o.map Offset.text).getD ""

end Offset

end Lane.Code
