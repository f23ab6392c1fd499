import Lane.Typing.Type

set_option relaxedAutoImplicit false
set_option autoImplicit false

/-!
# Locals and scopes

A scope binds names to locals. Scopes are kept on a stack; a name is looked up from the top down to
the root scope of the function, and the innermost binding counts.

## Main definitions

* `Lane.Local`: a variable of a function.
* `Lane.Scope`: the bindings of one level.
* `Lane.Scope.lookup?`: the binding of a name on a stack of scopes.
-/

namespace Lane

/-- What a local stands for. -/
inductive LocalRole where
  | declared
  /-- A parameter, or a result, which may be passed as a hidden address. -/
  | param (isHidden : Bool)
  | self
  deriving DecidableEq, Repr, Inhabited

/-- A variable of a function, told from the others of the function by its number. -/
structure Local where
  id : Nat
  name : String
  pos : Position
  type : Ty
  role : LocalRole
  deriving DecidableEq, Repr, Inhabited

namespace Local

/-- Whether the local is a parameter or a result. -/
def isParam (l : Local) : Bool :=
  match l.role with
  | .param _ => true
  | _ => false

/-- The local as a scope lists it. -/
def text (l : Local) : String :=
  l.name ++ ": " ++ l.type.text ++
    match l.role with
    | .param true => " param hidden"
    | .param false => " param"
    | _ => ""

end Local

/-- The bindings of one level, in the order of insertion. The lookup of a name ends at a root. -/
structure Scope where
  locals : List Local := []
  isRoot : Bool := false
  deriving DecidableEq, Repr, Inhabited

namespace Scope

/-- The binding of a name at this level. -/
def find? (s : Scope) (name : String) : Option Local := s.locals.find? fun l => l.name == name

/-- Bind a local at this level, or give the binding that has its name already. -/
def insert (s : Scope) (l : Local) : Except Local Scope :=
  match s.find? l.name with
  | some prev => .error prev
  | none => .ok { s with locals := s.locals ++ [l] }

/-- The bindings in the order of their names. -/
def sorted (s : Scope) : List Local := s.locals.mergeSort fun a b => decide (a.name ≤ b.name)

/-- The level as text. -/
def text (s : Scope) : String :=
  "\x7b" ++ ", ".intercalate (s.sorted.map Local.text) ++ "\x7d"

/-- The binding of a name on a stack of scopes, the innermost scope first. -/
def lookup? (name : String) : List Scope → Option Local
  | [] => none
  | s :: below =>
    match s.find? name with
    | some l => some l
    | none => if s.isRoot then none else lookup? name below

/-- The root scope that a stack reaches from its top. -/
def root? : List Scope → Option Scope
  | [] => none
  | s :: below => if s.isRoot then some s else root? below

end Scope

end Lane
