import Lane.Typing.Type

set_option relaxedAutoImplicit false
set_option autoImplicit false

/-!
# Signatures, classes and programs

A class is a table of member variables and member functions in the order of their declaration.
Functions may share a name as long as their kinds or types differ.

## Main definitions

* `Lane.Param`, `Lane.Signature`: what functions take and give.
* `Lane.MemberFunction`, `Lane.MemberVar`, `Lane.Class`: classes and their members.
* `Lane.Class.addVar`, `Lane.Class.addFunc`: declare a member unless it conflicts with another.
* `Lane.Foreign`, `Lane.Program`: foreign functions and whole programs.
-/

namespace Lane

/-- A parameter or result. Its local is the variable with the given number. -/
structure Param where
  name : String
  pos : Position
  type : Ty
  isOut : Bool
  localId : Nat
  deriving DecidableEq, Repr, Inhabited

/-- Whether the value is a result that the caller provides storage for. -/
def Param.isHidden (p : Param) : Bool := p.isOut && !p.type.isAtomic

/-- What a function takes and gives. -/
structure Signature where
  params : List Param := []
  results : List Param := []
  deriving DecidableEq, Repr, Inhabited

namespace Signature

/-- The results that are passed as trailing addresses. -/
def hiddenResults (s : Signature) : List Param := s.results.filter Param.isHidden

/-- The results that are returned by value. -/
def valueResults (s : Signature) : List Param := s.results.filter fun p => !p.isHidden

/-- Whether arguments of these types agree with the parameters in number and one by one. -/
def applicable (s : Signature) (args : List Ty) : Bool :=
  args.length == s.params.length &&
    (s.params.zip args).all fun (p, t) => p.type.compatible t

/-- Whether two lists of parameters have identical types. -/
def sameTypes (ps qs : List Param) : Bool :=
  ps.length == qs.length && (ps.zip qs).all fun (p, q) => p.type.identical q.type

/-- Whether two signatures have identical types throughout. -/
def same (s t : Signature) : Bool :=
  sameTypes s.params t.params && sameTypes s.results t.results

/-- Whether a type of the signature failed to be analysed. -/
def isBroken (s : Signature) : Bool :=
  s.params.any (fun p => p.type.isError) || s.results.any fun p => p.type.isError

/-- The types of the results. -/
def resultTypes (s : Signature) : List Ty := s.results.map fun p => p.type.withModifier .var

/-- The signature as text. -/
def text (s : Signature) : String :=
  Ty.listText (s.params.map Param.type) ++
    if s.results.isEmpty then "" else " -> " ++ Ty.listText (s.results.map Param.type)

end Signature

/-- A member function, told from the others of its class by its place among them. -/
structure MemberFunction where
  cls : ClassRef
  index : Nat
  kind : FuncKind
  name : String
  pos : Position
  isSimd : Bool
  sig : Signature
  /-- The number of the local `self`, where the function has one. -/
  selfId : Nat
  /-- Whether the compiler added the function by itself. -/
  isGenerated : Bool
  /-- Whether a function that the compiler added copies another instance. -/
  isCopy : Bool
  deriving DecidableEq, Repr, Inhabited

namespace MemberFunction

/-- Whether the instance is passed as a hidden first parameter. -/
def hasSelf (f : MemberFunction) : Bool :=
  match f.kind with
  | .create | .assign | .reader | .writer => true
  | _ => false

/-- Whether the instance may not be written. -/
def hasConstSelf (f : MemberFunction) : Bool := f.kind = .reader

/-- How many numbers the instance, the parameters and the results have. -/
def localCount (f : MemberFunction) : Nat := f.sig.params.length + f.sig.results.length + 1

/-- Class and name of the function. -/
def qualifiedName (f : MemberFunction) : String :=
  f.cls.name ++ (if f.kind = .operator then ".operator " else ".") ++ f.name

/-- The function as lists of candidates show it. -/
def describe (f : MemberFunction) : String :=
  f.kind.name ++ " " ++ f.qualifiedName ++ f.sig.text

end MemberFunction

/-- A member variable, with its place among the variables of its class. -/
structure MemberVar where
  cls : ClassRef
  index : Nat
  name : String
  pos : Position
  type : Ty
  deriving DecidableEq, Repr, Inhabited

/-- A member of a class. -/
inductive Member where
  | var (v : MemberVar)
  | func (f : MemberFunction)
  deriving DecidableEq, Repr, Inhabited

/-- A class: its members in the order of their declaration. -/
structure Class where
  ref : ClassRef
  pos : Position
  members : List Member := []
  deriving DecidableEq, Repr, Inhabited

namespace Class

/-- The name of a class. -/
def name (c : Class) : String := c.ref.name

/-- The member variables. -/
def vars (c : Class) : List MemberVar :=
  c.members.filterMap fun | .var v => some v | .func _ => none

/-- The member functions. -/
def funcs (c : Class) : List MemberFunction :=
  c.members.filterMap fun | .func f => some f | .var _ => none

/-- The variable with a name. -/
def var? (c : Class) (name : String) : Option MemberVar := c.vars.find? fun v => v.name == name

/-- Declare a variable, or give the variable that has its name already. -/
def addVar (c : Class) (name : String) (pos : Position) (type : Ty) :
    Except MemberVar (Class × MemberVar) :=
  match c.var? name with
  | some prev => .error prev
  | none =>
    let v : MemberVar := ⟨c.ref, c.vars.length, name, pos, type⟩
    .ok ({ c with members := c.members ++ [.var v] }, v)

/-- The functions with a name, of the given kinds; all kinds count if none is given. -/
def lookup (c : Class) (name : String) (kinds : List FuncKind) : List MemberFunction :=
  c.funcs.filter fun f => f.name == name && (kinds.isEmpty || kinds.contains f.kind)

/-- Declare a function, or give the earliest function of the same name, kind and types. -/
def addFunc (c : Class) (f : MemberFunction) : Except MemberFunction (Class × MemberFunction) :=
  match c.funcs.find? fun g => g.name == f.name && g.kind == f.kind && g.sig.same f.sig with
  | some prev => .error prev
  | none =>
    let f := { f with cls := c.ref, index := c.funcs.length }
    .ok ({ c with members := c.members ++ [.func f] }, f)

/-- The distinct names of the functions in order. -/
def funcNames (c : Class) : List String :=
  (c.funcs.map MemberFunction.name).eraseDups.mergeSort fun a b => decide (a ≤ b)

end Class

/-- A foreign function. -/
structure Foreign where
  name : String
  pos : Position
  sig : Signature
  deriving DecidableEq, Repr, Inhabited

/-- The declarations of a program. -/
structure Program where
  classes : List Class := []
  foreigns : List Foreign := []
  deriving DecidableEq, Repr, Inhabited

namespace Program

/-- The class with a name. -/
def class? (p : Program) (name : String) : Option Class := p.classes.find? fun c => c.name == name

/-- The class that a type names; without such a class, one without members. -/
def classOf (p : Program) (r : ClassRef) : Class :=
  (p.classes.find? fun c => c.ref.id == r.id).getD ⟨r, {}, []⟩

/-- Declare a class, or give the class that has its name already. -/
def addClass (p : Program) (c : Class) : Except Class Program :=
  match p.class? c.name with
  | some prev => .error prev
  | none => .ok { p with classes := p.classes ++ [c] }

/-- Put a changed class in the place of the class it was. -/
def update (p : Program) (c : Class) : Program :=
  { p with classes := p.classes.map fun d => if d.ref.id == c.ref.id then c else d }

/-- The foreign function with a name. -/
def foreign? (p : Program) (name : String) : Option Foreign :=
  p.foreigns.find? fun f => f.name == name

/-- Declare a foreign function, or give the one that has its name already. -/
def addForeign (p : Program) (f : Foreign) : Except Foreign Program :=
  match p.foreign? f.name with
  | some prev => .error prev
  | none => .ok { p with foreigns := p.foreigns ++ [f] }

end Program

end Lane
