import Lane.Typing.Class

set_option relaxedAutoImplicit false
set_option autoImplicit false

/-!
# Overload resolution

A call selects the one candidate whose parameters agree with the arguments. The order in which the
candidates were declared never decides.

## Main definitions

* `Lane.ResolveError`: why no candidate was selected.
* `Lane.resolve`, `Lane.Class.resolve`, `Lane.Class.resolveOperator`: selection among candidates.
* `Lane.construct`: how a value is created or assigned from arguments.
-/

namespace Lane

/-- Why no candidate was selected: none agrees with the arguments, or several do. -/
structure ResolveError where
  name : String
  receiver : String
  args : List Ty
  isAmbiguous : Bool
  candidates : List MemberFunction
  found : List MemberFunction
  deriving DecidableEq, Repr, Inhabited

namespace ResolveError

/-- The functions that a message lists. -/
def listed (e : ResolveError) : List MemberFunction :=
  if e.isAmbiguous then e.found else e.candidates

/-- The message, with a line for each function listed. -/
def message (e : ResolveError) : String :=
  (if e.isAmbiguous then
      "ambiguous call to " ++ e.receiver ++ "." ++ e.name ++ Ty.listText e.args
    else
      "no applicable " ++ e.name ++ " for " ++ e.receiver ++ " with arguments " ++
        Ty.listText e.args) ++
    String.join (e.listed.map fun f =>
      "\n\tcandidate " ++ f.describe ++ " at " ++ f.pos.located)

end ResolveError

/-- Select the one candidate that agrees with the arguments. -/
def resolve (receiver name : String) (candidates : List MemberFunction) (args : List Ty) :
    Except ResolveError MemberFunction :=
  match candidates.filter fun f => f.sig.applicable args with
  | [f] => .ok f
  | found => .error ⟨name, receiver, args, !found.isEmpty, candidates, found⟩

/-- The class name that stands for a list of candidates. -/
def receiverOf : List MemberFunction → String
  | f :: _ => f.cls.name
  | [] => ""

namespace Class

/-- Select among the functions of a class with a name, of the given kinds. -/
def resolve (c : Class) (name : String) (args : List Ty) (kinds : List FuncKind) :
    Except ResolveError MemberFunction :=
  Lane.resolve c.name name (c.lookup name kinds) args

/-- A unary and a binary minus that both take the left operand. -/
def minusOverlap? (unary binary : List MemberFunction) (left : Ty) :
    Option (MemberFunction × MemberFunction) :=
  unary.findSome? fun u => binary.findSome? fun b =>
    match u.sig.params, b.sig.params with
    | p :: _, q :: _ =>
      if p.type.compatible q.type && p.type.compatible left then some (u, b) else none
    | _, _ => none

/-- Select an operator for operands, the left of which is of this class. A minus is selected among
the functions with as many parameters as there are operands; if a unary and a binary one both take
the left operand, the call is ambiguous. -/
def resolveOperator (c : Class) (op : String) (args : List Ty) :
    Except ResolveError MemberFunction :=
  let candidates := c.lookup op [.operator]
  match op == "-", args with
  | true, left :: more =>
    let unary := candidates.filter fun f => f.sig.params.length == 1
    let binary := candidates.filter fun f => f.sig.params.length == 2
    match minusOverlap? unary binary left with
    | some (u, b) => .error ⟨"operator -", c.name, args, true, candidates, [u, b]⟩
    | none => Lane.resolve c.name "operator -" (if more.isEmpty then unary else binary) args
  | _, _ => Lane.resolve c.name ("operator " ++ op) candidates args

end Class

/-- How a value is created or assigned. -/
inductive Construction where
  /-- Nothing is known because a type failed to be analysed. -/
  | unknown
  /-- A bitwise copy of a scalar or pointer, or an elementwise copy of a container. -/
  | copy
  /-- A container is allocated from a size. -/
  | alloc
  /-- A pointer is pointed at a value of its target type. -/
  | address
  | call (f : MemberFunction)
  deriving DecidableEq, Repr, Inhabited

/-- How a value of a type is created or assigned from arguments. Scalars, pointers and containers
need no member function; classes have one selected among those of the given kind. -/
def construct (classOf : ClassRef → Class) (t : Ty) (kind : FuncKind) (args : List Ty) :
    Except ResolveError Construction :=
  let refused := .error ⟨kind.name, t.name, args, false, [], []⟩
  match t, args with
  | .error _, _ => .ok .unknown
  | .cls _ c, args => ((classOf c).resolve kind.name args [kind]).map .call
  | .scalar _ _, [a] => if t.compatible a then .ok .copy else refused
  | .ptr _ inner, [a] =>
    if inner.compatible a then .ok .address else if t.compatible a then .ok .copy else refused
  | .container _ _ _, [a] =>
    if t.compatible a then .ok .copy else if a.isIndex then .ok .alloc else refused
  | _, _ => refused

end Lane
