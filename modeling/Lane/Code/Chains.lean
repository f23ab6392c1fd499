import Lane.Fault

set_option relaxedAutoImplicit false
set_option autoImplicit false

/-!
# Chains

Several chains share a supply of items; an item is in at most one of them, and there only once. Each
item has a link with its chain and its neighbours there, and each chain knows its two ends and how
many items it has. An item is inserted at an end of a chain or beside a mark, and may be taken out
again; what an operation changes are the links of a few items.

An operation against the rules is a fault, and is found to be one before any link is changed.

## Main definitions

* `Lane.Code.Link`, `Lane.Code.Ends`: what is known of an item and of a chain.
* `Lane.Code.Chains`: chains of items.
* `Lane.Code.Chains.attach`, `Lane.Code.Chains.detach`: change the links around an item.
* `Lane.Code.Chains.linkLast`, `linkFirst`, `linkBefore`, `linkAfter`, `unlink`: operations.
* `Lane.Code.Chains.pushBack`, `pushFront`, `insertBefore`, `insertAfter`, `remove`: the same, with
  chains that are given up if the operation fails.
* `Lane.Code.Chains.row`: the items of a chain.
-/

namespace Lane.Code

/-- Records by key. Keys without an entry have the default record. -/
structure Records (α β : Type) where
  entries : List (α × β)
  deriving Repr, DecidableEq

namespace Records

variable {α β : Type} [DecidableEq α] [Inhabited β]

/-- The record of a key. -/
def get (r : Records α β) (a : α) : β := (r.entries.lookup a).getD default

/-- Replace the record of a key. -/
def set (r : Records α β) (a : α) (b : β) : Records α β :=
  ⟨(a, b) :: r.entries.filter fun e => e.1 ≠ a⟩

/-- Change the record of a key. -/
def update (r : Records α β) (a : α) (f : β → β) : Records α β := r.set a (f (r.get a))

end Records

/-- The link of an item: the chain it is in, and its neighbours there. -/
structure Link (κ : Type) where
  chain : Option Nat := none
  prev : Option κ := none
  next : Option κ := none
  deriving Repr, DecidableEq

/-- The link of an item in no chain. -/
instance {κ : Type} : Inhabited (Link κ) := ⟨{}⟩

/-- The first and the last item of a chain, and how many there are. -/
structure Ends (κ : Type) where
  head : Option κ := none
  tail : Option κ := none
  length : Int := 0
  deriving Repr, DecidableEq

/-- The ends of an empty chain. -/
instance {κ : Type} : Inhabited (Ends κ) := ⟨{}⟩

/-- Chains of items. -/
structure Chains (κ : Type) where
  ends : Records Nat (Ends κ)
  links : Records κ (Link κ)
  deriving Repr, DecidableEq

namespace Chains

variable {κ : Type} [DecidableEq κ]

/-- A number of empty chains. -/
def empty (n : Nat) : Chains κ := ⟨⟨(List.range n).map fun i => (i, {})⟩, ⟨[]⟩⟩

/-- The item after another in a chain, or the first one if no item is given. -/
def after (c : Chains κ) (n : Nat) : Option κ → Option κ
  | some x => (c.links.get x).next
  | none => (c.ends.get n).head

/-- The item before another in a chain, or the last one if no item is given. -/
def before (c : Chains κ) (n : Nat) : Option κ → Option κ
  | some x => (c.links.get x).prev
  | none => (c.ends.get n).tail

/-- The chain that an item is in. -/
def chain? (c : Chains κ) (x : κ) : Option Nat := (c.links.get x).chain

/-- Whether an item is in a chain. -/
def contains (c : Chains κ) (n : Nat) (x : κ) : Bool := c.chain? x = some n

/-- How many items a chain has. -/
def length (c : Chains κ) (n : Nat) : Int := (c.ends.get n).length

/-- The item after another in its chain. -/
def next? (c : Chains κ) (x : κ) : Option κ := (c.links.get x).next

/-- The item before another in its chain. -/
def prev? (c : Chains κ) (x : κ) : Option κ := (c.links.get x).prev

/-- The items from one on, at most `k` of them. -/
def walk (c : Chains κ) : Nat → Option κ → List κ
  | _, none | 0, some _ => []
  | k + 1, some x => x :: c.walk k (c.next? x)

/-- The items of a chain. There are no more of them than items with a link. -/
def row (c : Chains κ) (n : Nat) : List κ := c.walk c.links.entries.length (c.after n none)

/-! ## Links -/

/-- Let `y` follow `x` in a chain, or be its first item if there is no `x`. -/
def setAfter (c : Chains κ) (n : Nat) (x y : Option κ) : Chains κ :=
  match x with
  | some x => { c with links := c.links.update x fun l => { l with next := y } }
  | none => { c with ends := c.ends.update n fun e => { e with head := y } }

/-- Let `y` go before `x` in a chain, or be its last item if there is no `x`. -/
def setBefore (c : Chains κ) (n : Nat) (x y : Option κ) : Chains κ :=
  match x with
  | some x => { c with links := c.links.update x fun l => { l with prev := y } }
  | none => { c with ends := c.ends.update n fun e => { e with tail := y } }

/-- Replace the link of an item, and count the items that a chain has got by that. -/
def setLink (c : Chains κ) (n : Nat) (x : κ) (l : Link κ) (more : Int) : Chains κ where
  ends := c.ends.update n fun e => { e with length := e.length + more }
  links := c.links.set x l

/-- Put an item between neighbours in a chain. -/
def attach (c : Chains κ) (n : Nat) (x : κ) (prev next : Option κ) : Chains κ :=
  ((c.setLink n x ⟨some n, prev, next⟩ 1).setAfter n prev (some x)).setBefore n next (some x)

/-- Take an item out of a chain. -/
def detach (c : Chains κ) (n : Nat) (x : κ) : Chains κ :=
  ((c.setAfter n (c.prev? x) (c.next? x)).setBefore n (c.next? x) (c.prev? x)).setLink n x {} (-1)

/-! ## Operations -/

/-- Operations on chains. One that fails leaves the chains as they were then. -/
abbrev Operation (κ : Type) := EStateM Fault (Chains κ)

/-- The fault of inserting an item that is in a chain already. -/
def used (name : String) : Fault := .misuse ("ir: instruction " ++ name ++ " is already in a list")

/-- The fault of inserting beside an item that is not in the chain. -/
def badMark : Fault := .misuse "ir: insertion mark not in list"

/-- Stop if an item is in a chain. Its name is shown then. -/
def requireFree (name : String) (x : κ) : Operation κ Unit := do
  if ((← get).chain? x).isSome then throw (used name)

/-- Stop if a mark is not in a chain. -/
def requireMark (n : Nat) (mark : κ) : Operation κ Unit := do
  if !(← get).contains n mark then throw badMark

/-- Insert an item at the end of a chain. -/
def linkLast (name : String) (n : Nat) (x : κ) : Operation κ Unit := do
  requireFree name x
  modify fun c => c.attach n x (c.before n none) none

/-- Insert an item before a mark. -/
def linkBefore (name : String) (n : Nat) (x mark : κ) : Operation κ Unit := do
  requireFree name x
  requireMark n mark
  modify fun c => c.attach n x (c.prev? mark) (some mark)

/-- Insert an item at the start of a chain. -/
def linkFirst (name : String) (n : Nat) (x : κ) : Operation κ Unit := do
  match (← get).after n none with
  | none => linkLast name n x
  | some first => linkBefore name n x first

/-- Insert an item after a mark. -/
def linkAfter (name : String) (n : Nat) (x mark : κ) : Operation κ Unit := do
  match (← get).next? mark with
  | none =>
    requireMark n mark
    linkLast name n x
  | some next => linkBefore name n x next

/-- Take an item out of a chain, if it is there. -/
def unlink (n : Nat) (x : κ) : Operation κ Unit := do
  if (← get).contains n x then modify fun c => c.detach n x

/-- The chains after an operation, which are given up if it fails. -/
def apply (c : Chains κ) (f : Operation κ Unit) : Checked (Chains κ) :=
  match f.run c with
  | .ok _ d => .ok d
  | .error e _ => .error e

/-- The chains as an operation leaves them, whether it fails or not. -/
def leave (c : Chains κ) (f : Operation κ Unit) : Chains κ :=
  match f.run c with
  | .ok _ d | .error _ d => d

/-- Insert an item at the end of a chain. -/
def pushBack (c : Chains κ) (name : String) (n : Nat) (x : κ) : Checked (Chains κ) :=
  c.apply (linkLast name n x)

/-- Insert an item at the start of a chain. -/
def pushFront (c : Chains κ) (name : String) (n : Nat) (x : κ) : Checked (Chains κ) :=
  c.apply (linkFirst name n x)

/-- Insert an item before a mark. -/
def insertBefore (c : Chains κ) (name : String) (n : Nat) (x mark : κ) : Checked (Chains κ) :=
  c.apply (linkBefore name n x mark)

/-- Insert an item after a mark. -/
def insertAfter (c : Chains κ) (name : String) (n : Nat) (x mark : κ) : Checked (Chains κ) :=
  c.apply (linkAfter name n x mark)

/-- Take an item out of a chain, if it is there. -/
def remove (c : Chains κ) (n : Nat) (x : κ) : Chains κ := c.leave (unlink n x)

/-- A chain of some items, in their order. -/
def ofRow (xs : List κ) : Chains κ :=
  xs.foldl (fun c x => c.attach 0 x (c.before 0 none) none) (empty 1)

end Chains

end Lane.Code
