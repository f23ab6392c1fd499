import Lane.Yaml.Resolve

set_option relaxedAutoImplicit false
set_option autoImplicit false

/-!
# Data of any form

Where a document may hold anything, a node stands for a datum: a value, a sequence or a mapping. The
keys of a mapping are values, and two keys are one if they are the same value.

## Main definitions

* `Lane.Yaml.Value.isSame`, `Lane.Yaml.Value.precedes`: when two keys are one, and their order.
* `Lane.Yaml.Datum`: data of any form.
* `Lane.Yaml.Datum.ofSequence`, `Lane.Yaml.Datum.ofPairs`: collections as data.
-/

namespace Lane.Yaml

namespace Value

/-- Whether two keys are one. What is no number is never the same, the two zeros always are, and
times are only if they share their zone. -/
def isSame : Value → Value → Bool
  | .float x, .float y => !x.isNan && x.rank = y.rank
  | .time s, .time t => s.zone.isShared && s = t
  | v, w => v = w

/-- The place of the form of a value among all forms. -/
def form : Value → Nat
  | .null => 0
  | .bool _ => 1
  | .float _ => 2
  | .int n => if n < Integer.signedBound then 3 else 5
  | .text _ => 4
  | .time _ => 6

/-- The place of a value among those of its form, where lists are compared from their start. -/
def rank : Value → List Int
  | .null => []
  | .bool b => [if b then 1 else 0]
  | .float x => [x.rank]
  | .int n => [n]
  | .text t => t.toBytes.map fun b => (b.toNat : Int)
  | .time t => t.rank

/-- Whether a value comes before another one. -/
def precedes (v w : Value) : Bool :=
  v.form < w.form || (v.form = w.form && List.lex v.rank w.rank fun a b => decide (a < b))

/-- A value as messages show it. -/
def shown : Value → String
  | .null => "interface \x7b\x7d(nil)"
  | .bool b => if b then "true" else "false"
  | .int n => if n < Integer.signedBound then toString n else "0x" ++ Text.hexDigits n.toNat
  | .float x => x.general
  | .time t => t.text
  | .text t => t.quoted

end Value

/-- The value of a node of any form: a scalar has a value, and a collection its type and the text
that shows it. -/
inductive Datum where
  | scalar (v : Value)
  | collection (type shown : String)
  deriving DecidableEq, Repr, Inhabited

/-- The pairs of a mapping. -/
abbrev Pairs := List (Value × Datum)

namespace Pairs

/-- Whether a key has a datum. -/
def contains (pairs : Pairs) (key : Value) : Bool := pairs.any fun (k, _) => k.isSame key

/-- Give a key a datum, instead of the one that it has. -/
def put (key : Value) (datum : Datum) : Pairs → Pairs
  | [] => [(key, datum)]
  | (k, d) :: rest =>
    if k.isSame key then (key, datum) :: rest else (k, d) :: put key datum rest

/-- The pairs in the order of their keys. -/
def sorted (pairs : Pairs) : Pairs := pairs.mergeSort fun a b => !b.1.precedes a.1

end Pairs

namespace Datum

/-- A datum as messages show it. -/
def shown : Datum → String
  | .scalar v => v.shown
  | .collection _ s => s

/-- A collection of a type whose parts are shown. -/
def ofParts (type : String) (parts : List String) : Datum :=
  .collection type (type ++ "\x7b" ++ ", ".intercalate parts ++ "\x7d")

/-- A sequence. -/
def ofSequence (items : List Datum) : Datum :=
  ofParts "[]interface \x7b\x7d" (items.map shown)

/-- A mapping, whose keys may all be texts. -/
def ofPairs (isTexts : Bool) (pairs : Pairs) : Datum :=
  let keyType := if isTexts then "string" else "interface \x7b\x7d"
  ofParts ("map[" ++ keyType ++ "]interface \x7b\x7d")
    (pairs.sorted.map fun (k, d) => k.shown ++ ":" ++ d.shown)

end Datum

end Lane.Yaml
