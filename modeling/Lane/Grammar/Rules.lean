import Lane.Grammar.Basic

set_option relaxedAutoImplicit false
set_option autoImplicit false

/-!
# The grammar of Lane

One expression for each rule, and the text of the whole grammar.

## Main definitions

* `Lane.Rule.body`: what a rule stands for.
* `Lane.Rule.reachable`: the rules in the order in which they are first met.
* `Lane.Grammar.description`: the grammar as text, one rule to a line.
-/

namespace Lane

namespace Grammar

/-- Items of a rule separated by commas, at least one of them. -/
def commaSeparated (r : Rule) : List Grammar :=
  [.rule r, .many (.seq [.literal ",", .rule r])]

/-- Items of a rule separated by commas and enclosed in parentheses, perhaps none. -/
def parenthesized (r : Rule) : List Grammar :=
  [.literal "(", .optional (.seq (commaSeparated r)), .literal ")"]

/-- Items of a rule enclosed in braces. -/
def braced (r : Rule) : List Grammar :=
  [.literal "\x7b", .many (.rule r), .literal "\x7d"]

/-- The results of a function, which may be left out. -/
def results : Grammar :=
  .optional (.seq (.literal "->" :: parenthesized .argumentDefinition))

/-- One of several words. -/
def oneOf (words : List String) : Grammar := .alt (words.map .literal)

end Grammar

namespace Rule

open Grammar

/-- What a rule stands for. -/
def body : Rule → Grammar
  | .program => .many (.rule .topDecl)
  | .topDecl => .alt [.rule .classDefinition, .rule .externDefinition]
  | .classDefinition =>
    .seq ([.optional (.literal "simd"), .literal "class", .token .ident] ++ braced .classMember)
  | .classMember => .alt [.rule .fieldDefinition, .rule .functionDefinition]
  | .fieldDefinition =>
    .seq [.literal "var", .token .ident, .literal ":", .rule .type, .optional (.literal ";")]
  | .type =>
    .alt [.seq [oneOf ["ptr", "array", "simd"], .literal "\x7b", .rule .type, .literal "\x7d"],
      .token .ident]
  | .functionDefinition =>
    .seq ([.optional (.literal "simd"),
        oneOf ["create", "assign", "reader", "writer", "routine", "operator"],
        .optional (.alt [.token .ident, .token .op])] ++
      parenthesized .argumentDefinition ++ [results] ++ braced .statement)
  | .argumentDefinition =>
    .seq [.token .ident, .literal ":", .optional (oneOf ["var", "const", "ref", "cref"]),
      .rule .type]
  | .statement =>
    .alt [.rule .ifStatement, .rule .whileStatement, .rule .repeatStatement, .rule .block,
      .seq [.literal "return", .literal ";"], .seq [.literal "break", .literal ";"],
      .seq [.literal "continue", .literal ";"], .rule .assignment]
  | .ifStatement =>
    .seq ([.literal "if", .rule .expression] ++ braced .statement ++
      [.optional (.seq [.literal "else", .alt [.rule .ifStatement, .rule .block]])])
  | .expression => .seq [.rule .conjunction, .many (.rule .opDisjunction)]
  | .conjunction => .seq [.rule .comparison, .many (.rule .opConjunction)]
  | .comparison => .seq [.rule .sum, .many (.rule .opComparison)]
  | .sum => .seq [.rule .term, .many (.rule .opSum)]
  | .term => .seq [.rule .unary, .many (.rule .opTerm)]
  | .unary => .alt [.seq [oneOf ["-", "not"], .rule .unary], .rule .postfixed]
  | .postfixed => .seq [.rule .factor, .many (.rule .suffixed)]
  | .factor =>
    .alt [.token .real, .token .int, oneOf ["true", "false"], .literal "self", .rule .ccall,
      .seq [.ahead (.seq [.token .ident, .literal "::"]), .rule .staticCall],
      .seq [.ahead (.seq [.token .ident, .literal "("]), .rule .functionCall],
      .token .ident, .seq [.literal "(", .rule .expression, .literal ")"]]
  | .ccall => .seq ([.literal "c_call", .token .ident] ++ parenthesized .expression)
  | .staticCall =>
    .seq ([.token .ident, .literal "::", .token .ident] ++ parenthesized .expression)
  | .functionCall => .seq (.token .ident :: parenthesized .expression)
  | .suffixed =>
    .alt [.seq [.literal ".", .rule .memberSuffix],
      .seq [.literal "[", .rule .expression, .literal "]"], .literal "^"]
  | .memberSuffix => .seq [.token .ident, .optional (.seq (parenthesized .expression))]
  | .opTerm => .seq [oneOf ["*", "/", "%"], .rule .unary]
  | .opSum => .seq [oneOf ["+", "-"], .rule .term]
  | .opComparison => .seq [oneOf ["==", "!=", "<=", ">=", "<", ">"], .rule .sum]
  | .opConjunction => .seq [.literal "and", .rule .comparison]
  | .opDisjunction => .seq [oneOf ["or", "xor"], .rule .conjunction]
  | .block => .seq (braced .statement)
  | .whileStatement => .seq ([.literal "while", .rule .expression] ++ braced .statement)
  | .repeatStatement =>
    .seq (.literal "repeat" :: braced .statement ++
      [.literal "until", .rule .expression, .literal ";"])
  | .assignment =>
    .seq (commaSeparated .target ++
      [.optional (.seq (.literal "=" :: commaSeparated .expression)), .literal ";"])
  | .target => .alt [.rule .variableDefinition, .rule .expression]
  | .variableDefinition =>
    .seq [oneOf ["var", "const"], .token .ident, .literal ":", .rule .type]
  | .externDefinition =>
    .seq ([.literal "extern", .token .ident] ++ parenthesized .argumentDefinition ++
      [results, .literal ";"])

/-- Add the rules met from a work list, each at its first meeting, depth first. -/
def collect : Nat → List Rule → List Rule → List Rule
  | 0, _, met => met
  | _, [], met => met
  | fuel + 1, r :: todo, met =>
    if met.contains r then collect fuel todo met
    else collect fuel (r.body.rules ++ todo) (met ++ [r])

/-- The rules in the order in which they are first met from the whole program. -/
def reachable : List Rule := collect 1000 [.program] []

end Rule

/-- The text of the grammar. -/
def Grammar.description : String :=
  "\n".intercalate (Rule.reachable.map fun r => r.name ++ " = " ++ r.body.bareText ++ " .")

end Lane
