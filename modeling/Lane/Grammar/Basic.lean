import Lane.Text.Quoted
import Lane.Token.Basic

set_option relaxedAutoImplicit false
set_option autoImplicit false

/-!
# Grammar expressions

The grammar of Lane is data: one expression for each rule. The same expression is printed, named in
messages as what was expected, and matched against tokens.

## Main definitions

* `Lane.Rule`: the names of the rules.
* `Lane.Grammar`: grammar expressions.
* `Lane.Grammar.tailText`: a sequence of expressions as text.
-/

namespace Lane

/-- The rules of the grammar. -/
inductive Rule where
  | program
  | topDecl
  | classDefinition
  | classMember
  | fieldDefinition
  | type
  | functionDefinition
  | argumentDefinition
  | statement
  | ifStatement
  | expression
  | conjunction
  | comparison
  | sum
  | term
  | unary
  | postfixed
  | factor
  | ccall
  | staticCall
  | functionCall
  | suffixed
  | memberSuffix
  | opTerm
  | opSum
  | opComparison
  | opConjunction
  | opDisjunction
  | block
  | whileStatement
  | repeatStatement
  | assignment
  | target
  | variableDefinition
  | externDefinition
  deriving DecidableEq, Repr, Inhabited

/-- The name of a rule. -/
def Rule.name : Rule → String
  | .program => "Program"
  | .topDecl => "TopDecl"
  | .classDefinition => "ClassDefinition"
  | .classMember => "ClassMember"
  | .fieldDefinition => "FieldDefinition"
  | .type => "Type"
  | .functionDefinition => "FunctionDefinition"
  | .argumentDefinition => "ArgumentDefinition"
  | .statement => "Statement"
  | .ifStatement => "If"
  | .expression => "Expression"
  | .conjunction => "Conjunction"
  | .comparison => "Comparison"
  | .sum => "Sum"
  | .term => "Term"
  | .unary => "Unary"
  | .postfixed => "Postfix"
  | .factor => "Factor"
  | .ccall => "CCall"
  | .staticCall => "StaticCall"
  | .functionCall => "FunctionCall"
  | .suffixed => "Suffix"
  | .memberSuffix => "MemberSuffix"
  | .opTerm => "OpTerm"
  | .opSum => "OpSum"
  | .opComparison => "OpComparison"
  | .opConjunction => "OpConjunction"
  | .opDisjunction => "OpDisjunction"
  | .block => "Block"
  | .whileStatement => "While"
  | .repeatStatement => "Repeat"
  | .assignment => "Assignment"
  | .target => "Target"
  | .variableDefinition => "VariableDefinition"
  | .externDefinition => "ExternDefinition"

/-- A grammar expression. -/
inductive Grammar where
  /-- A token with this text, whatever its class. -/
  | literal (text : String)
  /-- A token of this class, whatever its text. -/
  | token (cls : TokenClass)
  /-- What a rule stands for. -/
  | rule (r : Rule)
  /-- All of these, one after the other. -/
  | seq (parts : List Grammar)
  /-- The first of these that matches. -/
  | alt (choices : List Grammar)
  /-- This or nothing. -/
  | optional (inner : Grammar)
  /-- This any number of times. -/
  | many (inner : Grammar)
  /-- A promise that this comes next, which takes no token. -/
  | ahead (inner : Grammar)
  deriving Repr, Inhabited

namespace Grammar

mutual

/-- An expression as part of a larger one: longer sequences and choices stand in parentheses. -/
def text : Grammar → String
  | .literal s => Text.quote s
  | .token c => "<" ++ c.name.toLower ++ ">"
  | .rule r => r.name
  | .seq [e] => e.text
  | .seq es => "(" ++ " ".intercalate (texts es) ++ ")"
  | .alt es => "(" ++ " | ".intercalate (texts es) ++ ")"
  | .optional e => e.text ++ "?"
  | .many e => e.text ++ "*"
  | .ahead (.seq es) => "(?= " ++ " ".intercalate (texts es) ++ ")"
  | .ahead e => "(?= " ++ e.text ++ ")"

/-- The texts of several expressions. -/
def texts : List Grammar → List String
  | [] => []
  | e :: es => e.text :: texts es

end

/-- A sequence of expressions as text, without parentheses around it. -/
def tailText (es : List Grammar) : String := " ".intercalate (texts es)

/-- An expression as text, without parentheses around it. -/
def bareText : Grammar → String
  | .seq es => tailText es
  | .alt es => " | ".intercalate (texts es)
  | e => e.text

mutual

/-- The rules that an expression names, in order. -/
def rules : Grammar → List Rule
  | .literal _ | .token _ => []
  | .rule r => [r]
  | .seq es | .alt es => rulesOf es
  | .optional e | .many e | .ahead e => e.rules

/-- The rules that several expressions name, in order. -/
def rulesOf : List Grammar → List Rule
  | [] => []
  | e :: es => e.rules ++ rulesOf es

end

end Grammar

end Lane
