import Lane.Grammar.Rules

set_option relaxedAutoImplicit false
set_option autoImplicit false

/-!
# Matching tokens against the grammar

Choices are ordered and tried on a copy of the state. A choice that fails after more than eight
tokens fails the whole match; one that fails earlier is given up, and its mismatch is remembered so
that the one which got furthest can be reported.

## Main definitions

* `Lane.Tree`: the tokens of a program under the rules that matched them.
* `Lane.Mismatch`: a token that the grammar does not allow.
* `Lane.Grammar.run`: match one expression.
* `Lane.Tree.ofTokens`: the tree of a whole program.
-/

namespace Lane

/-- Tokens under the rules that matched them. A node knows where its first token starts and where
the text after its last token starts. -/
inductive Tree where
  | leaf (token : Token)
  | node (rule : Rule) (pos endPos : Position) (children : List Tree)
  deriving Repr, Inhabited

/-- A token that the grammar does not allow, with what it would allow where that is known. -/
structure Mismatch where
  pos : Position
  found : String
  expected : Option (List Grammar) := none
  deriving Repr, Inhabited

/-- The message about a mismatch. -/
def Mismatch.message (m : Mismatch) : String :=
  "unexpected token " ++ Text.quote m.found ++
    match m.expected with
    | none => ""
    | some es => " (expected " ++ Grammar.tailText es ++ ")"

/-- A token of the grammar with the place of whatever follows it in the text. -/
structure Lexeme where
  token : Token
  after : Position
  deriving Repr, Inhabited

namespace Lexeme

/-- The tokens that reach the grammar, each with the place of the next token of any class. -/
def ofTokens : List Token → List Lexeme
  | [] => []
  | [t] => if t.cls.isElided then [] else [⟨t, t.pos⟩]
  | t :: u :: rest =>
    if t.cls.isElided then ofTokens (u :: rest) else ⟨t, u.pos⟩ :: ofTokens (u :: rest)

end Lexeme

/-- The state of a match: the lexemes left, how many were taken, where the text goes on, and the
deepest mismatch so far with the number of tokens taken when it was met. -/
structure Cursor where
  rest : List Lexeme
  taken : Nat
  here : Position
  deepest : Option Mismatch
  depth : Nat
  deriving Repr, Inhabited

/-- What became of matching an expression. -/
inductive Outcome where
  | noMatch
  | matched (trees : List Tree)
  | failed (mismatch : Mismatch)
  deriving Repr, Inhabited

namespace Cursor

/-- A choice that fails after more tokens than this fails the whole match. -/
def lookahead : Nat := 8

/-- The next token, the last one being the end of the text. -/
def peek (c : Cursor) : Token :=
  match c.rest with
  | l :: _ => l.token
  | [] => ⟨.eof, "", c.here⟩

/-- The next token as a mismatch. -/
def mismatch (c : Cursor) (expected : Option (List Grammar)) : Mismatch :=
  ⟨c.peek.pos, c.peek.shown, expected⟩

/-- Take the next token if it passes a test; the end of the text passes none. -/
def take (c : Cursor) (p : Token → Bool) : Outcome × Cursor :=
  match c.rest with
  | l :: rest =>
    if l.token.cls != .eof && p l.token then
      (.matched [.leaf l.token], { c with rest, taken := c.taken + 1, here := l.after })
    else (.noMatch, c)
  | [] => (.noMatch, c)

/-- Remember a mismatch met here, unless a deeper one is known. -/
def remember (c : Cursor) (m : Mismatch) : Cursor :=
  if c.taken ≥ c.depth then { c with deepest := some m, depth := c.taken } else c

/-- Continue from where a branch ended. -/
def accept (c branch : Cursor) : Cursor :=
  let moved := { c with rest := branch.rest, taken := branch.taken, here := branch.here }
  if branch.depth ≥ c.depth then
    { moved with deepest := branch.deepest, depth := branch.depth }
  else moved

/-- Learn from a branch that failed with `m`, and say whether it got too far to be given up. -/
def stop (c : Cursor) (m : Mismatch) (branch : Cursor) : Bool × Cursor :=
  let learned :=
    if branch.depth > c.depth then
      { c with deepest := branch.deepest, depth := branch.depth }
    else if branch.taken ≥ c.depth then
      { c with deepest := some m, depth := max branch.taken branch.depth }
    else c
  if branch.taken > c.taken + lookahead then (true, learned.accept branch)
  else (false, learned)

end Cursor

/-- A matcher of some expression. -/
abbrev Matcher := Cursor → Outcome × Cursor

namespace Grammar

/-- Match the later parts of a sequence, `done` being the trees of the earlier ones. -/
def runRest (run : Grammar → Matcher) : List Grammar → List Tree → Matcher
  | [], done, c => (.matched done, c)
  | e :: es, done, c =>
    match run e c with
    | (.matched ts, c) => runRest run es (done ++ ts) c
    | (.failed m, c) => (.failed m, c)
    | (.noMatch, c) => (.failed (c.mismatch (some (e :: es))), c)

/-- Match a sequence: once its first part matches, all others have to. -/
def runSeq (run : Grammar → Matcher) : List Grammar → Matcher
  | [], c => (.matched [], c)
  | e :: es, c =>
    match run e c with
    | (.matched ts, c) => runRest run es ts c
    | other => other

/-- Match the first choice that can be matched. When none can, the mismatch of the choice that got
furthest counts; `best` is that of the earlier choices with the tokens they took. -/
def runAlt (run : Grammar → Matcher) : List Grammar → Option (Mismatch × Nat) → Matcher
  | [], none, c => (.noMatch, c)
  | [], some (m, _), c => (.failed m, c.remember m)
  | e :: es, best, c =>
    match run e c with
    | (.matched ts, branch) => (.matched ts, c.accept branch)
    | (.noMatch, _) => runAlt run es best c
    | (.failed m, branch) =>
      match c.stop m branch with
      | (true, c) => (.failed m, c)
      | (false, c) =>
        let reached := match best with
          | some (_, n) => n
          | none => 0
        runAlt run es (if branch.taken ≥ reached then some (m, branch.taken) else best) c

/-- Match an expression at most `limit` more times, `done` being the trees so far. -/
def runMany (run : Matcher) : Nat → List Tree → Matcher
  | 0, done, c => (.matched done, c)
  | limit + 1, done, c =>
    match run c with
    | (.matched ts, branch) => runMany run limit (done ++ ts) (c.accept branch)
    | (.noMatch, branch) => (.matched done, c.accept branch)
    | (.failed m, branch) =>
      match (c.remember m).stop m branch with
      | (true, c) => (.failed m, c)
      | (false, c) => (.matched done, c)

/-- Match an expression, with fuel for the nesting of expressions. -/
def run : Nat → Grammar → Matcher
  | 0, _, c => (.noMatch, c)
  | fuel + 1, e, c =>
    match e with
    | .literal s => c.take fun t => t.text == s
    | .token cls => c.take fun t => t.cls == cls
    | .seq es => runSeq (run fuel) es c
    | .alt es => runAlt (run fuel) es none c
    | .optional e => runMany (run fuel e) 1 [] c
    | .many e => runMany (run fuel e) (c.rest.length + 1) [] c
    | .ahead e =>
      match run fuel e c with
      | (.matched _, _) => (.matched [], c)
      | _ => (.failed (c.mismatch none), c)
    | .rule r =>
      match run fuel r.body c with
      | (.matched ts, after) => (.matched [.node r c.peek.pos after.here ts], after)
      | (.noMatch, after) => (.noMatch, after)
      | (.failed m, after) => (.failed m, after.remember m)

/-- Fuel enough for any list of that many tokens: between two tokens no chain of expressions is
longer than the factor. -/
def fuelFor (tokens : Nat) : Nat := 100 * (tokens + 1)

end Grammar

/-- The tree of a whole program, or the mismatch to report. -/
def Tree.ofTokens (tokens : List Token) : Except Mismatch Tree :=
  let lexemes := Lexeme.ofTokens tokens
  let here := match tokens with
    | t :: _ => t.pos
    | [] => {}
  let start : Cursor := ⟨lexemes, 0, here, none, 0⟩
  match Grammar.run (Grammar.fuelFor tokens.length) (.rule .program) start with
  | (.failed m, _) => .error m
  | (.noMatch, c) => .error (c.mismatch none)
  | (.matched ts, c) =>
    if c.peek.cls = .eof then
      match ts with
      | t :: _ => .ok t
      | [] => .error (c.mismatch none)
    else match c.deepest with
      | some m => if c.taken ≥ c.depth then .error (c.mismatch none) else .error m
      | none => .error (c.mismatch none)

end Lane
