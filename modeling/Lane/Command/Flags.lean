import Lane.Number.Integer
import Lane.Text.Quoted

set_option relaxedAutoImplicit false
set_option autoImplicit false

/-!
# Flags of a command line

Flags come before the arguments. A flag is written with one or two dashes, and its value behind an
equals sign or as the next word. Switches take a value only behind an equals sign, and switches of
one letter may be written together.

## Main definitions

* `Lane.Flag`: the flags that a command knows.
* `Lane.FlagError`: why a command line is refused.
* `Lane.CommandLine.parse`: split a command line into flags and arguments.
* `Lane.CommandLine.text`, `Lane.CommandLine.integer`, `Lane.CommandLine.switch`,
  `Lane.CommandLine.isSet`: what the flags say.
-/

namespace Lane

/-- What a flag takes. -/
inductive FlagKind where
  | text
  | integer (default : Int)
  | switch
  deriving DecidableEq, Repr, Inhabited

/-- A flag that a command knows. -/
structure Flag where
  name : String
  /-- Other names of the flag. -/
  aliases : List String := []
  kind : FlagKind
  /-- What the flag is for. -/
  usage : String
  deriving DecidableEq, Repr, Inhabited

/-- All names of a flag. -/
def Flag.names (f : Flag) : List String := f.name :: f.aliases

/-- The value that a flag was given. -/
inductive FlagValue where
  | text (s : String)
  | integer (n : Int)
  | switch (b : Bool)
  deriving DecidableEq, Repr, Inhabited

/-- Why a command line is refused. -/
inductive FlagError where
  | malformed (word : String)
  | undefined (name : String)
  | needsArgument (name : String)
  | notAnInteger (value name : String) (e : IntegerError)
  | notABool (value name : String)
  /-- A flag is given under two of its names. -/
  | twoForms (second first : String)
  deriving DecidableEq, Repr, Inhabited

/-- The message of an error. -/
def FlagError.message : FlagError → String
  | .malformed word => "bad flag syntax: " ++ word
  | .undefined name => "flag provided but not defined: -" ++ name
  | .needsArgument name => "flag needs an argument: -" ++ name
  | .notAnInteger value name e =>
    "invalid value " ++ Text.quote value ++ " for flag -" ++ name ++ ": "
      ++ match e with
        | .malformed => "parse error"
        | .outOfRange => "value out of range"
  | .notABool value name =>
    "invalid boolean value " ++ Text.quote value ++ " for -" ++ name ++ ": parse error"
  | .twoForms second first => "Cannot use two forms of the same flag: " ++ second ++ " " ++ first

/-- A command line split into flags and arguments. -/
structure CommandLine where
  /-- The flags that are given, under the names that are used, the last ones first. -/
  given : List (String × FlagValue) := []
  args : List String := []
  deriving DecidableEq, Repr, Inhabited

namespace CommandLine

/-- The truth value of a word. -/
def boolOfText? (s : String) : Option Bool :=
  if ["1", "t", "T", "true", "TRUE", "True"].contains s then some true
  else if ["0", "f", "F", "false", "FALSE", "False"].contains s then some false
  else none

/-- What a word of a command line is. -/
inductive Word where
  | argument
  /-- The mark after which there are only arguments. -/
  | stop
  | flag (name : String) (value : Option String)
  | malformed
  deriving DecidableEq, Repr, Inhabited

/-- The name of a flag and its value behind an equals sign. -/
def splitValue (cs : List Char) : String × Option String :=
  match cs with
  | [] => ("", none)
  | c :: rest =>
    let name := String.ofList (c :: rest.takeWhile (· ≠ '='))
    match rest.dropWhile (· ≠ '=') with
    | [] => (name, none)
    | _ :: value => (name, some (String.ofList value))

/-- What a word of a command line is. -/
def Word.ofText (word : String) : Word :=
  let flag (cs : List Char) : Word :=
    match cs with
    | [] | '-' :: _ | '=' :: _ => .malformed
    | _ => .flag (splitValue cs).1 (splitValue cs).2
  match word.toList with
  | ['-', '-'] => .stop
  | '-' :: '-' :: cs => flag cs
  | '-' :: c :: cs => flag (c :: cs)
  | _ => .argument

/-- The value of a flag that takes one. -/
def valueOf (kind : FlagKind) (name value : String) : Except FlagError FlagValue :=
  match kind with
  | .text => .ok (.text value)
  | .integer _ =>
    match Integer.signed none value.toList with
    | .ok n => .ok (.integer n)
    | .error e => .error (.notAnInteger value name e)
  | .switch =>
    match boolOfText? value with
    | some b => .ok (.switch b)
    | none => .error (.notABool value name)

/-- The value of a flag that is written with a value or none, and whether the next word was needed
for it. -/
def flagValue (f : Flag) (name : String) (value next : Option String) :
    Except FlagError (FlagValue × Bool) :=
  match f.kind, value, next with
  | .switch, none, _ => .ok (.switch true, false)
  | kind, some s, _ => (valueOf kind name s).map (·, false)
  | kind, none, some s => (valueOf kind name s).map (·, true)
  | _, none, none => .error (.needsArgument name)

/-- Read flags up to the first argument. What was read before an error is kept. -/
def readFlags (flags : List Flag) :
    List (String × FlagValue) → List String → CommandLine × Option FlagError
  | given, [] => (⟨given, []⟩, none)
  | given, word :: rest =>
    match Word.ofText word with
    | .argument => (⟨given, word :: rest⟩, none)
    | .stop => (⟨given, rest⟩, none)
    | .malformed => (⟨given, []⟩, some (.malformed word))
    | .flag name value =>
      match flags.find? fun f => f.names.contains name with
      | none => (⟨given, []⟩, some (.undefined name))
      | some f =>
        match flagValue f name value rest.head? with
        | .error e => (⟨given, []⟩, some e)
        | .ok (v, false) => readFlags flags ((name, v) :: given) rest
        | .ok (v, true) => readFlags flags ((name, v) :: given) rest.tail
  termination_by _ words => words.length
  decreasing_by all_goals simp only [List.length_cons, List.length_tail]; omega

/-- A word of several letters that are each a flag, as one word for each letter. -/
def splitLetters? (flags : List Flag) (word : String) : Option (List String) :=
  match word.toList with
  | '-' :: letters =>
    if letters.head? = some '-' ∨ word.utf8ByteSize ≤ 2 then none
    else if letters.all fun c => flags.any fun f => f.names.contains c.toString then
      some (letters.map fun c => "-" ++ c.toString)
    else none
  | _ => none

/-- A word without the dashes at its start. -/
def withoutDashes (word : String) : String := String.ofList (word.toList.dropWhile (· = '-'))

/-- Read flags; a word that is no flag is split into its letters, at most `n` times. -/
def readSplitting (flags : List Flag) :
    Nat → List (String × FlagValue) → List String → Except FlagError CommandLine
  | n, given, words =>
    match readFlags flags given words with
    | (line, none) => .ok line
    | (line, some (.undefined name)) =>
      match n, words.dropWhile (withoutDashes · ≠ name) with
      | n + 1, word :: rest =>
        match splitLetters? flags word with
        | some [_] | none => .error (.undefined name)
        | some letters => readSplitting flags n line.given (letters ++ rest)
      | _, _ => .error (.undefined name)
    | (_, some e) => .error e

/-- Refuse a command line in which a flag is given under two of its names. -/
def checkForms (flags : List Flag) (line : CommandLine) : Except FlagError Unit :=
  flags.forM fun f =>
    match f.names.filter fun n => (line.given.lookup n).isSome with
    | first :: second :: _ => .error (.twoForms second first)
    | _ => .ok ()

/-- Split a command line into flags and arguments. -/
def parse (flags : List Flag) (words : List String) : Except FlagError CommandLine := do
  let line ← readSplitting flags words.length [] words
  checkForms flags line
  return line

/-- The value of a flag, under whichever of its names it is given. -/
def value? (line : CommandLine) (f : Flag) : Option FlagValue :=
  f.names.findSome? fun n => line.given.lookup n

/-- Whether a flag is given. -/
def isSet (line : CommandLine) (f : Flag) : Bool := (line.value? f).isSome

/-- The text of a flag, empty if it is not given. -/
def text (line : CommandLine) (f : Flag) : String :=
  match line.value? f with
  | some (.text s) => s
  | _ => ""

/-- The integer of a flag, or its default. -/
def integer (line : CommandLine) (f : Flag) : Int :=
  match line.value? f, f.kind with
  | some (.integer n), _ => n
  | _, .integer n => n
  | _, _ => 0

/-- Whether a switch is on. -/
def switch (line : CommandLine) (f : Flag) : Bool := line.value? f = some (.switch true)

end CommandLine

end Lane
