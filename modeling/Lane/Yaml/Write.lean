import Lane.Text.Quoted
import Lane.Yaml.Resolve

set_option relaxedAutoImplicit false
set_option autoImplicit false

/-!
# Writing YAML

A text is written plainly if it reads back as itself so, as a block if it has lines, and between
quotes otherwise. Texts are never folded.

## Main definitions

* `Lane.Yaml.styleOf`: how a text is written.
* `Lane.Yaml.writeText`: a text as a scalar.
* `Lane.Yaml.writeBinary`: bytes as a scalar.
-/

namespace Lane.Yaml

/-! ## What a text contains -/

/-- Whether a character is written as itself between quotes. -/
def isPrintable (c : Char) : Bool :=
  let n := c.toNat
  n = 0x0A || (0x20 ≤ n && n ≤ 0x7E) || (0xA0 ≤ n && n ≤ 0xFFFD && n ≠ 0xFEFF)

/-- Whether a text has a character that needs an escape. -/
def hasSpecial (cs : List Char) : Bool := cs.any fun c => c ≠ '\t' && !isPrintable c

/-- Whether two characters of the given classes follow each other in a text. -/
def hasPair (p q : Char → Bool) : List Char → Bool
  | a :: b :: rest => (p a && q b) || hasPair p q (b :: rest)
  | _ => false

/-- Whether a blank stands directly before a line break. -/
def hasSpaceBreak (cs : List Char) : Bool := hasPair (· = ' ') isBreak cs

/-- Whether a blank stands directly after a line break. -/
def hasBreakSpace (cs : List Char) : Bool := hasPair isBreak (· = ' ') cs

/-- Whether a text starts or ends with a blank or a line break. -/
def hasOuterSpace (cs : List Char) : Bool :=
  let isOuter (c : Char) : Bool := c = ' ' || isBreak c
  cs.head?.any isOuter || cs.getLast?.any isOuter

/-- Whether a text starts with a character that would be taken for an indicator. -/
def startsLikeIndicator : List Char → Bool
  | [] => false
  | c :: rest =>
    Scan.isIndicator c || (['?', ':', '-'].contains c && rest.head?.all isBlank)

/-- Whether a text has a colon before a blank or at its end, or a hash after a space. -/
def hasInnerIndicator : List Char → Bool
  | a :: b :: rest =>
    (b = ':' && rest.head?.all isBlank) || (isSpace a && b = '#') || hasInnerIndicator (b :: rest)
  | _ => false

/-- Whether a text starts like a document mark. -/
def startsLikeDocument (cs : List Char) : Bool :=
  "---".toList.isPrefixOf cs || "...".toList.isPrefixOf cs

/-! ## Plain texts -/

/-- The parts of a number in base sixty: colons, each with one or two digits behind it, and perhaps
a point with digits. -/
def isSexagesimalTail : Nat → List Char → Bool
  | 0, _ => false
  | n + 1, ':' :: rest =>
    match shortNumber? rest with
    | some (k, after) =>
      k < 60 && (after = [] || isSexagesimalTail n after
        || (after.head? = some '.' && after.tail.all fun c => c.isDigit || c = '_'))
    | none => false
  | _, _ => false

/-- Whether a text is a number in base sixty, as older readers know them. -/
def isSexagesimal (s : String) : Bool :=
  let cs := s.toList
  let cs := if cs.head? = some '-' ∨ cs.head? = some '+' then cs.tail else cs
  cs.head?.any Char.isDigit
    && isSexagesimalTail (cs.length + 1) (cs.dropWhile fun c => c.isDigit || c = '_')

/-- The words that older readers take for truth values. -/
def oldBools : List String :=
  ["y", "Y", "yes", "Yes", "YES", "on", "On", "ON", "n", "N", "no", "No", "NO", "off", "Off", "OFF"]

/-- Whether a text without quotes would be read as itself. -/
def readsAsText (s : String) : Bool :=
  (Value.ofPlain s true) matches .text _ && !isSexagesimal s && !oldBools.contains s

/-- Whether the characters of a text allow it to stand without quotes. -/
def isPlainText (cs : List Char) : Bool :=
  !(hasOuterSpace cs || cs.contains '\t' || hasSpecial cs || cs.any isBreak
    || startsLikeDocument cs || startsLikeIndicator cs || hasInnerIndicator cs)

/-! ## Styles -/

/-- How a text is written. -/
def styleOf (s : String) : Style :=
  let cs := s.toList
  if cs.contains '\n' then
    if cs.getLast? = some ' ' || hasSpaceBreak cs || hasSpecial cs then .double else .literal
  else if !readsAsText s then .double
  else if isPlainText cs then .plain
  else if hasBreakSpace cs || hasSpaceBreak cs || cs.contains '\t' || hasSpecial cs then .double
  else .single

/-- The upper-case hexadecimal digits of a number, at least `width` of them. -/
def upperHex (width n : Nat) : String := (Text.hex width n).toUpper

/-- The escape of a character between double quotes. -/
def escapeOf (c : Char) : String :=
  match c.toNat with
  | 0 => "\\0"
  | 7 => "\\a"
  | 8 => "\\b"
  | 9 => "\\t"
  | 10 => "\\n"
  | 11 => "\\v"
  | 12 => "\\f"
  | 13 => "\\r"
  | 0x1B => "\\e"
  | 0x22 => "\\\""
  | 0x5C => "\\\\"
  | 0x85 => "\\N"
  | 0xA0 => "\\_"
  | 0x2028 => "\\L"
  | 0x2029 => "\\P"
  | n =>
    if n ≤ 0xFF then "\\x" ++ upperHex 2 n
    else if n ≤ 0xFFFF then "\\u" ++ upperHex 4 n
    else "\\U" ++ upperHex 8 n

/-- Whether a character needs an escape between double quotes. -/
def needsEscape (c : Char) : Bool := !isPrintable c || isBreak c || c = '"' || c = '\\'

/-- A text between double quotes. Behind a byte order mark at its start every character is
escaped. -/
def writeDouble (cs : List Char) : String :=
  let isMarked := cs.head? = some byteOrderMark
  let write (c : Char) : String := if isMarked || needsEscape c then escapeOf c else c.toString
  "\"" ++ String.join (cs.map write) ++ "\""

/-- The indentation of a line. -/
def indentation (indent : Nat) : List Char := List.replicate indent ' '

/-- The characters of lines, each line indented. At the start nothing is on the line yet if `fresh`
is set. A quote is doubled if `quoted` is set. -/
def writeLines (indent : Nat) (quoted : Bool) : Bool → List Char → List Char
  | _, [] => []
  | fresh, c :: rest =>
    if isBreak c then c :: writeLines indent quoted true rest
    else (if fresh then indentation indent else []) ++ (if quoted ∧ c = '\'' then [c, c] else [c])
      ++ writeLines indent quoted false rest

/-- How a block keeps the line breaks at its end. -/
def chompingMark (cs : List Char) : String :=
  match cs.reverse with
  | [] => "-"
  | [c] => if isBreak c then "+" else "-"
  | c :: d :: _ => if !isBreak c then "-" else if isBreak d then "+" else ""

/-- The number of columns that a level is indented by. -/
def levelWidth : Nat := 4

/-- A text as a block of lines. -/
def writeLiteral (indent : Nat) (s : String) : String :=
  let cs := s.toList
  let hint := if cs.head?.any fun c => c = ' ' || isBreak c then toString levelWidth else ""
  "|" ++ hint ++ chompingMark cs ++ (if cs.head?.any isBreak then "" else "\n")
    ++ String.ofList (writeLines indent false true cs)

/-- A text as a scalar, whose further lines are indented. -/
def writeText (indent : Nat) (s : String) : String :=
  match styleOf s with
  | .plain => s
  | .single => "'" ++ String.ofList (writeLines indent true false s.toList) ++ "'"
  | .double | .folded => writeDouble s.toList
  | .literal => writeLiteral indent s

/-- The number of characters on a line of bytes in base64. -/
def binaryWidth : Nat := 70

/-- Some characters on lines of bytes in base64, each of which is ended. -/
def binaryLines : Nat → List Char → List Char
  | 0, _ => []
  | n + 1, cs =>
    if cs = [] then []
    else cs.take binaryWidth ++ ['\n'] ++ binaryLines n (cs.drop binaryWidth)

/-- Bytes as a scalar, whose further lines are indented. -/
def writeBinary (indent : Nat) (bytes : List UInt8) : String :=
  let cs := Text.base64Chars bytes
  "!!binary " ++
    if cs.length < binaryWidth then String.ofList cs
    else writeLiteral indent (String.ofList (binaryLines cs.length cs))

/-- The end of the line that a scalar is on. -/
def lineEnd (scalar : String) : String :=
  if scalar.toList.getLast?.any isBreak then "" else "\n"

/-- A pair of a mapping on a level, with a value that is already written. -/
def writePair (level : Nat) (key value : String) : String :=
  String.ofList (indentation (levelWidth * level)) ++ key ++ ": " ++ value ++ lineEnd value

/-- A pair of a mapping on a level whose value is a text. -/
def writeTextPair (level : Nat) (key : String) (value : RawText) : String :=
  let indent := levelWidth * (level + 1)
  writePair level key <|
    match value with
    | .text s => writeText indent s
    | .bytes bs => writeBinary indent bs

end Lane.Yaml
