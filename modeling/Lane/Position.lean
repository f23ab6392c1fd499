import Lane.Text.Rune

set_option relaxedAutoImplicit false
set_option autoImplicit false

/-!
# Positions in a source text

Lines and columns count from one, a column counts characters, and the offset counts bytes.

## Main definitions

* `Lane.Position`: a place in a file.
* `Lane.Position.advance`: the place after a piece of text.
-/

namespace Lane

/-- A place in a file. -/
structure Position where
  file : String := ""
  offset : Nat := 0
  line : Int := 0
  column : Int := 0
  deriving DecidableEq, Repr, Inhabited

namespace Position

/-- The first place of a file. -/
def start (file : String) : Position := ⟨file, 0, 1, 1⟩

/-- The number of runes from the last newline on, the newline counted, or none without one. -/
def sinceNewline? (rs : List Rune) : Option Nat :=
  rs.foldl (fun n r => if r.char = '\n' then some 1 else n.map (· + 1)) none

/-- The place after `rs`, for a text that starts at `p`. Directly after a newline the column is
one. -/
def advance (p : Position) (rs : List Rune) : Position :=
  { p with
    offset := p.offset + Rune.byteCount rs
    line := p.line + (rs.filter fun r => r.char = '\n').length
    column := match sinceNewline? rs with
      | some n => n
      | none => p.column + rs.length }

/-- Line and column, as `line:column`. -/
def lineColumn (p : Position) : String := s!"{p.line}:{p.column}"

/-- File, line and column, the file left out where it has no name. -/
def located (p : Position) : String :=
  (if p.file = "" then "" else p.file ++ ":") ++ p.lineColumn

/-- File, line and column, with `<input>` for a text without a file name. -/
def describe (p : Position) : String :=
  (if p.file = "" then "<input>" else p.file) ++ ":" ++ p.lineColumn

end Position

end Lane
