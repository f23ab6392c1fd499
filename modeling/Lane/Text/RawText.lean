import Lane.Text.Quoted
import Lane.Text.Rune

set_option relaxedAutoImplicit false
set_option autoImplicit false

/-!
# Texts that may hold any bytes

A setting is a sequence of bytes. Nearly always they are characters; where they are not, messages
show the replacement character for each byte that is none, and the bytes themselves are kept.

## Main definitions

* `Lane.RawText`: characters, or bytes that are not all characters.
* `Lane.RawText.ofBytes`: the text of some bytes.
* `Lane.RawText.shown`: a text as messages show it.
* `Lane.RawText.quoted`: a text between double quotes, where no byte is lost.
-/

namespace Lane

/-- Characters, or bytes that are not all characters. -/
inductive RawText where
  | text (s : String)
  | bytes (bs : List UInt8)
  deriving DecidableEq, Repr, Inhabited

/-- Text is raw text. -/
instance : Coe String RawText := ⟨.text⟩

namespace RawText

/-- The text of some bytes. -/
def ofBytes (bs : List UInt8) : RawText :=
  let s := Rune.text (Rune.decode bs)
  if s.toUTF8.toList = bs then .text s else .bytes bs

/-- The bytes of a text. -/
def toBytes : RawText → List UInt8
  | .text s => s.toUTF8.toList
  | .bytes bs => bs

/-- A text as messages show it. -/
def shown : RawText → String
  | .text s => s
  | .bytes bs => Rune.text (Rune.decode bs)

/-- The runes of some bytes between quotes. A byte that is no character is written in
hexadecimal. -/
def quotedRunes : List Rune → List UInt8 → String
  | [], _ => ""
  | r :: rest, bs =>
    (if r.char = Rune.replacement ∧ r.width = 1 then "\\x" ++ Text.hex 2 (bs.headD 0).toNat
      else Text.quoteChar r.char)
    ++ quotedRunes rest (bs.drop r.width)

/-- A text between double quotes. -/
def quoted : RawText → String
  | .text s => Text.quote s
  | .bytes bs => "\"" ++ quotedRunes (Rune.decode bs) bs ++ "\""

end RawText

end Lane
