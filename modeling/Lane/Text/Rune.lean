set_option relaxedAutoImplicit false
set_option autoImplicit false

/-!
# Runes

A source text is a sequence of bytes, read as characters. A byte that starts no well-formed UTF-8
sequence stands for the replacement character alone, so decoding never fails and loses no byte.

## Main definitions

* `Lane.Rune`: a character with the number of bytes it took.
* `Lane.Rune.decode`: the characters of a byte sequence.
* `Lane.Rune.text`: the text of a sequence of runes.
-/

namespace Lane

/-- A character of a source text, with the number of bytes that encode it there. -/
structure Rune where
  char : Char
  width : Nat
  deriving DecidableEq, Repr, Inhabited

namespace Rune

/-- The character that stands for a byte outside every well-formed sequence. -/
def replacement : Char := Char.ofNat 0xFFFD

/-- The payload of a continuation byte, if `b` is one between `lo` and `hi`. -/
def continuation? (lo hi : Nat) (b : UInt8) : Option Nat :=
  if lo ≤ b.toNat ∧ b.toNat ≤ hi then some (b.toNat % 64) else none

/-- The character whose two-byte encoding is `a` and then the first byte of the rest. -/
def two? (a : Nat) : List UInt8 → Option Rune
  | b :: _ => do
    let y ← continuation? 0x80 0xBF b
    return ⟨Char.ofNat (a % 32 * 64 + y), 2⟩
  | _ => none

/-- The character whose three-byte encoding starts with `a`, its second byte in `lo` to `hi`. -/
def three? (a lo hi : Nat) : List UInt8 → Option Rune
  | b :: c :: _ => do
    let y ← continuation? lo hi b
    let z ← continuation? 0x80 0xBF c
    return ⟨Char.ofNat ((a % 16 * 64 + y) * 64 + z), 3⟩
  | _ => none

/-- The character whose four-byte encoding starts with `a`, its second byte in `lo` to `hi`. -/
def four? (a lo hi : Nat) : List UInt8 → Option Rune
  | b :: c :: d :: _ => do
    let y ← continuation? lo hi b
    let z ← continuation? 0x80 0xBF c
    let w ← continuation? 0x80 0xBF d
    return ⟨Char.ofNat (((a % 8 * 64 + y) * 64 + z) * 64 + w), 4⟩
  | _ => none

/-- The rune at the start of `b :: rest`, if a well-formed sequence starts there. -/
def first? (b : UInt8) (rest : List UInt8) : Option Rune :=
  let a := b.toNat
  if a ≤ 0x7F then some ⟨Char.ofNat a, 1⟩
  else if 0xC2 ≤ a ∧ a ≤ 0xDF then two? a rest
  else if a = 0xE0 then three? a 0xA0 0xBF rest
  else if a = 0xED then three? a 0x80 0x9F rest
  else if 0xE1 ≤ a ∧ a ≤ 0xEF then three? a 0x80 0xBF rest
  else if a = 0xF0 then four? a 0x90 0xBF rest
  else if 0xF1 ≤ a ∧ a ≤ 0xF3 then four? a 0x80 0xBF rest
  else if a = 0xF4 then four? a 0x80 0x8F rest
  else none

/-- Decode a byte sequence, `skip` of whose first bytes belong to a rune already read. -/
def decodeFrom : Nat → List UInt8 → List Rune
  | _, [] => []
  | skip + 1, _ :: rest => decodeFrom skip rest
  | 0, b :: rest =>
    let r := (first? b rest).getD ⟨replacement, 1⟩
    r :: decodeFrom (r.width - 1) rest

/-- The characters of a byte sequence. -/
def decode (bytes : List UInt8) : List Rune := decodeFrom 0 bytes

/-- The runes of a well-formed text. -/
def ofString (s : String) : List Rune := s.toList.map fun c => ⟨c, c.utf8Size⟩

/-- The text of a sequence of runes. -/
def text (rs : List Rune) : String := String.ofList (rs.map Rune.char)

/-- The number of bytes that a sequence of runes took. -/
def byteCount (rs : List Rune) : Nat := rs.foldr (fun r n => r.width + n) 0

end Rune

end Lane
