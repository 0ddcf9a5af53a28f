/-!
# Reading UTF-8 that may be broken

Bytes that are no UTF-8 are read with a replacement character for each sequence that starts as a
character and does not go on as one, as much of it as does. Such a reader never fails.
-/

namespace FileDrive.Text

/-- A reader of bytes: the characters so far, last first, and what is missing of the next one. -/
structure Utf8Reader where
  chars : List Char
  /-- How many bytes are missing; none between characters. -/
  missing : Nat
  /-- The least and the greatest byte that may come next. -/
  low : UInt8
  high : UInt8
  /-- The bits of the character so far. -/
  bits : Nat

namespace Utf8Reader

/-- The reader before the first byte. -/
def start : Utf8Reader := ⟨[], 0, 0, 0, 0⟩

/-- The character in the place of what is none. -/
def replacement : Char := '\ufffd'

/-- One more character. -/
def emit (r : Utf8Reader) (c : Char) : Utf8Reader := { r with chars := c :: r.chars, missing := 0 }

/-- The first byte of a character. -/
def begin (r : Utf8Reader) (b : UInt8) : Utf8Reader :=
  if b < 0x80 then r.emit (Char.ofNat b.toNat)
  else if 0xC2 ≤ b ∧ b ≤ 0xDF then ⟨r.chars, 1, 0x80, 0xBF, b.toNat - 0xC0⟩
  else if 0xE0 ≤ b ∧ b ≤ 0xEF then
    ⟨r.chars, 2, if b = 0xE0 then 0xA0 else 0x80, if b = 0xED then 0x9F else 0xBF, b.toNat - 0xE0⟩
  else if 0xF0 ≤ b ∧ b ≤ 0xF4 then
    ⟨r.chars, 3, if b = 0xF0 then 0x90 else 0x80, if b = 0xF4 then 0x8F else 0xBF, b.toNat - 0xF0⟩
  else r.emit replacement

/-- One more byte. -/
def step (r : Utf8Reader) (b : UInt8) : Utf8Reader :=
  if r.missing = 0 then r.begin b
  else if r.low ≤ b ∧ b ≤ r.high then
    let bits := r.bits * 0x40 + (b.toNat - 0x80)
    if r.missing = 1 then r.emit (Char.ofNat bits)
    else ⟨r.chars, r.missing - 1, 0x80, 0xBF, bits⟩
  else (r.emit replacement).begin b

/-- The text at the end of the bytes. -/
def finish (r : Utf8Reader) : String :=
  String.ofList (if r.missing = 0 then r.chars else replacement :: r.chars).reverse

end Utf8Reader

/-- The text of some bytes, with replacement characters where they are no UTF-8. -/
def lossyText (bytes : List UInt8) : String :=
  (bytes.foldl Utf8Reader.step .start).finish

end FileDrive.Text
