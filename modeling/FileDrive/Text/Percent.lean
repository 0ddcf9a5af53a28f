import FileDrive.Text.Number

/-!
# Percent encoding

Each byte of a text that is not one of a set of plain characters is written as a percent sign and
two hexadecimal digits. Reading leaves alone what is no such escape.
-/

namespace FileDrive.Text

/-- The characters that stand for themselves everywhere in an address. -/
def isUnreserved (c : Char) : Bool :=
  c.isAlphanum || c = '-' || c = '.' || c = '_' || c = '~'

/-- The escape of a byte. -/
def percentByte (b : UInt8) : List Char :=
  ['%', hexCharUpper (b.toNat / 16), hexCharUpper (b.toNat % 16)]

/-- A byte that is plain when it is an unreserved character. -/
def encodeByte (b : UInt8) : List Char :=
  let c := Char.ofNat b.toNat
  if isUnreserved c then [c] else percentByte b

/-- A text with the escapes of all its bytes that are no unreserved characters. -/
def percentEncode (s : String) : String :=
  String.ofList (s.toUTF8.toList.flatMap encodeByte)

/-- The value of a byte that is a hexadecimal digit. -/
def hexByte? (b : UInt8) : Option Nat := hexDigit? (Char.ofNat b.toNat)

/-- The bytes that a text with escapes stands for. -/
def percentDecode : List UInt8 → List UInt8
  | b :: h :: l :: rest =>
    match if b = 0x25 then (hexByte? h, hexByte? l) else (none, none) with
    | (some high, some low) => UInt8.ofNat (high * 16 + low) :: percentDecode rest
    | _ => b :: percentDecode (h :: l :: rest)
  | short => short

/-- The bytes of a list as an array. -/
def bytesOf (bytes : List UInt8) : ByteArray := ⟨bytes.toArray⟩

/-- The text that a text with escapes stands for, if its bytes are one. -/
def percentDecoded? (s : String) : Option String :=
  String.fromUTF8? (bytesOf (percentDecode s.toUTF8.toList))

end FileDrive.Text
