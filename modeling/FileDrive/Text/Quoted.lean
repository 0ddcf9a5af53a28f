import FileDrive.Text.Shown

/-!
# Texts in quotes

A text in quotes for a log: what would end it or cannot be seen is written as an escape, so that a
reader can tell all texts apart.
-/

namespace FileDrive.Text

/-- The hexadecimal digits of a number, without zeros in front. -/
def hexText (n : Nat) : List Char := Nat.toDigits 16 n

/-- A character inside quotes. -/
def quotedChar (c : Char) : List Char :=
  if c = '"' ∨ c = '\\' then ['\\', c]
  else if c = '\n' then ['\\', 'n']
  else if c = '\r' then ['\\', 'r']
  else if c = '\t' then ['\\', 't']
  else if c = '\x00' then ['\\', '0']
  else if isShown c then [c]
  else '\\' :: 'u' :: Char.ofNat 0x7B :: hexText c.toNat ++ [Char.ofNat 0x7D]

/-- A text in quotes. -/
def inQuotes (s : String) : String :=
  "\"" ++ String.ofList (s.toList.flatMap quotedChar) ++ "\""

@[simp] theorem inQuotes_empty : inQuotes "" = "\"\"" := by decide

end FileDrive.Text
