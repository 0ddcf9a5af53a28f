import FileDrive.Text.Number
import FileDrive.Text.Reader
import FileDrive.Toml.Value

/-!
# Numbers of TOML

Integers in four bases and floating point numbers. Single underscores may stand between digits. An
integer has to fit 64 bits, and a positive number with a fraction or an exponent must not round to
infinity.
-/

namespace FileDrive.Toml

open FileDrive.Text (Reader isDigitOf valueOf)
open FileDrive.Text.Reader

/-- One or more digits of a base, with single underscores between them. -/
def digits (base : Nat) : Reader (List Char) := do
  let first ← span1 (isDigitOf base)
  let more ← many (char '_' *> span1 (isDigitOf base))
  return first ++ more.flatten

/-- The integer, if it fits 64 bits. -/
def integer? (n : Int) : Option Value :=
  if -0x8000000000000000 ≤ n ∧ n < 0x8000000000000000 then some (.integer n) else none

/-- An integer that is written with a mark and digits of a base. -/
def integerInBase (mark : String) (base : Nat) : Reader Value := do
  word mark
  integer? (valueOf base (← digits base))

/-- Whether a number is negative, by the sign that may stand in front of it. -/
def isNegative : Reader Bool := do
  return (← maybe (charIf fun c => c = '+' || c = '-')) = some '-'

/-- The digits of a decimal integer: no zero stands in front of others. -/
def wholeDigits : Reader (List Char) := do
  let whole ← digits 10
  if 1 < whole.length ∧ whole.head? = some '0' then failure else return whole

/-- The exponent of a number. -/
def exponent : Reader Int := do
  discard (charIf fun c => c = 'e' || c = 'E')
  let negative ← isNegative
  let n := valueOf 10 (← digits 10)
  return if negative then -n else n

/-- The least number that rounds to no finite one of double precision. -/
def overflow : Nat := Nat.pow 2 1024 - Nat.pow 2 970

/-- Whether `n` times the power of ten with this exponent rounds to a finite number of double
precision. Numbers of more than 310 digits before the point do not, those of none do. -/
def isFinite (n : Nat) (exponent : Int) : Bool :=
  let places := (toString n).length + exponent
  n = 0 || places ≤ 0 ||
    (places ≤ 310 &&
      n * Nat.pow 10 exponent.toNat < overflow * Nat.pow 10 (-exponent).toNat)

/-- An integer or a number with a fraction or an exponent, in decimal digits. -/
def decimal (negative : Bool) : Reader Value := do
  let whole ← wholeDigits
  let fraction ← maybe (char '.' *> digits 10)
  let exponent ← maybe exponent
  let n := valueOf 10 whole
  match fraction, exponent with
  | none, none => integer? (if negative then -n else n)
  | _, _ =>
    let places := fraction.getD []
    if negative || isFinite (valueOf 10 (whole ++ places)) (exponent.getD 0 - places.length) then
      return .float
    else failure

/-- A number. -/
def number : Reader Value :=
  integerInBase "0x" 16 <|> integerInBase "0o" 8 <|> integerInBase "0b" 2 <|> do
    let negative ← isNegative
    (word "inf" <|> word "nan") *> pure .float <|> decimal negative

end FileDrive.Toml
