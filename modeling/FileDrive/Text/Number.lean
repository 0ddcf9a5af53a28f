/-!
# Decimal numbers in a text

Reading unsigned numbers with a bound, as a request header or an address holds them.
-/

namespace FileDrive.Text

/-- The bound of an unsigned number of 64 bits. -/
def wordBound : Nat := 0x10000000000000000

/-- The signed number of 64 bits with the same bits as an integer's last 64. -/
def signed64 (n : Int) : Int := n.bmod wordBound

/-- The value of an ASCII digit. -/
def digit? (c : Char) : Option Nat :=
  if '0' ≤ c ∧ c ≤ '9' then some (c.toNat - '0'.toNat) else none

/-- The value of a hexadecimal digit, of either case. -/
def hexDigit? (c : Char) : Option Nat :=
  if '0' ≤ c ∧ c ≤ '9' then some (c.toNat - '0'.toNat)
  else if 'a' ≤ c ∧ c ≤ 'f' then some (c.toNat - 'a'.toNat + 10)
  else if 'A' ≤ c ∧ c ≤ 'F' then some (c.toNat - 'A'.toNat + 10)
  else none

/-- Whether a character is a digit of a base that is at most sixteen. -/
def isDigitOf (base : Nat) (c : Char) : Bool := (hexDigit? c).any (· < base)

/-- The number that some digits of a base write. -/
def valueOf (base : Nat) (digits : List Char) : Nat :=
  digits.foldl (fun n c => n * base + (hexDigit? c).getD 0) 0

/-- Appends the digits `s` to the number `n`; `none` if one is not a digit. -/
def appendDigits (n : Nat) : List Char → Option Nat
  | [] => some n
  | c :: rest => do appendDigits (n * 10 + (← digit? c)) rest

/-- The number written as one or more digits and nothing else. -/
def readDigits : List Char → Option Nat
  | [] => none
  | s => appendDigits 0 s

/-- The number below `bound` written as one or more digits, after an optional plus sign. -/
def readBelow (bound : Nat) (s : List Char) : Option Nat := do
  let n ← readDigits (if s.head? = some '+' then s.tail else s)
  if n < bound then some n else none

/-- A number in at least `width` digits, with zeros in front. -/
def padded (width n : Nat) : String :=
  let s := toString n
  String.ofList (List.replicate (width - s.length) '0') ++ s

/-- The lower-case hexadecimal digit of a value below sixteen. -/
def hexChar (n : Nat) : Char :=
  if n < 10 then Char.ofNat ('0'.toNat + n) else Char.ofNat ('a'.toNat + (n - 10))

/-- The upper-case hexadecimal digit of a value below sixteen. -/
def hexCharUpper (n : Nat) : Char :=
  if n < 10 then Char.ofNat ('0'.toNat + n) else Char.ofNat ('A'.toNat + (n - 10))

/-- The last `width` hexadecimal digits of a number. -/
def hexDigits : (width n : Nat) → List Char
  | 0, _ => []
  | width + 1, n => hexDigits width (n / 16) ++ [hexChar (n % 16)]

end FileDrive.Text
