import FileDrive.Text.Blank
import FileDrive.Text.Number
import FileDrive.Text.Pieces
import FileDrive.Time.Timestamp

/-!
# Reading timestamps

A stored timestamp is read in the form of RFC 3339, with an offset from universal time, or as a bare
date and time with a blank between them. Anything else stands for the epoch.
-/

namespace FileDrive.Time

open FileDrive.Text

/-- Whether a character is an ASCII digit. -/
def isDigit (c : Char) : Bool := (digit? c).isSome

/-- The number that the first digits of a text write, at least `least` and at most `most` of them,
and the text behind. -/
def number? (least most : Nat) (s : List Char) : Option (Nat × List Char) :=
  let digits := (s.take most).takeWhile isDigit
  if digits.length < least then none
  else (appendDigits 0 digits).map (·, s.drop digits.length)

/-- The nanoseconds of a fraction: nine digits count, those behind are passed over. -/
def fraction? (s : List Char) : Option (Nat × List Char) := do
  let (value, rest) ← number? 1 9 s
  let width := ((s.take 9).takeWhile isDigit).length
  return (value * Nat.pow 10 (9 - width), rest.dropWhile isDigit)

/-- The nanoseconds of a fraction, if one follows. -/
def optionalFraction? (s : List Char) : Option (Nat × List Char) :=
  match s with
  | '.' :: rest => fraction? rest
  | _ => some (0, s)

/-- The offset from universal time in seconds that a text consists of. -/
def offset? (s : List Char) : Option Int := do
  match s with
  | ['Z'] | ['z'] => return 0
  | sign :: rest =>
    let negative ← if sign = '+' then some false
      else if sign = '-' ∨ sign = '−' then some true else none
    let (hours, rest) ← number? 2 2 rest
    let rest ← Text.after? [':'] rest
    let (minutes, rest) ← number? 2 2 rest
    if rest = [] ∧ hours < 24 ∧ minutes < 60 then
      let seconds : Int := hours * 3600 + minutes * 60
      return if negative then -seconds else seconds
    else none
  | [] => none

/-- The year, month and day at the start of a text, with dashes between them. -/
def date? (s : List Char) : Option (Date × List Char) := do
  let (year, s) ← number? 4 4 s
  let s ← Text.after? ['-'] s
  let (month, s) ← number? 2 2 s
  let s ← Text.after? ['-'] s
  let (day, s) ← number? 2 2 s
  return (⟨year, month, day⟩, s)

/-- The hour, minute and second at the start of a text, with colons between them. -/
def clock? (s : List Char) : Option ((Nat × Nat × Nat) × List Char) := do
  let (hour, s) ← number? 2 2 s
  let s ← Text.after? [':'] s
  let (minute, s) ← number? 2 2 s
  let s ← Text.after? [':'] s
  let (second, s) ← number? 2 2 s
  return ((hour, minute, second), s)

/-- The timestamp that a text writes in the form of RFC 3339. -/
def ofOffsetForm? (s : List Char) : Option Timestamp := do
  let (date, s) ← date? s
  match s with
  | mark :: s =>
    if mark = 'T' ∨ mark = 't' ∨ mark = ' ' then
      let ((hour, minute, second), s) ← clock? s
      let (nanos, s) ← optionalFraction? s
      let offset ← offset? s
      let shown ← Fields.timestamp? ⟨date, hour, minute, second, nanos⟩
      return ⟨shown.seconds - offset, shown.nanos⟩
    else none
  | [] => none

/-- The year at the start of a text: a sign and any number of digits, or up to four digits. -/
def year? (s : List Char) : Option (Int × List Char) :=
  match s with
  | '-' :: rest => do
    let (year, rest) ← number? 1 rest.length rest
    return (-year, rest)
  | '+' :: rest => do
    let (year, rest) ← number? 1 rest.length rest
    return (year, rest)
  | _ => do
    let (year, rest) ← number? 1 4 s
    return (year, rest)

/-- A number of one or two digits at the start of a text, blanks before it being passed over. -/
def short? (s : List Char) : Option (Nat × List Char) := number? 1 2 (trimStart s)

/-- The timestamp that a text writes as a bare date and time. -/
def ofBareForm? (s : List Char) : Option Timestamp := do
  let (year, s) ← year? (trimStart s)
  let s ← Text.after? ['-'] s
  let (month, s) ← short? s
  let s ← Text.after? ['-'] s
  let (day, s) ← short? s
  let (hour, s) ← short? s
  let s ← Text.after? [':'] s
  let (minute, s) ← short? s
  let s ← Text.after? [':'] s
  let (second, s) ← short? s
  if s = [] then Fields.timestamp? ⟨⟨year, month, day⟩, hour, minute, second, 0⟩ else none

namespace Timestamp

/-- The timestamp that a text writes in either form. -/
def parse? (s : String) : Option Timestamp :=
  (ofOffsetForm? s.toList).or (ofBareForm? s.toList)

/-- The timestamp that a stored text stands for. -/
def ofStored (s : String) : Timestamp := (parse? s).getD epoch

end Timestamp

end FileDrive.Time
