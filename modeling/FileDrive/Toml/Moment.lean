import FileDrive.Text.Number
import FileDrive.Text.Reader
import FileDrive.Time.Calendar
import FileDrive.Toml.Value

/-!
# Dates and times of TOML

A date, a time of the day, or a date with a time and perhaps an offset from universal time. Days
have to exist in the calendar.
-/

namespace FileDrive.Toml

open FileDrive.Text (Reader valueOf)
open FileDrive.Text.Reader

/-- A number of `width` digits that lies within bounds. -/
def counter (width least most : Nat) : Reader Nat := do
  let n := valueOf 10 (← times (charIf Char.isDigit) width)
  if least ≤ n ∧ n ≤ most then return n else failure

/-- A day of the calendar. -/
def date : Reader Unit := do
  let year ← counter 4 0 9999
  char '-'
  let month ← counter 2 1 12
  char '-'
  discard (counter 2 1 (Time.monthLength year month))

/-- A time of the day, with any number of digits after the seconds. -/
def timeOfDay : Reader Unit := do
  discard (counter 2 0 23)
  char ':'
  discard (counter 2 0 59)
  char ':'
  discard (counter 2 0 60)
  discard (maybe (char '.' *> span1 Char.isDigit))

/-- The offset of a time from universal time. -/
def offset : Reader Unit :=
  discard (charIf fun c => c = 'Z' || c = 'z') <|> do
    discard (charIf fun c => c = '+' || c = '-')
    discard (counter 2 0 23)
    char ':'
    discard (counter 2 0 59)

/-- A date, a time of the day, or both. -/
def moment : Reader Value := do
  let clock := do
    discard (charIf fun c => c = 'T' || c = 't' || c = ' ')
    timeOfDay
    maybe offset
  (date *> discard (maybe clock)) <|> timeOfDay
  return .moment

end FileDrive.Toml
