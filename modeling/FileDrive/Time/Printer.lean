import FileDrive.Text.Number
import FileDrive.Time.Timestamp

/-!
# Timestamps as text

The three texts of a timestamp: with six digits of fraction, as it is stored; with the fewest groups
of three digits, as it is answered; and as a date header has it.
-/

namespace FileDrive.Time

open FileDrive.Text

/-- A year in four digits; with a sign where four do not do. -/
def yearText (year : Int) : String :=
  if 0 ≤ year ∧ year ≤ 9999 then padded 4 year.toNat
  else (if year < 0 then "-" else "+") ++ padded 4 year.natAbs

/-- Hours, minutes and seconds, with colons between them. -/
def Fields.clock (f : Fields) : String :=
  padded 2 f.hour ++ ":" ++ padded 2 f.minute ++ ":" ++ padded 2 f.second

/-- Date and time up to the second. -/
def Fields.upToSecond (f : Fields) : String :=
  yearText f.date.year ++ "-" ++ padded 2 f.date.month ++ "-" ++ padded 2 f.date.day ++ "T" ++
    f.clock

/-- The digits of a fraction of a second, in the fewest groups of three that are exact. -/
def fraction (nanos : Nat) : String :=
  if nanos = 0 then ""
  else if nanos % 1000000 = 0 then "." ++ padded 3 (nanos / 1000000)
  else if nanos % 1000 = 0 then "." ++ padded 6 (nanos / 1000)
  else "." ++ padded 9 nanos

namespace Timestamp

/-- A timestamp as it is stored: six digits of fraction, what is smaller being dropped. -/
def stored (t : Timestamp) : String :=
  let f := Fields.ofTimestamp t
  f.upToSecond ++ "." ++ padded 6 (f.nanos / 1000) ++ "Z"

/-- A timestamp as it is answered: as few groups of fraction digits as are exact. -/
def answered (t : Timestamp) : String :=
  let f := Fields.ofTimestamp t
  f.upToSecond ++ fraction f.nanos ++ "Z"

/-- A timestamp as a date header has it. -/
def header (t : Timestamp) : String :=
  let f := Fields.ofTimestamp t
  weekdayNames.getD (weekday (t.seconds / secondsPerDay)) "" ++ ", " ++ padded 2 f.date.day ++ " " ++
    monthNames.getD (f.date.month - 1) "" ++ " " ++ yearText f.date.year ++ " " ++ f.clock ++ " GMT"

end Timestamp

end FileDrive.Time
