import FileDrive.Time.Calendar

/-!
# Timestamps

A timestamp is a point in Coordinated Universal Time, to the nanosecond. A leap second is the second
before it with a thousand million nanoseconds or more, so that timestamps are ordered by seconds,
then nanoseconds.
-/

namespace FileDrive.Time

/-- A point in time. -/
structure Timestamp where
  /-- Seconds since 1970, leap seconds not counted. -/
  seconds : Int
  /-- Nanoseconds within the second. From `10 ^ 9` on they lie in a leap second. -/
  nanos : Nat
  deriving DecidableEq, Repr

/-- The nanoseconds of a second. -/
def nanosPerSecond : Nat := 1000000000

/-- The seconds of a day. -/
def secondsPerDay : Int := 86400

namespace Timestamp

/-- The beginning of 1970. -/
def epoch : Timestamp := ⟨0, 0⟩

instance : Inhabited Timestamp := ⟨epoch⟩

instance : LT Timestamp where
  lt a b := a.seconds < b.seconds ∨ (a.seconds = b.seconds ∧ a.nanos < b.nanos)

instance : LE Timestamp where
  le a b := ¬ b < a

instance (a b : Timestamp) : Decidable (a < b) :=
  inferInstanceAs (Decidable (a.seconds < b.seconds ∨ (a.seconds = b.seconds ∧ a.nanos < b.nanos)))

instance (a b : Timestamp) : Decidable (a ≤ b) := inferInstanceAs (Decidable (¬ b < a))

/-- The later of two timestamps. -/
def latest (a b : Timestamp) : Timestamp := if a < b then b else a

/-- A timestamp without what it has beyond whole microseconds. -/
def truncated (t : Timestamp) : Timestamp := ⟨t.seconds, t.nanos / 1000 * 1000⟩

/-- The timestamp one microsecond later, for a timestamp outside leap seconds. -/
def next (t : Timestamp) : Timestamp :=
  if t.nanos + 1000 < nanosPerSecond then ⟨t.seconds, t.nanos + 1000⟩
  else ⟨t.seconds + 1, t.nanos + 1000 - nanosPerSecond⟩

/-- Microseconds since 1970. -/
def micros (t : Timestamp) : Int := t.seconds * 1000000 + t.nanos / 1000

theorem lt_irrefl (a : Timestamp) : ¬ a < a := by
  rintro (h | ⟨-, h⟩) <;> omega

theorem lt_trans {a b c : Timestamp} (h : a < b) (k : b < c) : a < c := by
  rcases h with h | ⟨h, h'⟩ <;> rcases k with k | ⟨k, k'⟩
  · exact Or.inl (by omega)
  · exact Or.inl (by omega)
  · exact Or.inl (by omega)
  · exact Or.inr ⟨by omega, by omega⟩

/-- The next timestamp is later. -/
theorem lt_next (t : Timestamp) : t < t.next := by
  unfold next
  split
  · exact Or.inr ⟨rfl, by simp⟩
  · exact Or.inl (show t.seconds < t.seconds + 1 by omega)

end Timestamp

/-- The years in which a timestamp can lie: the first and the last. -/
def yearLimits : Int × Int := (-262143, 262142)

/-- The fields of a timestamp that a clock and a calendar show. -/
structure Fields where
  date : Date
  hour : Nat
  minute : Nat
  /-- Sixty in a leap second. -/
  second : Nat
  /-- Nanoseconds within the second shown. -/
  nanos : Nat
  deriving DecidableEq, Repr

namespace Fields

/-- The fields of a timestamp. -/
def ofTimestamp (t : Timestamp) : Fields :=
  let rest := (t.seconds % secondsPerDay).toNat
  let leap := nanosPerSecond ≤ t.nanos
  { date := Date.ofDayNumber (t.seconds / secondsPerDay)
    hour := rest / 3600
    minute := rest / 60 % 60
    second := if leap then rest % 60 + 1 else rest % 60
    nanos := if leap then t.nanos - nanosPerSecond else t.nanos }

/-- The timestamp with the given fields, if there is one. The sixtieth second of any minute may be
a leap second. -/
def timestamp? (f : Fields) : Option Timestamp :=
  if f.date.exists? && yearLimits.1 ≤ f.date.year && f.date.year ≤ yearLimits.2 &&
      f.hour < 24 && f.minute < 60 && f.second ≤ 60 && f.nanos < nanosPerSecond then
    let leap := f.second = 60
    let second := if leap then 59 else f.second
    some
      { seconds := f.date.dayNumber * secondsPerDay + (f.hour * 3600 + f.minute * 60 + second)
        nanos := if leap then f.nanos + nanosPerSecond else f.nanos }
  else none

end Fields

/-- The timestamp a number of seconds later, if it lies within the limits. -/
def Timestamp.after? (t : Timestamp) (seconds : Nat) : Option Timestamp :=
  let later : Timestamp := ⟨t.seconds + seconds, t.nanos⟩
  let year := (Date.ofDayNumber (later.seconds / secondsPerDay)).year
  if yearLimits.1 ≤ year ∧ year ≤ yearLimits.2 then some later else none

end FileDrive.Time
