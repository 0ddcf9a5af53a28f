import FileDrive.Proofs.DayNumbers
import FileDrive.Time.Parser
import FileDrive.Time.Printer
import Mathlib.Data.String.Basic

/-!
# Times as they are stored

The text of a time has every field in a fixed number of digits, so that texts are in the order of
the times (`stored_lt_stored`), and the time is read back from it to the microsecond
(`ofStored_stored`). All this is so for years of four digits. A longer year is written with a sign,
which the reader does not take: the text then stands for the epoch (`ofStored_stored_of_late`).
-/

namespace FileDrive.Text

/-! ## Numbers in a fixed number of digits -/

/-- The last digits of a number, as many as are asked for. -/
def lastDigits : (width n : Nat) → List Char
  | 0, _ => []
  | width + 1, n => lastDigits width (n / 10) ++ [Nat.digitChar (n % 10)]

@[simp] theorem length_lastDigits (width n : Nat) : (lastDigits width n).length = width := by
  induction width generalizing n with
  | zero => rfl
  | succ width ih => simp [lastDigits, ih]

theorem lastDigits_zero (width : Nat) : lastDigits width 0 = List.replicate width '0' := by
  induction width with
  | zero => rfl
  | succ width ih =>
    rw [List.replicate_succ', lastDigits, Nat.zero_div, ih]
    rfl

theorem replicate_append_toDigits {width n : Nat} (h : n < 10 ^ (width + 1)) :
    List.replicate (width + 1 - (Nat.toDigits 10 n).length) '0' ++ Nat.toDigits 10 n =
      lastDigits (width + 1) n := by
  induction width generalizing n with
  | zero =>
    rw [Nat.toDigits_of_lt_base (by omega)]
    simp [lastDigits, Nat.mod_eq_of_lt (show n < 10 by omega)]
  | succ width ih =>
    rw [lastDigits]
    by_cases hn : n < 10
    · rw [Nat.toDigits_of_lt_base hn, Nat.mod_eq_of_lt hn, Nat.div_eq_of_lt hn, lastDigits_zero]
      rfl
    · have hlt : n / 10 < 10 ^ (width + 1) := by
        rw [Nat.pow_succ] at h
        omega
      rw [Nat.toDigits_of_base_le (by omega) (by omega), ← ih hlt, List.length_append,
        List.length_singleton, Nat.add_sub_add_right, List.append_assoc]

theorem toList_padded {width n : Nat} (hw : 0 < width) (h : n < 10 ^ width) :
    (padded width n).toList = lastDigits width n := by
  obtain ⟨width, rfl⟩ : ∃ w, width = w + 1 := ⟨width - 1, by omega⟩
  unfold padded
  rw [String.toList_append, String.toList_ofList, ← String.length_toList,
    show (toString n).toList = Nat.toDigits 10 n from Nat.toList_repr]
  exact replicate_append_toDigits h

/-- However many digits a number has, it is written in all of them. -/
theorem exists_toList_padded {width : Nat} (hw : 0 < width) (n : Nat) :
    ∃ k, 0 < k ∧ n < 10 ^ k ∧ (padded width n).toList = lastDigits k n := by
  by_cases h : n < 10 ^ width
  · exact ⟨width, hw, h, toList_padded hw h⟩
  · have hpos : 0 < (Nat.toDigits 10 n).length := Nat.length_toDigits_pos
    obtain ⟨k, hk⟩ : ∃ k, (Nat.toDigits 10 n).length = k + 1 := Nat.exists_eq_add_one.2 hpos
    have hlt : n < 10 ^ (k + 1) :=
      (Nat.length_toDigits_le_iff (by omega) (by omega)).1 (le_of_eq hk)
    have hlong : width ≤ k := by
      have := mt (Nat.length_toDigits_le_iff (by omega) hw).1 h
      omega
    refine ⟨k + 1, by omega, hlt, ?_⟩
    rw [← replicate_append_toDigits hlt, hk, Nat.sub_self]
    unfold padded
    rw [String.toList_append, String.toList_ofList, ← String.length_toList,
      show (toString n).toList = Nat.toDigits 10 n from Nat.toList_repr, hk,
      Nat.sub_eq_zero_of_le (by omega)]

theorem digit?_digitChar {n : Nat} (h : n < 10) : digit? (Nat.digitChar n) = some n := by
  revert n
  decide

theorem isDigit_of_mem_lastDigits {width n : Nat} {c : Char} (h : c ∈ lastDigits width n) :
    (digit? c).isSome = true := by
  induction width generalizing n with
  | zero => cases h
  | succ width ih =>
    rw [lastDigits, List.mem_append, List.mem_singleton] at h
    obtain h | rfl := h
    · exact ih h
    · rw [digit?_digitChar (Nat.mod_lt n (by omega))]
      rfl

theorem appendDigits_append (n : Nat) (s t : List Char) :
    appendDigits n (s ++ t) = (appendDigits n s).bind fun m => appendDigits m t := by
  induction s generalizing n with
  | nil => rfl
  | cons c s ih =>
    rw [List.cons_append, appendDigits, appendDigits]
    cases digit? c with
    | none => rfl
    | some d => exact ih (n * 10 + d)

theorem appendDigits_lastDigits {width n : Nat} (h : n < 10 ^ width) :
    appendDigits 0 (lastDigits width n) = some n := by
  induction width generalizing n with
  | zero =>
    obtain rfl : n = 0 := by omega
    rfl
  | succ width ih =>
    have hlt : n / 10 < 10 ^ width := by
      rw [Nat.pow_succ] at h
      omega
    rw [lastDigits, appendDigits_append, ih hlt, Option.bind_some, appendDigits,
      digit?_digitChar (Nat.mod_lt n (by omega))]
    show some (n / 10 * 10 + n % 10) = some n
    rw [Nat.div_add_mod']

/-- Where numbers have the same number of digits, texts that begin with them are in their order. -/
theorem lastDigits_append_lt {width n m : Nat} (h : n < m) (hm : m < 10 ^ width)
    (s t : List Char) : lastDigits width n ++ s < lastDigits width m ++ t := by
  induction width generalizing n m s t with
  | zero => omega
  | succ width ih =>
    have hlt : m / 10 < 10 ^ width := by
      rw [Nat.pow_succ] at hm
      omega
    rw [lastDigits, lastDigits, List.append_assoc, List.append_assoc]
    by_cases hdiv : n / 10 < m / 10
    · exact ih hdiv hlt _ _
    · have hsame : n / 10 = m / 10 := by omega
      have hdigit : n % 10 < m % 10 := by omega
      rw [hsame]
      apply List.append_left_lt
      rw [List.singleton_append, List.singleton_append, List.cons_lt_cons_iff]
      left
      have hlast : m % 10 < 10 := Nat.mod_lt m (by omega)
      show (Nat.digitChar (n % 10)).toNat < (Nat.digitChar (m % 10)).toNat
      rw [Nat.toNat_digitChar_of_lt_ten (by omega), Nat.toNat_digitChar_of_lt_ten hlast]
      omega

end FileDrive.Text

namespace FileDrive.Time

open FileDrive.Text

/-! ## Reading what is written -/

/-- Digits are read as the number they write when they are enough, and as many as are read at most
or followed by something else. -/
theorem number?_append {least most value : Nat} {digits rest : List Char}
    (hdigits : ∀ c ∈ digits, isDigit c = true) (hvalue : appendDigits 0 digits = some value)
    (hleast : least ≤ digits.length) (hmost : digits.length ≤ most)
    (hend : digits.length = most ∨ ∀ c ∈ rest.head?, isDigit c = false) :
    number? least most (digits ++ rest) = some (value, rest) := by
  have hnone : (rest.take (most - digits.length)).takeWhile isDigit = [] := by
    obtain hall | hother := hend
    · rw [hall, Nat.sub_self]
      rfl
    · cases rest with
      | nil => simp
      | cons c rest =>
        cases most - digits.length with
        | zero => rfl
        | succ k =>
          rw [List.take_succ_cons, List.takeWhile_cons, hother c rfl]
          rfl
  have htaken : ((digits ++ rest).take most).takeWhile isDigit = digits := by
    rw [List.take_append, List.take_of_length_le hmost, List.takeWhile_append_of_pos hdigits,
      hnone, List.append_nil]
  unfold number?
  rw [htaken]
  dsimp only
  rw [if_neg (by omega), hvalue, List.drop_left]
  rfl

theorem number?_lastDigits {least most width n : Nat} {rest : List Char} (h : n < 10 ^ width)
    (hleast : least ≤ width) (hmost : width ≤ most)
    (hend : width = most ∨ ∀ c ∈ rest.head?, isDigit c = false) :
    number? least most (lastDigits width n ++ rest) = some (n, rest) := by
  apply number?_append
  · intro c hc
    exact isDigit_of_mem_lastDigits hc
  · exact appendDigits_lastDigits h
  · rwa [length_lastDigits]
  · rwa [length_lastDigits]
  · rwa [length_lastDigits]

theorem number?_two {n : Nat} (h : n < 100) (rest : List Char) :
    number? 2 2 (lastDigits 2 n ++ rest) = some (n, rest) :=
  number?_lastDigits h (le_refl _) (le_refl _) (Or.inl rfl)

theorem date?_lastDigits {year month day : Nat} (hyear : year < 10000) (hmonth : month < 100)
    (hday : day < 100) (rest : List Char) :
    date? (lastDigits 4 year ++ '-' :: (lastDigits 2 month ++ '-' :: (lastDigits 2 day ++ rest))) =
      some (⟨year, month, day⟩, rest) := by
  have hread : number? 4 4 (lastDigits 4 year ++ '-' :: (lastDigits 2 month ++
      '-' :: (lastDigits 2 day ++ rest))) = some (year, _) :=
    number?_lastDigits hyear (le_refl _) (le_refl _) (Or.inl rfl)
  simp [date?, hread, Text.after?, number?_two hmonth, number?_two hday]

theorem short?_lastDigits {n : Nat} (h : n < 100) (rest : List Char) :
    short? (lastDigits 2 n ++ rest) = some (n, rest) := by
  have hfirst : isBlank (Nat.digitChar (n / 10 % 10)) = false := by
    have hlt : n / 10 % 10 < 10 := Nat.mod_lt _ (by omega)
    revert hlt
    generalize n / 10 % 10 = d
    revert d
    decide
  have htrimmed : trimStart (lastDigits 2 n ++ rest) = lastDigits 2 n ++ rest := by
    show (Nat.digitChar (n / 10 % 10) :: _).dropWhile isBlank = _
    rw [List.dropWhile_cons_of_neg (by rw [hfirst]; exact Bool.false_ne_true)]
    rfl
  unfold short?
  rw [htrimmed]
  exact number?_lastDigits h (by omega) (le_refl _) (Or.inl rfl)

theorem year?_lastDigits {k year : Nat} (hk : 0 < k) (hyear : year < 10 ^ k) (rest : List Char) :
    year? (trimStart ('+' :: (lastDigits k year ++ '-' :: rest))) =
      some ((year : Int), '-' :: rest) := by
  have hread : number? 1 (lastDigits k year ++ '-' :: rest).length
      (lastDigits k year ++ '-' :: rest) = some (year, '-' :: rest) :=
    number?_lastDigits hyear hk (by simp) (Or.inr fun c hc => by
      obtain rfl := Option.some.inj hc
      decide)
  show ((number? 1 _ (lastDigits k year ++ '-' :: rest)).bind fun found =>
    some ((found.1 : Int), found.2)) = _
  rw [hread]
  rfl

theorem clock?_lastDigits {hour minute second : Nat} (hhour : hour < 100) (hminute : minute < 100)
    (hsecond : second < 100) (rest : List Char) :
    clock? (lastDigits 2 hour ++ ':' :: (lastDigits 2 minute ++ ':' ::
      (lastDigits 2 second ++ rest))) = some ((hour, minute, second), rest) := by
  simp [clock?, Text.after?, number?_two hhour, number?_two hminute, number?_two hsecond]

theorem fraction?_lastDigits {micros : Nat} (h : micros < 1000000) :
    fraction? (lastDigits 6 micros ++ ['Z']) = some (micros * 1000, ['Z']) := by
  have hread : number? 1 9 (lastDigits 6 micros ++ ['Z']) = some (micros, ['Z']) :=
    number?_lastDigits h (by omega) (by omega) (Or.inr fun c hc => by
      obtain rfl := Option.some.inj hc
      decide)
  have hdigits : ∀ c ∈ lastDigits 6 micros, isDigit c = true := fun c hc =>
    isDigit_of_mem_lastDigits hc
  have hwidth : (((lastDigits 6 micros ++ ['Z']).take 9).takeWhile isDigit).length = 6 := by
    rw [List.take_of_length_le (by simp), List.takeWhile_append_of_pos hdigits, List.length_append,
      length_lastDigits]
    rfl
  unfold fraction?
  simp only [Option.bind_eq_bind, hread, Option.bind_some, hwidth]
  rfl

/-! ## The order of the texts -/

namespace Fields

/-- Fields that are shown in two digits each, the year in four and microseconds in six. -/
structure Shown (f : Fields) : Prop where
  year : 0 ≤ f.date.year ∧ f.date.year ≤ 9999
  month : f.date.month < 100
  day : f.date.day < 100
  hour : f.hour < 100
  minute : f.minute < 100
  second : f.second < 100
  nanos : f.nanos < nanosPerSecond

/-- The text of fields that are shown. -/
def text (f : Fields) : List Char :=
  lastDigits 4 f.date.year.toNat ++ '-' :: (lastDigits 2 f.date.month ++ '-' ::
    (lastDigits 2 f.date.day ++ 'T' :: (lastDigits 2 f.hour ++ ':' :: (lastDigits 2 f.minute ++
      ':' :: (lastDigits 2 f.second ++ '.' :: (lastDigits 6 (f.nanos / 1000) ++ ['Z']))))))

/-- The order of fields, in whole microseconds. -/
def Before (f g : Fields) : Prop :=
  f.date.Before g.date ∨ f.date = g.date ∧ (f.hour < g.hour ∨ f.hour = g.hour ∧
    (f.minute < g.minute ∨ f.minute = g.minute ∧ (f.second < g.second ∨ f.second = g.second ∧
      f.nanos / 1000 < g.nanos / 1000)))

theorem toList_text {f : Fields} (h : f.Shown) :
    (f.upToSecond ++ "." ++ padded 6 (f.nanos / 1000) ++ "Z").toList = f.text := by
  have hnanos := h.nanos
  unfold nanosPerSecond at hnanos
  have hyear := h.year
  unfold upToSecond clock yearText text
  rw [if_pos h.year]
  simp only [String.toList_append, toList_padded (show 0 < 2 by omega) h.month,
    toList_padded (show 0 < 2 by omega) h.day, toList_padded (show 0 < 2 by omega) h.hour,
    toList_padded (show 0 < 2 by omega) h.minute, toList_padded (show 0 < 2 by omega) h.second,
    toList_padded (show 0 < 4 by omega) (show f.date.year.toNat < 10 ^ 4 by omega),
    toList_padded (show 0 < 6 by omega) (show f.nanos / 1000 < 10 ^ 6 by omega)]
  simp

theorem lastDigits_cons_lt {width n m : Nat} {s t : List Char} (mark : Char)
    (h : n < m ∨ n = m ∧ s < t) (hm : m < 10 ^ width) :
    lastDigits width n ++ mark :: s < lastDigits width m ++ mark :: t := by
  obtain hlt | ⟨rfl, hlt⟩ := h
  · exact lastDigits_append_lt hlt hm _ _
  · apply List.append_left_lt
    exact List.cons_lt_cons_iff.2 (Or.inr ⟨rfl, hlt⟩)

/-- Earlier fields have a smaller text. -/
theorem text_lt {f g : Fields} (hf : f.Shown) (hg : g.Shown) (h : f.Before g) :
    f.text < g.text := by
  have hyear := hf.year
  have hyear' := hg.year
  have hnanos := hg.nanos
  unfold nanosPerSecond at hnanos
  have hlex : f.date.year.toNat < g.date.year.toNat ∨ f.date.year.toNat = g.date.year.toNat ∧
      (f.date.month < g.date.month ∨ f.date.month = g.date.month ∧
        (f.date.day < g.date.day ∨ f.date.day = g.date.day ∧
          (f.hour < g.hour ∨ f.hour = g.hour ∧ (f.minute < g.minute ∨ f.minute = g.minute ∧
            (f.second < g.second ∨ f.second = g.second ∧
              f.nanos / 1000 < g.nanos / 1000))))) := by
    obtain hdate | ⟨hdate, htime⟩ := h
    · unfold Date.Before at hdate
      omega
    · rw [hdate]
      exact Or.inr ⟨rfl, Or.inr ⟨rfl, Or.inr ⟨rfl, htime⟩⟩⟩
  refine lastDigits_cons_lt _ (hlex.imp_right <| And.imp_right fun h => ?_) (by omega)
  refine lastDigits_cons_lt _ (h.imp_right <| And.imp_right fun h => ?_) hg.month
  refine lastDigits_cons_lt _ (h.imp_right <| And.imp_right fun h => ?_) hg.day
  refine lastDigits_cons_lt _ (h.imp_right <| And.imp_right fun h => ?_) hg.hour
  refine lastDigits_cons_lt _ (h.imp_right <| And.imp_right fun h => ?_) hg.minute
  refine lastDigits_cons_lt _ (h.imp_right <| And.imp_right fun h => ?_) hg.second
  exact lastDigits_append_lt h (by omega) _ _

end Fields

theorem Date.monthLength_le (year : Int) (month : Nat) : monthLength year month ≤ 31 := by
  unfold monthLength
  split
  · split <;> omega
  · split <;> omega

/-- The month and the day of a date are shown in two digits each. -/
theorem Date.ofDayNumber_lt (n : Int) :
    (ofDayNumber n).month < 100 ∧ (ofDayNumber n).day < 100 := by
  obtain ⟨hlow, hhigh, hfirst, hlast⟩ := (exists_iff _).1 (ofDayNumber_spec n).1
  have hlength := monthLength_le (ofDayNumber n).year (ofDayNumber n).month
  omega

namespace Timestamp

variable {t u : Timestamp}

/-- The year that a time lies in. -/
def year (t : Timestamp) : Int := (Date.ofDayNumber (t.seconds / secondsPerDay)).year

/-- A time that a stored text stands for: a year has four digits there, and leap seconds are left
out. -/
structure Storable (t : Timestamp) : Prop where
  nanos : t.nanos < nanosPerSecond
  year : 0 ≤ t.year ∧ t.year ≤ 9999

theorem ofTimestamp_eq (h : t.nanos < nanosPerSecond) :
    Fields.ofTimestamp t =
      { date := Date.ofDayNumber (t.seconds / secondsPerDay)
        hour := (t.seconds % secondsPerDay).toNat / 3600
        minute := (t.seconds % secondsPerDay).toNat / 60 % 60
        second := (t.seconds % secondsPerDay).toNat % 60
        nanos := t.nanos } := by
  unfold Fields.ofTimestamp
  dsimp only
  rw [if_neg (by omega), if_neg (by omega)]

theorem Storable.shown (h : t.Storable) : (Fields.ofTimestamp t).Shown := by
  obtain ⟨hmonth, hday⟩ := Date.ofDayNumber_lt (t.seconds / secondsPerDay)
  have hrest : (t.seconds % secondsPerDay).toNat < 86400 := by
    unfold secondsPerDay
    omega
  rw [ofTimestamp_eq h.nanos]
  constructor
  · exact h.year
  · exact hmonth
  · exact hday
  · show (t.seconds % secondsPerDay).toNat / 3600 < 100
    omega
  · show (t.seconds % secondsPerDay).toNat / 60 % 60 < 100
    omega
  · show (t.seconds % secondsPerDay).toNat % 60 < 100
    omega
  · exact h.nanos

/-- Later times have later fields. -/
theorem before_ofTimestamp (ht : t.nanos < nanosPerSecond) (hu : u.nanos < nanosPerSecond)
    (h : t.truncated < u.truncated) : (Fields.ofTimestamp t).Before (Fields.ofTimestamp u) := by
  have hlt : t.seconds < u.seconds ∨ t.seconds = u.seconds ∧ t.nanos / 1000 < u.nanos / 1000 := by
    change t.seconds < u.seconds ∨
      (t.seconds = u.seconds ∧ t.nanos / 1000 * 1000 < u.nanos / 1000 * 1000) at h
    omega
  rw [ofTimestamp_eq ht, ofTimestamp_eq hu]
  unfold Fields.Before
  dsimp only
  by_cases hday : t.seconds / secondsPerDay < u.seconds / secondsPerDay
  · exact Or.inl (Date.before_ofDayNumber hday)
  · unfold secondsPerDay at *
    have hsame : t.seconds / 86400 = u.seconds / 86400 := by omega
    right
    rw [hsame]
    refine ⟨rfl, ?_⟩
    have hrest : (t.seconds % 86400).toNat < (u.seconds % 86400).toNat ∨
        (t.seconds % 86400).toNat = (u.seconds % 86400).toNat ∧
          t.nanos / 1000 < u.nanos / 1000 := by omega
    clear hlt hsame hday h
    generalize (t.seconds % 86400).toNat = a at hrest ⊢
    generalize (u.seconds % 86400).toNat = b at hrest ⊢
    omega

/-- The text of a later time is greater. -/
theorem stored_lt_stored (ht : t.Storable) (hu : u.Storable) (h : t.truncated < u.truncated) :
    t.stored < u.stored := by
  rw [String.lt_iff_toList_lt]
  unfold stored
  dsimp only
  rw [Fields.toList_text ht.shown, Fields.toList_text hu.shown]
  exact Fields.text_lt ht.shown hu.shown (before_ofTimestamp ht.nanos hu.nanos h)

theorem timestamp?_ofTimestamp (h : t.Storable) :
    Fields.timestamp? { Fields.ofTimestamp t with
      nanos := (Fields.ofTimestamp t).nanos / 1000 * 1000 } = some t.truncated := by
  obtain ⟨hexists, hnumber⟩ := Date.ofDayNumber_spec (t.seconds / secondsPerDay)
  obtain ⟨hfirst, hlast⟩ := h.year
  have hnanos := h.nanos
  have hrest : (t.seconds % secondsPerDay).toNat < 86400 := by
    unfold secondsPerDay
    omega
  rw [ofTimestamp_eq hnanos]
  unfold year at hfirst hlast
  unfold Fields.timestamp? nanosPerSecond yearLimits at *
  dsimp only
  rw [hexists, hnumber]
  generalize (Date.ofDayNumber (t.seconds / secondsPerDay)).year = year at hfirst hlast ⊢
  rw [if_pos (by simp; omega)]
  generalize hday : (t.seconds % secondsPerDay).toNat = rest at hrest ⊢
  rw [if_neg (by omega), if_neg (by omega)]
  have hseconds : t.seconds / secondsPerDay * secondsPerDay +
      (((rest / 3600 : Nat) : Int) * 3600 + ((rest / 60 % 60 : Nat) : Int) * 60 +
        ((rest % 60 : Nat) : Int)) = t.seconds := by
    unfold secondsPerDay at *
    omega
  rw [hseconds]
  rfl

/-- Read back are the whole microseconds. -/
theorem parse?_stored (h : t.Storable) : parse? t.stored = some t.truncated := by
  have hshown := h.shown
  have hnanos := hshown.nanos
  unfold nanosPerSecond at hnanos
  have hyear := hshown.year
  have htruncated : Fields.timestamp? { Fields.ofTimestamp t with
      date := ⟨(Fields.ofTimestamp t).date.year.toNat, (Fields.ofTimestamp t).date.month,
        (Fields.ofTimestamp t).date.day⟩
      nanos := (Fields.ofTimestamp t).nanos / 1000 * 1000 } = some t.truncated := by
    rw [Int.toNat_of_nonneg hyear.1]
    exact timestamp?_ofTimestamp h
  have hread : ofOffsetForm? (Fields.ofTimestamp t).text = some t.truncated := by
    unfold ofOffsetForm? Fields.text
    rw [date?_lastDigits (by omega) hshown.month hshown.day]
    simp only [Option.bind_eq_bind, Option.bind_some, true_or, if_true,
      clock?_lastDigits hshown.hour hshown.minute hshown.second, optionalFraction?,
      fraction?_lastDigits (show (Fields.ofTimestamp t).nanos / 1000 < 1000000 by omega), offset?,
      htruncated]
    simp [truncated]
  unfold parse? stored
  dsimp only
  rw [Fields.toList_text hshown, hread]
  rfl

theorem ofStored_stored (h : t.Storable) : ofStored t.stored = t.truncated := by
  rw [ofStored, parse?_stored h, Option.getD_some]

/-- A year of more than four digits is written with a sign, and then the text is not read back. -/
theorem ofStored_stored_of_late (h : 9999 < t.year) : ofStored t.stored = epoch := by
  obtain ⟨hmonth, hday⟩ : (Fields.ofTimestamp t).date.month < 100 ∧
      (Fields.ofTimestamp t).date.day < 100 := Date.ofDayNumber_lt _
  obtain ⟨k, hk, hyear, hdigits⟩ :=
    exists_toList_padded (show 0 < 4 by omega) (Fields.ofTimestamp t).date.year.natAbs
  obtain ⟨tail, htext⟩ : ∃ tail, t.stored.toList =
      '+' :: (lastDigits k (Fields.ofTimestamp t).date.year.natAbs ++ '-' ::
        (lastDigits 2 (Fields.ofTimestamp t).date.month ++ '-' ::
          (lastDigits 2 (Fields.ofTimestamp t).date.day ++ 'T' :: tail))) := by
    have hpast : ¬ (0 ≤ (Fields.ofTimestamp t).date.year ∧
        (Fields.ofTimestamp t).date.year ≤ 9999) := by
      change 9999 < (Fields.ofTimestamp t).date.year at h
      omega
    have hafter : ¬ (Fields.ofTimestamp t).date.year < 0 := by
      change 9999 < (Fields.ofTimestamp t).date.year at h
      omega
    unfold stored Fields.upToSecond yearText
    dsimp only
    rw [if_neg hpast, if_neg hafter]
    simp only [String.toList_append, hdigits, toList_padded (show 0 < 2 by omega) hmonth,
      toList_padded (show 0 < 2 by omega) hday]
    simp
  generalize (Fields.ofTimestamp t).date.year.natAbs = year at hyear htext
  have hoffset : ofOffsetForm? t.stored.toList = none := by
    rw [htext]
    rfl
  have hbare : ofBareForm? t.stored.toList = none := by
    have hhour : short? ('T' :: tail) = none := rfl
    rw [htext]
    unfold ofBareForm?
    simp only [Option.bind_eq_bind, year?_lastDigits hk hyear, Option.bind_some, Text.after?,
      if_true, short?_lastDigits hmonth, short?_lastDigits hday, hhour, Option.bind_none]
  unfold ofStored parse?
  rw [hoffset, hbare]
  rfl

/-! ## Times of a clock -/

/-- A time that a clock gives: outside leap seconds, and not before the year zero. -/
structure OnClock (t : Timestamp) : Prop where
  nanos : t.nanos < nanosPerSecond
  year : 0 ≤ t.year

theorem OnClock.storable (h : t.OnClock) (hyear : t.year ≤ 9999) : t.Storable :=
  ⟨h.nanos, h.year, hyear⟩

theorem year_mono (h : t.seconds ≤ u.seconds) : t.year ≤ u.year := by
  apply Date.ofDayNumber_year_mono
  unfold secondsPerDay
  omega

theorem le_of_le_of_lt {a b c : Timestamp} (h : a ≤ b) (k : b < c) : a ≤ c := fun hlt =>
  h (lt_trans k hlt)

theorem lt_truncated_iff : t < u.truncated ↔ t.truncated < u.truncated := by
  change (t.seconds < u.seconds ∨ t.seconds = u.seconds ∧ t.nanos < u.nanos / 1000 * 1000) ↔
    (t.seconds < u.seconds ∨
      t.seconds = u.seconds ∧ t.nanos / 1000 * 1000 < u.nanos / 1000 * 1000)
  omega

/-- A text that is no greater than the text of a time on the clock is of a time that has come. -/
theorem OnClock.truncated_le_of_stored_le (ht : t.OnClock) (hyear : t.year ≤ 9999)
    (hu : u.OnClock) (h : t.stored ≤ u.stored) : t.truncated ≤ u := by
  intro hlt
  by_cases hlate : u.year ≤ 9999
  · have hstored := stored_lt_stored (hu.storable hlate) (ht.storable hyear)
      (lt_truncated_iff.1 hlt)
    exact absurd hstored (not_lt_of_ge h)
  · have hback : u.seconds ≤ t.seconds := by
      change u.seconds < t.seconds ∨ (u.seconds = t.seconds ∧ _) at hlt
      omega
    have := year_mono hback
    omega

end Timestamp

end FileDrive.Time
