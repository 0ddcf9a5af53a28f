import FileDrive.Time.Calendar
import Mathlib.Tactic.IntervalCases

/-!
# Day numbers

Every day has a date that exists, the number of that date is the day's (`ofDayNumber_spec`), and
later days have later dates (`before_ofDayNumber`). Years are counted from March to February here,
as the conversions do: the leap day is then the last day of a year.
-/

namespace FileDrive.Time.Date

/-- The order of dates in the calendar. -/
def Before (d e : Date) : Prop :=
  d.year < e.year ∨ d.year = e.year ∧
    (d.month < e.month ∨ d.month = e.month ∧ d.day < e.day)

/-- The year, from March on, that a date lies in. -/
def marchYear (d : Date) : Int := if d.month ≤ 2 then d.year - 1 else d.year

/-- The month of a date, March being zero. -/
def marchMonth (d : Date) : Int := (d.month + 9) % 12

/-- The days of a year, from March on, that lie before a month. -/
def monthStart (month : Int) : Int := (153 * month + 2) / 5

/-- The days from the first of March to a date. -/
def dayOfYear (d : Date) : Int := monthStart d.marchMonth + (d.day - 1)

/-- The day number of the first of March of a year. -/
def yearStart (year : Int) : Int := 365 * year + year / 4 - year / 100 + year / 400 - epochOffset

theorem dayNumber_eq (d : Date) : d.dayNumber = yearStart d.marchYear + d.dayOfYear := by
  unfold dayNumber yearStart dayOfYear marchYear monthStart marchMonth eraDays
  dsimp only
  omega

theorem yearStart_mono {a b : Int} (h : a ≤ b) : yearStart a ≤ yearStart b := by
  unfold yearStart
  omega

theorem isLeapYear_iff (year : Int) :
    isLeapYear year = true ↔ year % 4 = 0 ∧ (year % 100 ≠ 0 ∨ year % 400 = 0) := by
  simp [isLeapYear]

/-- The days of a year from March on: the leap day is that of the calendar's next year. -/
def yearLength (year : Int) : Int := if isLeapYear (year + 1) then 366 else 365

theorem yearStart_succ (year : Int) : yearStart (year + 1) = yearStart year + yearLength year := by
  have hleap := isLeapYear_iff (year + 1)
  unfold yearStart yearLength
  split
  · next h =>
    rw [hleap] at h
    omega
  · next h =>
    rw [hleap] at h
    omega

theorem exists_iff (d : Date) : d.exists? = true ↔
    1 ≤ d.month ∧ d.month ≤ 12 ∧ 1 ≤ d.day ∧ d.day ≤ monthLength d.year d.month := by
  simp [exists?, and_assoc]

/-- A date lies before the next month begins. -/
theorem dayOfYear_lt_monthStart {d : Date} (h : d.exists? = true) (hmonth : d.month ≠ 2) :
    d.dayOfYear < monthStart (d.marchMonth + 1) := by
  obtain ⟨hlow, hhigh, hfirst, hlast⟩ := (exists_iff d).1 h
  obtain ⟨year, month, day⟩ := d
  unfold dayOfYear monthStart marchMonth
  unfold monthLength at hlast
  dsimp only at *
  rw [if_neg hmonth] at hlast
  interval_cases month <;> simp at hlast hmonth <;> omega

/-- A date lies before the next year begins. -/
theorem dayOfYear_lt_yearLength {d : Date} (h : d.exists? = true) :
    d.dayOfYear < yearLength d.marchYear := by
  obtain ⟨hlow, hhigh, hfirst, hlast⟩ := (exists_iff d).1 h
  unfold yearLength
  by_cases hmonth : d.month = 2
  · have hyear : d.marchYear + 1 = d.year := by
      unfold marchYear
      omega
    rw [hyear]
    unfold monthLength at hlast
    unfold dayOfYear monthStart marchMonth
    rw [if_pos hmonth] at hlast
    split
    · next hleap =>
      rw [if_pos hleap] at hlast
      omega
    · next hleap =>
      rw [if_neg hleap] at hlast
      omega
  · have hend := dayOfYear_lt_monthStart h hmonth
    unfold monthStart marchMonth at hend
    split <;> omega

theorem monthStart_le_dayOfYear {d : Date} (h : d.exists? = true) :
    monthStart d.marchMonth ≤ d.dayOfYear := by
  obtain ⟨-, -, hfirst, -⟩ := (exists_iff d).1 h
  unfold dayOfYear
  omega

theorem dayOfYear_nonneg {d : Date} (h : d.exists? = true) : 0 ≤ d.dayOfYear := by
  have := monthStart_le_dayOfYear h
  unfold monthStart marchMonth at this
  omega

theorem monthStart_mono {a b : Int} (h : a ≤ b) : monthStart a ≤ monthStart b := by
  unfold monthStart
  omega

/-- Later dates have greater day numbers. -/
theorem dayNumber_lt {d e : Date} (hd : d.exists? = true) (he : e.exists? = true)
    (h : d.Before e) : d.dayNumber < e.dayNumber := by
  obtain ⟨hlow, hhigh, -, -⟩ := (exists_iff d).1 hd
  obtain ⟨hlow', hhigh', -, -⟩ := (exists_iff e).1 he
  have hend := dayOfYear_lt_yearLength hd
  have hstart := dayOfYear_nonneg he
  rw [dayNumber_eq, dayNumber_eq]
  unfold Before at h
  by_cases hyear : d.marchYear < e.marchYear
  · have hmono : yearStart (d.marchYear + 1) ≤ yearStart e.marchYear := yearStart_mono hyear
    rw [yearStart_succ] at hmono
    omega
  · -- Within a year from March on, the months of the calendar are in order.
    have hsame : d.marchYear = e.marchYear ∧
        (d.month ≠ 2 ∧ d.marchMonth < e.marchMonth ∨
          d.marchMonth = e.marchMonth ∧ d.day < e.day) := by
      unfold marchYear at *
      unfold marchMonth
      omega
    obtain ⟨hyears, ⟨hmonth, hlt⟩ | ⟨hmonths, hdays⟩⟩ := hsame
    · have hshort := dayOfYear_lt_monthStart hd hmonth
      have hnext : monthStart (d.marchMonth + 1) ≤ monthStart e.marchMonth := monthStart_mono hlt
      have hlong := monthStart_le_dayOfYear he
      rw [hyears]
      omega
    · unfold dayOfYear
      rw [hyears, hmonths]
      omega

/-- A day of an era lies in one of its four centuries, in one of the spans of four years there, and
in one of the four years. The last span of a century and the last year of a span can be a day short
or a day long. -/
theorem exists_parts {day : Int} (h : 0 ≤ day) (h' : day < eraDays) :
    ∃ century span year rest : Int, (0 ≤ century ∧ century ≤ 3) ∧ (0 ≤ span ∧ span ≤ 24) ∧
      (0 ≤ year ∧ year ≤ 3) ∧ (0 ≤ rest ∧ rest ≤ 365) ∧
      (rest = 365 → year = 3 ∧ (span = 24 → century = 3)) ∧
      day = 36524 * century + 1461 * span + 365 * year + rest := by
  unfold eraDays at h'
  obtain ⟨century, hcentury⟩ : ∃ century, century = min 3 (day / 36524) := ⟨_, rfl⟩
  obtain ⟨inCentury, hinCentury⟩ : ∃ rest, rest = day - 36524 * century := ⟨_, rfl⟩
  have hcenturies : 0 ≤ century ∧ century ≤ 3 := by omega
  have hc : 0 ≤ inCentury ∧ inCentury ≤ 36524 ∧ (inCentury = 36524 → century = 3) := by omega
  clear hcentury
  obtain ⟨span, hspan⟩ : ∃ span, span = inCentury / 1461 := ⟨_, rfl⟩
  obtain ⟨inSpan, hinSpan⟩ : ∃ rest, rest = inCentury - 1461 * span := ⟨_, rfl⟩
  have hspans : 0 ≤ span ∧ span ≤ 24 := by omega
  have hs : 0 ≤ inSpan ∧ inSpan ≤ 1460 ∧ (inSpan = 1460 → span = 24 → century = 3) := by omega
  clear hspan hc
  refine ⟨century, span, min 3 (inSpan / 365), inSpan - 365 * min 3 (inSpan / 365), hcenturies,
    hspans, by omega, by omega, fun hrest => ⟨by omega, hs.2.2 (by omega)⟩, by omega⟩

/-- The year of an era that a day of the era lies in, as the conversion finds it. -/
theorem exists_yearOfEra {day : Int} (h : 0 ≤ day) (h' : day < eraDays) :
    ∃ year, (day - day / 1460 + day / 36524 - day / 146096) / 365 = year ∧
      0 ≤ year ∧ year < 400 ∧ 0 ≤ day - (365 * year + year / 4 - year / 100) ∧
      day - (365 * year + year / 4 - year / 100) < yearLength year := by
  obtain ⟨century, span, year, rest, hcentury, hspan, hyear, hrest, hlong, hday⟩ :=
    exists_parts h h'
  clear h h'
  have hquarters : day / 1460 =
      25 * century + span + (24 * century + span + 365 * year + rest) / 1460 := by omega
  have hcenturies : day / 36524 - day / 146096 = century := by
    obtain ⟨inCentury, hin⟩ : ∃ n, n = 1461 * span + 365 * year + rest := ⟨_, rfl⟩
    have hshort : 0 ≤ inCentury ∧ (inCentury < 36524 ∨ inCentury = 36524 ∧ century = 3) := by omega
    have hsum : day = 36524 * century + inCentury := by omega
    clear hquarters hday hin hlong
    omega
  have hspans : (100 * century + 4 * span + year) / 4 = 25 * century + span := by omega
  have hwhole : (100 * century + 4 * span + year) / 100 = century := by omega
  refine ⟨100 * century + 4 * span + year, ?_, by omega, by omega, ?_, ?_⟩
  · rw [add_sub_assoc, hcenturies, hquarters, hday]
    clear hquarters hcenturies hspans hwhole hday
    omega
  · rw [hspans, hwhole]
    omega
  · have hleap := isLeapYear_iff (100 * century + 4 * span + year + 1)
    rw [hspans, hwhole]
    unfold yearLength
    split
    · omega
    · next hshort =>
      rw [hleap] at hshort
      clear hquarters hcenturies hspans hwhole
      omega

/-- The date on a day of a month of a year, both counted from March on. -/
def ofMarch (year month day : Int) : Date :=
  { year := if month < 10 then year else year + 1
    month := (if month < 10 then month + 3 else month - 9).toNat
    day := day.toNat }

theorem exists_ofMarch (year month day : Int) (hmonth : 0 ≤ month ∧ month ≤ 11) (hday : 1 ≤ day)
    (hlast : monthStart month + day ≤ monthStart (month + 1))
    (hyear : monthStart month + day ≤ yearLength year) :
    (ofMarch year month day).exists? = true ∧ (ofMarch year month day).marchYear = year ∧
      (ofMarch year month day).dayOfYear = monthStart month + (day - 1) := by
  have hback : (ofMarch year month day).marchMonth = month := by
    unfold ofMarch marchMonth
    dsimp only
    omega
  refine ⟨?_, ?_, ?_⟩
  · rw [exists_iff]
    unfold ofMarch monthLength
    unfold monthStart at hlast hyear
    unfold yearLength at hyear
    dsimp only
    obtain ⟨hlow, hhigh⟩ := hmonth
    interval_cases month <;> simp at hlast hyear ⊢ <;> split at hyear <;> simp_all <;> omega
  · unfold ofMarch marchYear
    dsimp only
    split <;> omega
  · unfold dayOfYear
    rw [hback]
    unfold ofMarch
    dsimp only
    omega

/-- The month, from March on, that a day of a year lies in. -/
theorem exists_month {day : Int} (h : 0 ≤ day) (h' : day < 366) :
    ∃ month, (5 * day + 2) / 153 = month ∧ 0 ≤ month ∧ month ≤ 11 ∧ monthStart month ≤ day ∧
      day < monthStart (month + 1) := by
  refine ⟨_, rfl, ?_⟩
  unfold monthStart
  omega

theorem yearLength_add_eras (year eras : Int) :
    yearLength (year + eras * 400) = yearLength year := by
  have hleap := isLeapYear_iff (year + eras * 400 + 1)
  have hleap' := isLeapYear_iff (year + 1)
  have hsame : isLeapYear (year + eras * 400 + 1) = isLeapYear (year + 1) := by
    rw [Bool.eq_iff_iff, hleap, hleap']
    omega
  unfold yearLength
  rw [hsame]

theorem yearStart_add_eras {year eras : Int} (h : 0 ≤ year) (h' : year < 400) :
    yearStart (year + eras * 400) =
      eras * eraDays + (365 * year + year / 4 - year / 100) - epochOffset := by
  unfold yearStart eraDays
  omega

/-- Every day has a date that exists, and the number of that date is the day's. -/
theorem ofDayNumber_spec (n : Int) :
    (ofDayNumber n).exists? = true ∧ (ofDayNumber n).dayNumber = n := by
  obtain ⟨shifted, hshifted⟩ : ∃ shifted, shifted = n + epochOffset := ⟨_, rfl⟩
  have heras : 0 ≤ shifted % eraDays ∧ shifted % eraDays < eraDays := by
    unfold eraDays
    omega
  obtain ⟨year, hyear, hfirst, hlast, hrest, hlength⟩ := exists_yearOfEra heras.1 heras.2
  obtain ⟨day, hday⟩ :
      ∃ day, day = shifted % eraDays - (365 * year + year / 4 - year / 100) := ⟨_, rfl⟩
  rw [← hday] at hrest hlength
  obtain ⟨month, hmonth, hlow, hhigh, hstart, hend⟩ := exists_month hrest (by
    unfold yearLength at hlength
    split at hlength <;> omega)
  have hdate : ofDayNumber n = ofMarch (year + shifted / eraDays * 400) month
      (day - monthStart month + 1) := by
    unfold ofDayNumber ofMarch monthStart
    rw [← hshifted]
    dsimp only
    rw [hyear, ← hday, hmonth]
  obtain ⟨hexists, hmarch, hdayOfYear⟩ := exists_ofMarch (year + shifted / eraDays * 400) month
    (day - monthStart month + 1) ⟨hlow, hhigh⟩ (by omega) (by omega) (by
      rw [yearLength_add_eras]
      omega)
  rw [hdate]
  refine ⟨hexists, ?_⟩
  rw [dayNumber_eq, hmarch, hdayOfYear, yearStart_add_eras hfirst hlast]
  have hsplit : shifted / eraDays * eraDays + shifted % eraDays = shifted :=
    Int.ediv_mul_add_emod shifted eraDays
  omega

theorem dayNumber_ofDayNumber (n : Int) : (ofDayNumber n).dayNumber = n := (ofDayNumber_spec n).2

theorem ext_of_not_before {d e : Date} (h : ¬ d.Before e) (h' : ¬ e.Before d) : d = e := by
  obtain ⟨year, month, day⟩ := d
  obtain ⟨year', month', day'⟩ := e
  unfold Before at h h'
  dsimp only at h h'
  have hyear : year = year' := by omega
  have hmonth : month = month' := by omega
  have hday : day = day' := by omega
  rw [hyear, hmonth, hday]

/-- Later days have later dates. -/
theorem before_ofDayNumber {n m : Int} (h : n < m) : (ofDayNumber n).Before (ofDayNumber m) := by
  obtain ⟨hn, hnumber⟩ := ofDayNumber_spec n
  obtain ⟨hm, hnumber'⟩ := ofDayNumber_spec m
  by_contra hnot
  by_cases hback : (ofDayNumber m).Before (ofDayNumber n)
  · have := dayNumber_lt hm hn hback
    omega
  · rw [ext_of_not_before hnot hback] at hnumber
    omega

theorem ofDayNumber_year_mono {n m : Int} (h : n ≤ m) :
    (ofDayNumber n).year ≤ (ofDayNumber m).year := by
  rcases Int.lt_or_eq_of_le h with hlt | rfl
  · have hbefore := before_ofDayNumber hlt
    unfold Before at hbefore
    omega
  · exact le_refl _

end FileDrive.Time.Date
