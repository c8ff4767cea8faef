import HMailServer.Lib.Gregorian

/- The civil dates of `ICalendar.cpp` and the Modified Julian Day of
   `SieveEvaluator.cpp`. Days are counted from 1970-01-01 and weekdays from Sunday. The
   divisions round towards zero; the intermediate values are `int`, `unsigned` and
   `__int64`, whose overflow is taken to wrap, as the compilers the project is built
   with have it. -/
namespace HMailServer.ICalendar
open HMailServer.Gregorian

def int32 (x : Int) : Int := (x + 2147483648) % 4294967296 - 2147483648

def uint32 (x : Int) : Int := x % 4294967296

def int64 (x : Int) : Int := (x + 9223372036854775808) % 18446744073709551616 - 9223372036854775808

def isLeap (y : Int) : Bool := (y.tmod 4 == 0 && y.tmod 100 != 0) || y.tmod 400 == 0

def daysInMonth (y m : Int) : Int :=
  if m < 1 ∨ 12 < m then 0
  else if m = 2 ∧ isLeap y = true then 29
  else [31, 28, 31, 30, 31, 30, 31, 31, 30, 31, 30, 31].getD (m - 1).toNat 0

/-- The arguments of `DaysFromCivil`, and what `CivilFromDays` answers. -/
structure Civil where
  y : Int
  m : Int
  d : Int
  deriving DecidableEq

def daysFromCivil (civil : Civil) : Int :=
  let y := int32 (civil.y - if civil.m ≤ 2 then 1 else 0)
  let era := (if 0 ≤ y then y else int32 (y - 399)).tdiv 400
  let yoe := uint32 (y - era * 400)
  let doy := uint32 ((int32 (153 * (civil.m + if 2 < civil.m then -3 else 9) + 2)).tdiv 5 + civil.d - 1)
  let doe := uint32 (yoe * 365 + yoe / 4 - yoe / 100 + doy)
  era * 146097 + doe - 719468

def civilFromDays (z : Int) : Civil :=
  let z := int64 (z + 719468)
  let era := (if 0 ≤ z then z else int64 (z - 146096)).tdiv 146097
  let doe := uint32 (z - era * 146097)
  let yoe := uint32 (doe - doe / 1460 + doe / 36524 - doe / 146096) / 365
  let yy := yoe + era * 400
  let doy := uint32 (doe - (365 * yoe + yoe / 4 - yoe / 100))
  let mp := uint32 (5 * doy + 2) / 153
  let m := int32 (if mp < 10 then mp + 3 else mp - 9)
  { y := int32 (yy + if m ≤ 2 then 1 else 0)
    m := m
    d := int32 (doy - uint32 (153 * mp + 2) / 5 + 1) }

def weekday (days : Int) : Int := (days.tmod 7 + 11).tmod 7

/-- `SieveEvaluator`'s `ModifiedJulianDay`: `year + 4800` is an `int`, the rest
    `__int64`. -/
def modifiedJulianDay (civil : Civil) : Int :=
  let a := (int32 (14 - civil.m)).tdiv 12
  let y := int32 (civil.y + 4800) - a
  let m := civil.m + 12 * a - 3
  let julianDayNumber := civil.d + (153 * m + 2).tdiv 5 + 365 * y + y.tdiv 4 - y.tdiv 100 + y.tdiv 400 - 32045
  julianDayNumber - 2400001

/-! ## Wrapping -/

theorem int32_eq {x : Int} (hlow : -2147483648 ≤ x) (hhigh : x ≤ 2147483647) : int32 x = x := by
  unfold int32
  omega

theorem uint32_eq {x : Int} (hlow : 0 ≤ x) (hhigh : x ≤ 4294967295) : uint32 x = x := by
  unfold uint32
  omega

theorem int64_eq {x : Int} (hlow : -9223372036854775808 ≤ x) (hhigh : x ≤ 9223372036854775807) :
    int64 x = x := by
  unfold int64
  omega

/-- Division towards zero, by cases that `omega` reads. -/
theorem tdiv_eq (x n : Int) : x.tdiv n = if 0 ≤ x then x / n else -(-x / n) := by
  split
  case isTrue h => exact Int.tdiv_eq_ediv_of_nonneg h
  case isFalse h =>
    have hneg : (-x).tdiv n = -x / n := Int.tdiv_eq_ediv_of_nonneg (by omega)
    rw [← hneg, Int.neg_tdiv, neg_neg]

theorem tmod_eq (x n : Int) : x.tmod n = if 0 ≤ x then x % n else -(-x % n) := by
  split
  case isTrue h => exact Int.tmod_eq_emod_of_nonneg h
  case isFalse h =>
    have hneg : (-x).tmod n = -x % n := Int.tmod_eq_emod_of_nonneg (by omega)
    rw [← hneg, Int.neg_tmod, neg_neg]

/-! ## The months -/

theorem isLeap_iff (y : Int) : isLeap y = true ↔ Leap y := by
  unfold isLeap Leap
  simp only [Bool.or_eq_true, Bool.and_eq_true, beq_iff_eq, bne_iff_ne, tmod_eq]
  omega

/-- The lengths of the months are the calendar's. -/
theorem daysInMonth_eq {y m : Int} (hpos : 1 ≤ m) (hle : m ≤ 12) :
    daysInMonth y m = monthLength y m := by
  have hrange : ¬(m < 1 ∨ 12 < m) := by omega
  unfold daysInMonth monthLength
  rw [if_neg hrange]
  simp only [isLeap_iff]
  by_cases hleap : Leap y
  · interval_cases m <;> simp [hleap]
  · interval_cases m <;> simp [hleap]

/-! ## The day of a date, and the date of a day -/

def civilOf (date : Date) : Civil := ⟨date.year, date.month, date.day⟩

theorem daysFromCivil_civilOf {date : Date} (hlow : -2147483249 ≤ date.marchYear)
    (hhigh : date.year ≤ 2147483647) : daysFromCivil (civilOf date) = date.number := by
  have hpos := date.month_pos
  have hle := date.month_le
  have hday := date.day_pos
  have hmonth := date.marchMonth_bounds
  have hnonneg := date.marchDay_nonneg
  have hlast := date.marchDay_le
  have hyear : int32 (date.year - if date.month ≤ 2 then 1 else 0) = date.marchYear := by
    unfold Date.marchYear at hlow ⊢
    rw [int32_eq (by omega) (by omega)]
    omega
  have hera : (if 0 ≤ date.marchYear then date.marchYear else int32 (date.marchYear - 399)).tdiv 400 =
      date.marchYear / 400 := by
    have hend : date.marchYear ≤ 2147483647 := by
      unfold Date.marchYear
      omega
    split
    · rw [tdiv_eq, if_pos (by omega)]
    · rw [int32_eq (by omega) (by omega), tdiv_eq, if_neg (by omega)]
      omega
  have hyoe : uint32 (date.marchYear - date.marchYear / 400 * 400) = date.marchYear % 400 := by
    rw [uint32_eq (by omega) (by omega)]
    omega
  have hdoy : (int32 (153 * (date.month + if 2 < date.month then -3 else 9) + 2)).tdiv 5 +
      date.day - 1 = date.marchDay := by
    have hshift : date.month + (if 2 < date.month then -3 else 9) = date.marchMonth := by
      unfold Date.marchMonth
      omega
    rw [hshift, int32_eq (by omega) (by omega), tdiv_eq, if_pos (by omega)]
    rfl
  have hmarch : date.marchDay ≤ 365 := by
    revert hlast
    split
    · omega
    · omega
  unfold daysFromCivil civilOf
  simp only [hyear, hera, hyoe, hdoy]
  rw [uint32_eq hnonneg (by omega), uint32_eq (by omega) (by omega), date.number_march]
  omega

theorem civilFromDays_number {date : Date} (hlow : -2147483648 ≤ date.year)
    (hhigh : date.year ≤ 2147483647) : civilFromDays date.number = civilOf date := by
  have hpos := date.month_pos
  have hle := date.month_le
  have hday := date.day_pos
  have hmonth := date.marchMonth_bounds
  have hnonneg := date.marchDay_nonneg
  have hlast := date.marchDay_le
  have hlength := date.day_le_march
  have hmarch : date.marchDay ≤ 365 := by
    revert hlast
    split
    · omega
    · omega
  have hyear : -2147483649 ≤ date.marchYear ∧ date.marchYear ≤ 2147483647 := by
    unfold Date.marchYear
    omega
  -- the era, the year of the era and the day of that year
  obtain ⟨era, yoe, hsplit, hyoe, hyoe'⟩ : ∃ era yoe : Int,
      date.marchYear = 400 * era + yoe ∧ 0 ≤ yoe ∧ yoe < 400 :=
    ⟨date.marchYear / 400, date.marchYear % 400, by omega, by omega, by omega⟩
  obtain ⟨doe, hdoe⟩ : ∃ doe, doe = 365 * yoe + yoe / 4 - yoe / 100 + date.marchDay := ⟨_, rfl⟩
  have hleap : Leap (date.marchYear + 1) ↔ Leap (yoe + 1) := by
    unfold Leap
    omega
  have hdoe' : 0 ≤ doe ∧ doe ≤ 146096 := by
    by_cases h : Leap (yoe + 1)
    · rw [if_pos (hleap.2 h)] at hlast
      unfold Leap at h
      omega
    · rw [if_neg (fun hl => h (hleap.1 hl))] at hlast
      unfold Leap at h
      omega
  have hz : date.number + 719468 = 146097 * era + doe := by
    have hfour : date.marchYear / 4 = 100 * era + yoe / 4 := by omega
    have hhundred : date.marchYear / 100 = 4 * era + yoe / 100 := by omega
    have hfourHundred : date.marchYear / 400 = era := by omega
    rw [date.number_march, hfour, hhundred, hfourHundred]
    omega
  have hera : (if 0 ≤ date.number + 719468 then date.number + 719468
      else int64 (date.number + 719468 - 146096)).tdiv 146097 = era := by
    rw [hz]
    split
    · rw [tdiv_eq, if_pos (by omega)]
      omega
    · rw [int64_eq (by omega) (by omega), tdiv_eq, if_neg (by omega)]
      omega
  have hyearOfEra : (doe - doe / 1460 + doe / 36524 - doe / 146096) / 365 = yoe := by
    simp only [hleap] at hlast
    exact Date.yearOfEra_eq hyoe hyoe' hnonneg hlast hdoe
  have hz64 : int64 (date.number + 719468) = date.number + 719468 := int64_eq (by omega) (by omega)
  have hdoe32 : uint32 (date.number + 719468 - era * 146097) = doe := by
    rw [hz, uint32_eq (by omega) (by omega)]
    omega
  have hyoe32 : uint32 (doe - doe / 1460 + doe / 36524 - doe / 146096) / 365 = yoe := by
    rw [uint32_eq (by omega) (by omega)]
    exact hyearOfEra
  have hdoy : uint32 (doe - (365 * yoe + yoe / 4 - yoe / 100)) = date.marchDay := by
    rw [uint32_eq (by omega) (by omega)]
    omega
  have hmp : uint32 (5 * date.marchDay + 2) / 153 = date.marchMonth := by
    rw [uint32_eq (by omega) (by omega)]
    exact date.marchMonth_eq
  have hm : int32 (if date.marchMonth < 10 then date.marchMonth + 3 else date.marchMonth - 9) =
      date.month := by
    rw [int32_eq (by omega) (by omega)]
    unfold Date.marchMonth
    omega
  have hd : int32 (date.marchDay - uint32 (153 * date.marchMonth + 2) / 5 + 1) = date.day := by
    have hfirst : date.marchDay - (153 * date.marchMonth + 2) / 5 + 1 = date.day := by
      unfold Date.marchDay
      omega
    have hdays := date.day_le_march
    rw [uint32_eq (by omega) (by omega), hfirst, int32_eq (by omega) (by omega)]
  have hy : int32 (yoe + era * 400 + if date.month ≤ 2 then 1 else 0) = date.year := by
    have hsum : yoe + era * 400 + (if date.month ≤ 2 then 1 else 0) = date.year := by
      unfold Date.marchYear at hsplit
      omega
    rw [hsum, int32_eq hlow hhigh]
  unfold civilFromDays civilOf
  simp only [hz64, hera, hdoe32, hyoe32, hdoy, hmp, hm, hd, hy]

/-! ## Weekdays and Julian days -/

theorem weekday_eq (days : Int) : weekday days = (days + 4) % 7 := by
  unfold weekday
  rw [tmod_eq days]
  split
  · rw [tmod_eq, if_pos (by omega)]
    omega
  · rw [tmod_eq, if_pos (by omega)]
    omega

theorem modifiedJulianDay_civilOf {date : Date} (hlow : -4799 ≤ date.year)
    (hhigh : date.year ≤ 2147478847) : modifiedJulianDay (civilOf date) = date.number + 40587 := by
  have hpos := date.month_pos
  have hle := date.month_le
  have hmonth := date.marchMonth_bounds
  have ha : (int32 (14 - date.month)).tdiv 12 = if date.month ≤ 2 then 1 else 0 := by
    rw [int32_eq (by omega) (by omega), tdiv_eq, if_pos (by omega)]
    omega
  have hy : int32 (date.year + 4800) - (if date.month ≤ 2 then 1 else 0) = date.marchYear + 4800 := by
    unfold Date.marchYear
    rw [int32_eq (by omega) (by omega)]
    omega
  have hm : date.month + 12 * (if date.month ≤ 2 then 1 else 0) - 3 = date.marchMonth := by
    unfold Date.marchMonth
    omega
  have hnonneg : 0 ≤ date.marchYear + 4800 := by
    unfold Date.marchYear
    omega
  unfold modifiedJulianDay civilOf
  simp only [ha, hy, hm]
  rw [Int.tdiv_eq_ediv_of_nonneg (by omega), Int.tdiv_eq_ediv_of_nonneg hnonneg,
    Int.tdiv_eq_ediv_of_nonneg hnonneg, Int.tdiv_eq_ediv_of_nonneg hnonneg, date.number_march]
  unfold Date.marchDay
  omega

/-! ## The calendar -/

theorem one_le : (1 : ℤ) ≤ 1 := le_rfl

theorem one_le_twelve : (1 : ℤ) ≤ 12 := by decide

/-- The first and the last date of the years an `int` holds. -/
def firstDate : Date := ⟨-2147483648, 1, 1, one_le, one_le_twelve, one_le, by decide⟩

def lastDate : Date := ⟨2147483647, 12, 31, one_le_twelve, by decide, by decide, by decide⟩

/-- The first date from which `y - 399` is an `int` in the years from March. -/
def firstCounted : Date := ⟨-2147483249, 3, 1, by decide, by decide, one_le, by decide⟩

theorem firstDate_le {date : Date} (hlow : firstDate.number ≤ date.number) :
    -2147483648 ≤ date.year := by
  by_contra hlt
  have hbefore : date.number < firstDate.number := Date.number_lt_of_year_lt (not_le.1 hlt)
  omega

theorem le_lastDate {date : Date} (hhigh : date.number ≤ lastDate.number) :
    date.year ≤ 2147483647 := by
  by_contra hlt
  have hafter : lastDate.number < date.number := Date.number_lt_of_year_lt (not_le.1 hlt)
  omega

theorem firstCounted_le {date : Date} (hlow : firstCounted.number ≤ date.number) :
    -2147483249 ≤ date.marchYear := by
  obtain hlt | heq | hlt := lt_trichotomy date.year (-2147483249)
  · have hbefore : date.number < firstCounted.number := Date.number_lt_of_year_lt hlt
    omega
  · -- January and February count with the year before
    by_cases hmonth : date.month ≤ 2
    · have hbefore : date.number < firstCounted.number :=
        Date.number_lt_of_month_lt heq (by show date.month < 3; omega)
      omega
    · unfold Date.marchYear
      omega
  · unfold Date.marchYear
    omega

/-- A day of the years an `int` holds is a date. -/
theorem civilFromDays_date {z : Int} (hlow : firstDate.number ≤ z) (hhigh : z ≤ lastDate.number) :
    ∃ date : Date, date.number = z ∧ civilFromDays z = civilOf date := by
  obtain ⟨date, rfl⟩ := Date.number_surjective z
  exact ⟨date, rfl, civilFromDays_number (firstDate_le hlow) (le_lastDate hhigh)⟩

theorem daysFromCivil_date {date : Date} (hlow : firstCounted.number ≤ date.number)
    (hhigh : date.number ≤ lastDate.number) : daysFromCivil (civilOf date) = date.number :=
  daysFromCivil_civilOf (firstCounted_le hlow) (le_lastDate hhigh)

/-- One calendar: the dates of the days, the days of the dates, the date after, the
    weekdays and the Julian days agree. -/
theorem civil_calendar :
    (∀ z, firstDate.number ≤ z → z ≤ lastDate.number →
      ∃ date : Date, date.number = z ∧ civilFromDays z = civilOf date ∧ weekday z = date.weekday ∧
        (firstCounted.number ≤ z → daysFromCivil (civilFromDays z) = z)) ∧
    (∀ date : Date, firstCounted.number ≤ date.number → date.number ≤ lastDate.number →
      civilFromDays (daysFromCivil (civilOf date)) = civilOf date) ∧
    (∀ z, firstDate.number ≤ z → z < lastDate.number →
      ∃ date : Date, civilFromDays z = civilOf date ∧ civilFromDays (z + 1) = civilOf date.next) ∧
    (∀ z, weekday (z + 1) = (weekday z + 1) % 7) ∧
    ∀ date : Date, -4799 ≤ date.year → date.year ≤ 2147478847 →
      modifiedJulianDay (civilOf date) = daysFromCivil (civilOf date) + 40587 := by
  have hfirst : firstDate.number ≤ firstCounted.number := by decide
  refine ⟨?days, ?dates, ?next, ?weekdays, ?julian⟩
  case days =>
    intro z hlow hhigh
    obtain ⟨date, rfl, hcivil⟩ := civilFromDays_date hlow hhigh
    refine ⟨date, rfl, hcivil, ?_, ?_⟩
    · rw [weekday_eq, date.weekday_number]
    · intro hcounted
      rw [hcivil]
      exact daysFromCivil_date hcounted hhigh
  case dates =>
    intro date hlow hhigh
    rw [daysFromCivil_date hlow hhigh]
    exact civilFromDays_number (firstDate_le (le_trans hfirst hlow)) (le_lastDate hhigh)
  case next =>
    intro z hlow hhigh
    obtain ⟨date, rfl, hcivil⟩ := civilFromDays_date hlow hhigh.le
    have hnext := date.number_next
    refine ⟨date, hcivil, ?_⟩
    rw [← hnext]
    exact civilFromDays_number (firstDate_le (by omega)) (le_lastDate (by omega))
  case weekdays =>
    intro z
    rw [weekday_eq, weekday_eq]
    omega
  case julian =>
    intro date hlow hhigh
    have hcounted : -2147483249 ≤ date.marchYear := by
      unfold Date.marchYear
      omega
    rw [modifiedJulianDay_civilOf hlow hhigh, daysFromCivil_civilOf hcounted (by omega)]

/-- In the first years an `int` holds `y - 399` is no `int`, and in the last
    `year + 4800` is none. -/
theorem calendar_overflows :
    civilFromDays (firstDate.number + 60) = ⟨-2147483648, 3, 1⟩ ∧
      daysFromCivil ⟨-2147483648, 3, 1⟩ = 784351576836 ∧
      civilFromDays (daysFromCivil ⟨-2147483648, 3, 1⟩) = ⟨-2147483648, 2, 29⟩ ∧
      civilFromDays lastDate.number = ⟨2147483647, 12, 31⟩ ∧
      modifiedJulianDay ⟨2147483647, 12, 31⟩ ≠ daysFromCivil ⟨2147483647, 12, 31⟩ + 40587 := by
  decide

end HMailServer.ICalendar
