import Mathlib.Tactic.IntervalCases
import Mathlib.Tactic.NormNum
import Mathlib.Algebra.Order.Ring.Int

/- The Gregorian calendar, run backwards over the years before it was introduced:
   its dates, the date after each, and the number of days between them. A count of
   the days and a rule for the weekdays are given in closed form; that each is the
   calendar's own is proved from the date after. -/
namespace HMailServer.Gregorian

def Leap (year : Int) : Prop := year % 4 = 0 ∧ (year % 100 ≠ 0 ∨ year % 400 = 0)

instance (year : Int) : Decidable (Leap year) := by unfold Leap; infer_instance

def monthLength (year month : Int) : Int :=
  if month = 2 then if Leap year then 29 else 28
  else if month = 4 ∨ month = 6 ∨ month = 9 ∨ month = 11 then 30
  else 31

structure Date where
  year : Int
  month : Int
  day : Int
  month_pos : 1 ≤ month
  month_le : month ≤ 12
  day_pos : 1 ≤ day
  day_le : day ≤ monthLength year month
  deriving DecidableEq

@[ext] theorem Date.ext {a b : Date} (hyear : a.year = b.year) (hmonth : a.month = b.month)
    (hday : a.day = b.day) : a = b := by
  cases a
  cases b
  simp only [Date.mk.injEq]
  exact ⟨hyear, hmonth, hday⟩

theorem monthLength_pos (year month : Int) : 1 ≤ monthLength year month := by
  unfold monthLength
  split
  · split <;> decide
  · split <;> decide

/-- The first day of a month. -/
def firstOf (year month : Int) (hpos : 1 ≤ month) (hle : month ≤ 12) : Date :=
  ⟨year, month, 1, hpos, hle, le_rfl, monthLength_pos year month⟩

namespace Date

/-- The date after a date. -/
def next (date : Date) : Date :=
  if hday : date.day < monthLength date.year date.month then
    { date with day := date.day + 1, day_pos := by have h := date.day_pos; omega, day_le := hday }
  else if hmonth : date.month < 12 then
    firstOf date.year (date.month + 1) (by have h := date.month_pos; omega) hmonth
  else firstOf (date.year + 1) 1 (by decide) (by decide)

/-- The days of the months before a month of a year. -/
def daysBefore (year month : Int) : Int :=
  [0, 31, 59, 90, 120, 151, 181, 212, 243, 273, 304, 334].getD (month - 1).toNat 0 +
    if 2 < month ∧ Leap year then 1 else 0

/-- The days of the years before a year, from year 1 on. -/
def daysBeforeYear (year : Int) : Int :=
  365 * (year - 1) + (year - 1) / 4 - (year - 1) / 100 + (year - 1) / 400

/-- The number of a date: the days from 1970-01-01 to it. -/
def number (date : Date) : Int :=
  daysBeforeYear date.year + daysBefore date.year date.month + date.day - 719163

/-- The weekday a month's day 0 falls on, Sunday being 0: January and February count
    with the year before. -/
def weekdayBefore (year month : Int) : Int :=
  let year := if month < 3 then year - 1 else year
  year + year / 4 - year / 100 + year / 400 +
    [0, 3, 2, 5, 0, 3, 5, 1, 4, 6, 2, 4].getD (month - 1).toNat 0

def weekday (date : Date) : Int := (weekdayBefore date.year date.month + date.day) % 7

/-- The year a date falls in where the years begin on March 1st. -/
def marchYear (date : Date) : Int := if date.month ≤ 2 then date.year - 1 else date.year

def marchMonth (date : Date) : Int := if date.month ≤ 2 then date.month + 9 else date.month - 3

/-- The day in the year from March: five months from March or August have 153 days. -/
def marchDay (date : Date) : Int := (153 * date.marchMonth + 2) / 5 + date.day - 1

end Date

/-- Each month begins where the one before it ends. -/
theorem daysBefore_succ (year : Int) {month : Int} (hpos : 1 ≤ month) (hlt : month < 12) :
    Date.daysBefore year (month + 1) = Date.daysBefore year month + monthLength year month := by
  unfold Date.daysBefore monthLength
  by_cases hleap : Leap year
  · interval_cases month <;> simp [hleap]
  · interval_cases month <;> simp [hleap]

/-- The leap years up to a year are one more in a leap year. -/
theorem leapYears_succ (year : Int) :
    year / 4 - year / 100 + year / 400 =
      (year - 1) / 4 - (year - 1) / 100 + (year - 1) / 400 + if Leap year then 1 else 0 := by
  by_cases hleap : Leap year
  · rw [if_pos hleap]
    unfold Leap at hleap
    omega
  · rw [if_neg hleap]
    unfold Leap at hleap
    omega

theorem daysBeforeYear_succ (year : Int) :
    Date.daysBeforeYear (year + 1) = Date.daysBeforeYear year + if Leap year then 366 else 365 := by
  have hcount := leapYears_succ year
  have hyear : year + 1 - 1 = year := by omega
  unfold Date.daysBeforeYear
  rw [hyear]
  by_cases hleap : Leap year
  · rw [if_pos hleap] at hcount ⊢
    omega
  · rw [if_neg hleap] at hcount ⊢
    omega

theorem daysBeforeYear_mono {a b : ℤ} (h : a ≤ b) : Date.daysBeforeYear a ≤ Date.daysBeforeYear b := by
  revert a b
  show Monotone Date.daysBeforeYear
  apply monotone_int_of_le_succ
  intro year
  rw [daysBeforeYear_succ]
  split
  · omega
  · omega

theorem daysBefore_one (year : Int) : Date.daysBefore year 1 = 0 := rfl

theorem daysBefore_twelve (year : Int) :
    Date.daysBefore year 12 = if Leap year then 335 else 334 := by
  unfold Date.daysBefore
  by_cases hleap : Leap year
  · simp [hleap]
  · simp [hleap]

namespace Date

/-- The day after has the number after. -/
theorem number_next (date : Date) : date.next.number = date.number + 1 := by
  have hlast := date.day_le
  have hpos := date.month_pos
  unfold next
  split
  case isTrue hday =>
    simp only [number]
    omega
  case isFalse hday =>
    have hend : date.day = monthLength date.year date.month := by omega
    split
    case isTrue hmonth =>
      simp only [number, firstOf, daysBefore_succ date.year hpos hmonth, hend]
      omega
    case isFalse hmonth =>
      have hdecember : date.month = 12 := by
        have h := date.month_le
        omega
      have hlength : monthLength date.year 12 = 31 := rfl
      rw [hdecember, hlength] at hend
      simp only [number, firstOf, hdecember, hend, daysBefore_one, daysBefore_twelve,
        daysBeforeYear_succ]
      by_cases hleap : Leap date.year
      · simp only [if_pos hleap]
        omega
      · simp only [if_neg hleap]
        omega

example : (firstOf 1970 1 (by decide) (by decide)).number = 0 := rfl

theorem daysBefore_mono (year : Int) {month other : Int} (hpos : 1 ≤ month) (hle : month ≤ other)
    (hother : other ≤ 12) : daysBefore year month ≤ daysBefore year other := by
  revert hother
  induction other, hle using Int.leInduction with
  | base => exact fun _ => le_rfl
  | succ other hle ih =>
    intro hother
    have hlength := monthLength_pos year other
    rw [daysBefore_succ year (by omega) (by omega)]
    have h := ih (by omega)
    omega

/-- The day of the year. -/
theorem dayOfYear_pos (date : Date) : 1 ≤ daysBefore date.year date.month + date.day := by
  have hday := date.day_pos
  have hmono := daysBefore_mono date.year le_rfl date.month_pos date.month_le
  rw [daysBefore_one] at hmono
  omega

/-- A date lies before every later month of its year. -/
theorem le_daysBefore (date : Date) {month : Int} (hlt : date.month < month) (hle : month ≤ 12) :
    daysBefore date.year date.month + date.day ≤ daysBefore date.year month := by
  have hpos := date.month_pos
  have hlast := date.day_le
  have hnext := daysBefore_succ date.year hpos (by omega)
  have hmono := daysBefore_mono date.year (by omega : 1 ≤ date.month + 1) (by omega : _ ≤ month) hle
  omega

/-- A date lies before every later year. -/
theorem dayOfYear_le (date : Date) :
    daysBefore date.year date.month + date.day ≤ if Leap date.year then 366 else 365 := by
  have hlast := date.day_le
  have hle := date.month_le
  have htwelve := daysBefore_twelve date.year
  by_cases hdecember : date.month = 12
  · have hlength : monthLength date.year 12 = 31 := rfl
    rw [hdecember, hlength] at hlast
    rw [hdecember, htwelve]
    split
    · omega
    · omega
  · have hbefore := date.le_daysBefore (by omega) le_rfl
    rw [htwelve] at hbefore
    revert hbefore
    split
    · omega
    · omega

theorem number_lt_of_year_lt {a b : Date} (hlt : a.year < b.year) : a.number < b.number := by
  have hyear := daysBeforeYear_mono (by omega : a.year + 1 ≤ b.year)
  rw [daysBeforeYear_succ] at hyear
  have hend := a.dayOfYear_le
  have hstart := b.dayOfYear_pos
  unfold number
  omega

theorem number_lt_of_month_lt {a b : Date} (hyear : a.year = b.year) (hlt : a.month < b.month) :
    a.number < b.number := by
  have hmonth := a.le_daysBefore hlt b.month_le
  have hday := b.day_pos
  unfold number
  rw [← hyear]
  omega

/-- No two dates have one number. -/
theorem number_injective : Function.Injective number := by
  intro a b heq
  have hyear : a.year = b.year := by
    obtain hlt | h | hlt := lt_trichotomy a.year b.year
    · exact absurd heq (number_lt_of_year_lt hlt).ne
    · exact h
    · exact absurd heq (number_lt_of_year_lt hlt).ne'
  have hmonth : a.month = b.month := by
    obtain hlt | h | hlt := lt_trichotomy a.month b.month
    · exact absurd heq (number_lt_of_month_lt hyear hlt).ne
    · exact h
    · exact absurd heq (number_lt_of_month_lt hyear.symm hlt).ne'
  apply Date.ext hyear hmonth
  unfold number at heq
  rw [hyear, hmonth] at heq
  omega

theorem number_next_iterate (date : Date) (n : Nat) : (next^[n] date).number = date.number + n := by
  induction n with
  | zero => simp
  | succ n ih =>
    rw [Function.iterate_succ_apply', number_next, ih]
    omega

/-- Every number is a date's. -/
theorem number_surjective : Function.Surjective number := by
  intro z
  have hearly : daysBeforeYear (-(z.natAbs : Int)) + 0 + 1 - 719163 ≤ z := by
    unfold daysBeforeYear
    omega
  obtain ⟨first, hfirst⟩ : ∃ first : Date, first.number ≤ z :=
    ⟨firstOf (-(z.natAbs : Int)) 1 (by decide) (by decide), hearly⟩
  refine ⟨next^[(z - first.number).toNat] first, ?_⟩
  rw [number_next_iterate]
  omega

/-! ## Years from March -/

theorem number_march (date : Date) :
    date.number = 365 * date.marchYear + date.marchYear / 4 - date.marchYear / 100 +
      date.marchYear / 400 + date.marchDay - 719468 := by
  have hpos := date.month_pos
  have hle := date.month_le
  have hcount := leapYears_succ date.year
  obtain ⟨month, hmonth⟩ : ∃ month, date.month = month := ⟨_, rfl⟩
  unfold number daysBeforeYear marchDay marchMonth marchYear daysBefore
  rw [hmonth] at hpos hle ⊢
  by_cases hleap : Leap date.year
  · rw [if_pos hleap] at hcount
    interval_cases month <;> simp [hleap] <;> omega
  · rw [if_neg hleap] at hcount
    interval_cases month <;> simp [hleap] <;> omega

/-- The weekday is the number's, 1970-01-01 being a Thursday. -/
theorem weekday_number (date : Date) : date.weekday = (date.number + 4) % 7 := by
  have hpos := date.month_pos
  have hle := date.month_le
  obtain ⟨month, hmonth⟩ : ∃ month, date.month = month := ⟨_, rfl⟩
  rw [number_march]
  unfold weekday weekdayBefore marchDay marchMonth marchYear
  rw [hmonth] at hpos hle ⊢
  interval_cases month
  all_goals
    simp
    omega

/-- The weekday of the date after is the weekday after. -/
theorem weekday_next (date : Date) : date.next.weekday = (date.weekday + 1) % 7 := by
  rw [weekday_number, weekday_number, number_next]
  omega

theorem marchMonth_bounds (date : Date) : 0 ≤ date.marchMonth ∧ date.marchMonth ≤ 11 := by
  have hpos := date.month_pos
  have hle := date.month_le
  unfold marchMonth
  omega

theorem day_le_march (date : Date) :
    date.day ≤ (153 * (date.marchMonth + 1) + 2) / 5 - (153 * date.marchMonth + 2) / 5 := by
  have hpos := date.month_pos
  have hle := date.month_le
  have hlast := date.day_le
  obtain ⟨month, hmonth⟩ : ∃ month, date.month = month := ⟨_, rfl⟩
  unfold marchMonth
  unfold monthLength at hlast
  rw [hmonth] at hpos hle hlast ⊢
  interval_cases month
  case «2» =>
    revert hlast
    norm_num
    split
    · omega
    · omega
  all_goals
    norm_num at hlast ⊢
    omega

/-- The leap day is the last of its year from March. -/
theorem marchDay_le (date : Date) :
    date.marchDay ≤ if Leap (date.marchYear + 1) then 365 else 364 := by
  have hlast := date.day_le
  have hmarch := date.day_le_march
  have hbounds := date.marchMonth_bounds
  by_cases hfebruary : date.month = 2
  · have hyear : date.marchYear + 1 = date.year := by
      unfold marchYear
      omega
    have hmonth : date.marchMonth = 11 := by
      unfold marchMonth
      omega
    unfold marchDay
    rw [hyear, hmonth]
    rw [hfebruary] at hlast
    unfold monthLength at hlast
    revert hlast
    norm_num
    split
    · omega
    · omega
  · have hmonth : date.marchMonth < 11 := by
      have hle := date.month_le
      unfold marchMonth
      omega
    unfold marchDay
    split
    · omega
    · omega

theorem marchDay_nonneg (date : Date) : 0 ≤ date.marchDay := by
  have hday := date.day_pos
  have hbounds := date.marchMonth_bounds
  unfold marchDay
  omega

theorem marchMonth_eq (date : Date) : (5 * date.marchDay + 2) / 153 = date.marchMonth := by
  have hday := date.day_pos
  have hmarch := date.day_le_march
  unfold marchDay
  omega

/-- The year of an era of 400 years, from the day of the era: the days the leap years
    add are taken off before the division by 365. -/
theorem yearOfEra_eq {yearOfEra dayOfYear dayOfEra : Int} (hnonneg : 0 ≤ yearOfEra)
    (hlt : yearOfEra < 400) (hday : 0 ≤ dayOfYear)
    (hlast : dayOfYear ≤ if Leap (yearOfEra + 1) then 365 else 364)
    (hera : dayOfEra = 365 * yearOfEra + yearOfEra / 4 - yearOfEra / 100 + dayOfYear) :
    (dayOfEra - dayOfEra / 1460 + dayOfEra / 36524 - dayOfEra / 146096) / 365 = yearOfEra := by
  -- centuries, and leap periods of four years
  obtain ⟨c, q, t, hyear, hc, hc', hq, hq', ht, ht'⟩ : ∃ c q t : Int,
      yearOfEra = 100 * c + 4 * q + t ∧ 0 ≤ c ∧ c ≤ 3 ∧ 0 ≤ q ∧ q ≤ 24 ∧ 0 ≤ t ∧ t ≤ 3 :=
    ⟨yearOfEra / 100, yearOfEra % 100 / 4, yearOfEra % 4, by omega, by omega, by omega, by omega,
      by omega, by omega, by omega⟩
  have hdays : dayOfEra = 36524 * c + 1461 * q + 365 * t + dayOfYear := by omega
  have hle : dayOfYear ≤ 365 ∧ (dayOfYear = 365 → t = 3 ∧ (q < 24 ∨ c = 3)) := by
    by_cases hleap : Leap (yearOfEra + 1)
    · rw [if_pos hleap] at hlast
      unfold Leap at hleap
      omega
    · rw [if_neg hleap] at hlast
      omega
  clear hera hlast
  have hperiods : dayOfEra / 1460 =
      25 * c + q + if 24 * c + q + 365 * t + dayOfYear < 1460 then 0 else 1 := by
    split
    · omega
    · omega
  have hcenturies : dayOfEra / 36524 - dayOfEra / 146096 = c := by
    by_cases hend : dayOfEra = 146096
    · omega
    · have hzero : dayOfEra / 146096 = 0 := by omega
      omega
  have hsum : dayOfEra - dayOfEra / 1460 + dayOfEra / 36524 - dayOfEra / 146096 =
      dayOfEra - dayOfEra / 1460 + c := by omega
  rw [hsum, hperiods]
  split
  · omega
  · omega

end Date

end HMailServer.Gregorian
