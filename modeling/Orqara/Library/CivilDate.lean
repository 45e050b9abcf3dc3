import Mathlib

/-!
# Dates

The Gregorian calendar, before its introduction too: what year, month and day of the month a day
has. Days are counted from the first of January 1970, months from zero.
-/

namespace Orqara.CivilDate

/-- The day in a leap year that other years do not have. -/
def leap (year : ℤ) : ℤ := if year % 4 = 0 ∧ year % 100 ≠ 0 ∨ year % 400 = 0 then 1 else 0

/-- The first day of a year. -/
def dayFromYear (year : ℤ) : ℤ :=
  365 * (year - 1970) + (year - 1969) / 4 - (year - 1901) / 100 + (year - 1601) / 400

/-- The year of a day. Counting the mean length of a year misses it by one at most. -/
def yearFromDay (day : ℤ) : ℤ :=
  let near := 1970 + 400 * day / 146097
  if day < dayFromYear near then near - 1
  else if dayFromYear (near + 1) ≤ day then near + 1
  else near

def dayWithinYear (day : ℤ) : ℤ := day - dayFromYear (yearFromDay day)

/-- The days of a year before a month. -/
def monthStart (leap : ℤ) : ℕ → ℤ
  | 0 => 0
  | 1 => 31
  | 2 => 59 + leap
  | 3 => 90 + leap
  | 4 => 120 + leap
  | 5 => 151 + leap
  | 6 => 181 + leap
  | 7 => 212 + leap
  | 8 => 243 + leap
  | 9 => 273 + leap
  | 10 => 304 + leap
  | 11 => 334 + leap
  | _ => 365 + leap

/-- The last month of a year that has begun on a day. -/
def monthWithinYear (leap day : ℤ) : ℕ := Nat.findGreatest (fun month => monthStart leap month ≤ day) 11

def monthFromDay (day : ℤ) : ℕ := monthWithinYear (leap (yearFromDay day)) (dayWithinYear day)

/-- The day of the month, from one on. -/
def dateFromDay (day : ℤ) : ℤ :=
  dayWithinYear day - monthStart (leap (yearFromDay day)) (monthFromDay day) + 1

/-- The day of the week, from Sunday on. -/
def weekDay (day : ℤ) : ℤ := (day + 4) % 7

/-- The day with a date. -/
def makeDay (year : ℤ) (month : ℕ) (date : ℤ) : ℤ :=
  dayFromYear year + monthStart (leap year) month + date - 1

/-! ## Years -/

theorem leap_nonneg (year : ℤ) : 0 ≤ leap year := by
  unfold leap
  split <;> omega

theorem leap_le_one (year : ℤ) : leap year ≤ 1 := by
  unfold leap
  split <;> omega

section

variable (day : ℤ)

theorem lt_dayFromYear_yearFromDay_succ : day < dayFromYear (yearFromDay day + 1) := by
  unfold yearFromDay
  dsimp only
  split
  · next h => simpa using h
  · split
    · unfold dayFromYear at *
      omega
    · next h => exact not_le.mp h

/-! ## Dates -/

/-- A date leads back to its day. -/
theorem makeDay_date :
    makeDay (yearFromDay day) (monthFromDay day) (dateFromDay day) = day := by
  unfold makeDay dateFromDay dayWithinYear
  ring

theorem monthStart_le_add_one {l l' : ℤ} (month : ℕ) (hnonneg : 0 ≤ l) (hone : l' ≤ 1) :
    monthStart l' month ≤ monthStart l month + 1 := by
  unfold monthStart
  split <;> omega

/-! ## Four hundred years -/

/-- The days in four hundred years, a whole number of weeks. -/
def cycle : ℤ := 146097

theorem leap_sub_cycle (year : ℤ) : leap (year - 400) = leap year := by
  unfold leap
  split <;> split <;> omega

theorem dayFromYear_sub_cycle (year : ℤ) : dayFromYear (year - 400) = dayFromYear year - cycle := by
  unfold dayFromYear cycle
  omega

theorem yearFromDay_sub_cycle : yearFromDay (day - cycle) = yearFromDay day - 400 := by
  have hnear : 1970 + 400 * (day - cycle) / 146097 = 1970 + 400 * day / 146097 - 400 := by
    unfold cycle
    omega
  unfold yearFromDay
  dsimp only
  rw [hnear, sub_add_eq_add_sub, dayFromYear_sub_cycle, dayFromYear_sub_cycle]
  split_ifs <;> omega

theorem dayWithinYear_sub_cycle : dayWithinYear (day - cycle) = dayWithinYear day := by
  unfold dayWithinYear
  rw [yearFromDay_sub_cycle, dayFromYear_sub_cycle]
  ring

/-- The dates of four hundred years come again and again. -/
theorem monthFromDay_sub_cycle : monthFromDay (day - cycle) = monthFromDay day := by
  unfold monthFromDay
  rw [dayWithinYear_sub_cycle, yearFromDay_sub_cycle, leap_sub_cycle]

theorem dateFromDay_sub_cycle : dateFromDay (day - cycle) = dateFromDay day := by
  unfold dateFromDay
  rw [dayWithinYear_sub_cycle, monthFromDay_sub_cycle, yearFromDay_sub_cycle, leap_sub_cycle]

theorem weekDay_sub_cycle : weekDay (day - cycle) = weekDay day := by
  unfold weekDay cycle
  omega

end

/-- The same date in a later century is more than four hundred years away. -/
theorem makeDay_add_cycle_lt (year : ℤ) (month : ℕ) (date : ℤ) :
    makeDay year month date + cycle + 1 < makeDay (1900 + year) month date := by
  have hstart := monthStart_le_add_one month (leap_nonneg (1900 + year)) (leap_le_one year)
  have hyears : dayFromYear year + 693000 ≤ dayFromYear (1900 + year) := by
    unfold dayFromYear
    omega
  unfold makeDay cycle
  omega

end Orqara.CivilDate
