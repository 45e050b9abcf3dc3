import Orqara.Library.CivilDate

/-!
# Dates in JavaScript

A `Date` is a number of milliseconds since 1970, up to a hundred million days before or after it,
or it is invalid. Its parts are those of the universal time.
-/

namespace Orqara.JsDate

open CivilDate

/-- The last time that a `Date` can have. -/
def lastDate : ℤ := 8640000000000000

def msPerDay : ℤ := 86400000

def IsDate (time : ℤ) : Prop := -lastDate ≤ time ∧ time ≤ lastDate

instance (time : ℤ) : Decidable (IsDate time) := inferInstanceAs (Decidable (_ ∧ _))

/-- `new Date(time)`, nothing for an invalid date. -/
def timeClip (time : ℤ) : Option ℤ := if IsDate time then some time else none

def day (time : ℤ) : ℤ := time / msPerDay

def getUTCFullYear (time : ℤ) : ℤ := yearFromDay (day time)

def getUTCMonth (time : ℤ) : ℕ := monthFromDay (day time)

def getUTCDate (time : ℤ) : ℤ := dateFromDay (day time)

def getUTCDay (time : ℤ) : ℤ := weekDay (day time)

def getUTCHours (time : ℤ) : ℤ := time / 3600000 % 24

def getUTCMinutes (time : ℤ) : ℤ := time / 60000 % 60

/-- A year from 0 to 99 is one of the twentieth century. -/
def makeFullYear (year : ℤ) : ℤ := if 0 ≤ year ∧ year ≤ 99 then 1900 + year else year

/-- `Date.UTC(year, month, date, hours, minutes, 0, 0)`, before it is clipped. -/
def utc (year : ℤ) (month : ℕ) (date hours minutes : ℤ) : ℤ :=
  makeDay (makeFullYear year) month date * msPerDay + hours * 3600000 + minutes * 60000

/-! ## From the parts to the time -/

/-- The parts of a time lead back to its minute, and to any minute from there. -/
theorem utc_minutes {time : ℤ} (minutes : ℤ) (h : makeFullYear (getUTCFullYear time) = getUTCFullYear time) :
    utc (getUTCFullYear time) (getUTCMonth time) (getUTCDate time) (getUTCHours time)
      (getUTCMinutes time + minutes) = (time / 60000 + minutes) * 60000 := by
  unfold utc
  rw [h]
  unfold getUTCFullYear getUTCMonth getUTCDate
  rw [makeDay_date]
  unfold day msPerDay getUTCHours getUTCMinutes
  omega

/-- A year from 0 to 99 is moved by nineteen hundred years. -/
theorem lt_utc_of_twoDigits {time : ℤ} (minutes : ℤ) (hminutes : 0 ≤ minutes)
    (h : 0 ≤ getUTCFullYear time ∧ getUTCFullYear time ≤ 99) :
    time + cycle * msPerDay < utc (getUTCFullYear time) (getUTCMonth time) (getUTCDate time)
      (getUTCHours time) (getUTCMinutes time + minutes) := by
  have hmoved := makeDay_add_cycle_lt (getUTCFullYear time) (getUTCMonth time) (getUTCDate time)
  have hday : makeDay (getUTCFullYear time) (getUTCMonth time) (getUTCDate time) = day time :=
    makeDay_date (day time)
  rw [hday] at hmoved
  unfold utc makeFullYear
  rw [if_pos h]
  unfold day msPerDay at *
  unfold getUTCHours getUTCMinutes
  omega

/-! ## Four hundred years -/

section

variable (time : ℤ)

theorem day_sub_cycle : day (time - cycle * msPerDay) = day time - cycle := by
  unfold day cycle msPerDay
  omega

theorem getUTCMonth_sub_cycle :
    getUTCMonth (time - cycle * msPerDay) = getUTCMonth time := by
  rw [getUTCMonth, day_sub_cycle, monthFromDay_sub_cycle, getUTCMonth]

theorem getUTCDate_sub_cycle : getUTCDate (time - cycle * msPerDay) = getUTCDate time := by
  rw [getUTCDate, day_sub_cycle, dateFromDay_sub_cycle, getUTCDate]

theorem getUTCDay_sub_cycle : getUTCDay (time - cycle * msPerDay) = getUTCDay time := by
  rw [getUTCDay, day_sub_cycle, weekDay_sub_cycle, getUTCDay]

theorem getUTCHours_sub_cycle :
    getUTCHours (time - cycle * msPerDay) = getUTCHours time := by
  unfold getUTCHours cycle msPerDay
  omega

theorem getUTCMinutes_sub_cycle :
    getUTCMinutes (time - cycle * msPerDay) = getUTCMinutes time := by
  unfold getUTCMinutes cycle msPerDay
  omega

end

end Orqara.JsDate
