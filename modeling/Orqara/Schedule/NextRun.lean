import Orqara.Library.JsDate
import Orqara.Library.SteppedSearch
import Orqara.Schedule.Cadence
import Orqara.Schedule.CronExpression

/-!
# The next run of a cron expression

The minutes of the universal time that a cron expression has, and the search for the first of them
after an instant. The search starts from the parts of a date, and a year of two digits is taken for
one of the twentieth century there.
-/

namespace Orqara.Schedule

open JsDate CivilDate

structure CronDateParts where
  minute : ℤ
  hour : ℤ
  dayOfMonth : ℤ
  month : ℤ
  dayOfWeek : ℤ

def utcDateParts (date : ℤ) : CronDateParts where
  minute := getUTCMinutes date
  hour := getUTCHours date
  dayOfMonth := getUTCDate date
  month := getUTCMonth date + 1
  dayOfWeek := getUTCDay date

def ParsedCronExpression.isMatch (cron : ParsedCronExpression) (parts : CronDateParts) : Bool :=
  cron.minute.isMatch parts.minute && cron.hour.isMatch parts.hour &&
    cron.dayOfMonth.isMatch parts.dayOfMonth && cron.month.isMatch parts.month &&
    cron.dayOfWeek.isMatch parts.dayOfWeek

/-- A whole minute of a date whose parts all match. -/
def ParsedCronExpression.RunsAt (cron : ParsedCronExpression) (time : ℤ) : Prop :=
  60000 ∣ time ∧ IsDate time ∧ cron.isMatch (utcDateParts time) = true

instance (cron : ParsedCronExpression) (time : ℤ) : Decidable (cron.RunsAt time) :=
  inferInstanceAs (Decidable (_ ∧ _))

/-- The minutes that the search looks at. -/
def searchHorizon : ℕ := 366 * 24 * 60

/-- The reader of the parts in a time zone is another library's. -/
abbrev ZonedReader := String → Except String (ℤ → CronDateParts)

namespace Cron

/-- The time that `Date.UTC` is given the parts of. -/
def searchStart (date : ℤ) : ℤ :=
  utc (getUTCFullYear date) (getUTCMonth date) (getUTCDate date) (getUTCHours date)
    (getUTCMinutes date + 1)

def startOfNextMinute (date : ℤ) : Option ℤ := timeClip (searchStart date)

def createCronDatePartsReader (zoned : ZonedReader) :
    Option String → Except String (ℤ → CronDateParts)
  | none => .ok utcDateParts
  | some timeZone => zoned timeZone

/-- The first of `count` dates from `cursor` on that is matched. -/
def findDate (isMatch : ℤ → Bool) : ℕ → Option ℤ → Option ℤ
  | 0, _ => none
  | count + 1, cursor =>
    -- no field has a part of an invalid date
    if cursor.any isMatch then cursor
    else findDate isMatch count (cursor.bind fun date => timeClip (date + 60000))

/-- An interval may lead to an invalid date. -/
def computeNextRunAt (zoned : ZonedReader) (cadence : ScheduleCadence) (after : ℤ) :
    Except String (Option ℤ) :=
  match cadence with
  | .every everyMs => .ok (timeClip (after + everyMs))
  | .cron expression timezone =>
    (parseCronExpression expression).bind fun cron =>
    (createCronDatePartsReader zoned timezone).bind fun readDateParts =>
    match findDate (fun date => cron.isMatch (readDateParts date)) searchHorizon
        (startOfNextMinute after) with
    | some cursor => .ok (some cursor)
    | none =>
      .error ("Unable to compute next run time for cron expression: " ++ expression)

/-! ## The search -/

variable {cron : ParsedCronExpression} {after time next cursor : ℤ} {expression : String}
  {zoned : ZonedReader}

/-- Behind the last date there is no other. -/
theorem findDate_timeClip {isMatch : ℤ → Bool} {count : ℕ} (h : -JsDate.lastDate ≤ cursor) :
    findDate isMatch count (timeClip cursor) =
      firstFrom (fun date => decide (IsDate date) && isMatch date) 60000 count cursor := by
  induction count generalizing cursor with
  | zero => rfl
  | succ count ih =>
    have hnext : (timeClip cursor).bind (fun date => timeClip (date + 60000)) =
        timeClip (cursor + 60000) := by
      by_cases hdate : IsDate cursor
      · rw [timeClip, if_pos hdate, Option.bind_some]
      · have hlater : ¬ IsDate (cursor + 60000) := by
          unfold IsDate at *
          omega
        rw [timeClip, timeClip, if_neg hdate, if_neg hlater, Option.bind_none]
    rw [findDate, firstFrom, hnext, ih (by omega)]
    by_cases hdate : IsDate cursor
    · simp [timeClip, hdate]
    · simp [timeClip, hdate]

theorem dvd_searchStart (date : ℤ) : 60000 ∣ searchStart date := by
  unfold searchStart utc msPerDay
  omega

/-- A date whose year has two digits. -/
def TwoDigitYear (date : ℤ) : Prop := 0 ≤ getUTCFullYear date ∧ getUTCFullYear date ≤ 99

instance (date : ℤ) : Decidable (TwoDigitYear date) := inferInstanceAs (Decidable (_ ∧ _))

theorem searchStart_of_not_twoDigitYear (h : ¬ TwoDigitYear after) :
    searchStart after = (after / 60000 + 1) * 60000 := utc_minutes 1 (if_neg h)

theorem lt_searchStart_of_twoDigitYear (h : TwoDigitYear after) :
    after + cycle * msPerDay < searchStart after := lt_utc_of_twoDigits 1 (by omega) h

theorem lt_searchStart (date : ℤ) : date < searchStart date := by
  by_cases h : TwoDigitYear date
  · have hlater := lt_searchStart_of_twoDigitYear h
    unfold cycle msPerDay at hlater
    omega
  · rw [searchStart_of_not_twoDigitYear h]
    omega

/-- The first run among the minutes that the search looks at. -/
def findRun (cron : ParsedCronExpression) (after : ℤ) : Option ℤ :=
  firstFrom (fun date => decide (cron.RunsAt date)) 60000 searchHorizon (searchStart after)

theorem computeNextRunAt_eq (hcron : parseCronExpression expression = .ok cron)
    (hafter : -JsDate.lastDate ≤ after) : computeNextRunAt zoned (.cron expression none) after =
      match findRun cron after with
      | some cursor => .ok (some cursor)
      | none =>
        .error ("Unable to compute next run time for cron expression: " ++ expression) := by
  have hstart := lt_searchStart after
  have hfound : findDate (fun date => cron.isMatch (utcDateParts date)) searchHorizon
      (startOfNextMinute after) = findRun cron after := by
    rw [startOfNextMinute, findDate_timeClip (by omega)]
    apply firstFrom_congr
    intro i _
    have hminute : 60000 ∣ searchStart after + i • 60000 := by
      have := dvd_searchStart after
      rw [nsmul_eq_mul]
      omega
    simp only [ParsedCronExpression.RunsAt, hminute, true_and, Bool.decide_and, Bool.decide_eq_true]
  simp only [computeNextRunAt, hcron, createCronDatePartsReader, Except.bind, hfound]

theorem runsAt_of_findRun (h : findRun cron after = some next) : after < next ∧ cron.RunsAt next := by
  obtain ⟨i, -, hnext, hruns, -⟩ := exists_of_firstFrom_eq_some h
  have hstart := lt_searchStart after
  rw [nsmul_eq_mul] at hnext
  exact ⟨by omega, of_decide_eq_true hruns⟩

/-- The minutes after an instant are those from the next one on. -/
theorem exists_eq_add_nsmul (h : after < time) (hminute : 60000 ∣ time) :
    ∃ i : ℕ, time = (after / 60000 + 1) * 60000 + i • 60000 := by
  refine ⟨((time / 60000) - (after / 60000 + 1)).toNat, ?_⟩
  rw [nsmul_eq_mul]
  omega

theorem isLeast_of_findRun (hyear : ¬ TwoDigitYear after) (h : findRun cron after = some next) :
    IsLeast {time | after < time ∧ cron.RunsAt time} next := by
  refine ⟨runsAt_of_findRun h, ?_⟩
  rintro time ⟨hlater, hruns⟩
  obtain ⟨i, -, hnext, -, hbefore⟩ := exists_of_firstFrom_eq_some h
  obtain ⟨j, htime⟩ := exists_eq_add_nsmul hlater hruns.1
  rw [searchStart_of_not_twoDigitYear hyear] at hnext hbefore
  by_contra hlt
  have hj : j < i := by
    rw [nsmul_eq_mul] at hnext htime
    omega
  have hnot := hbefore j hj
  rw [← htime] at hnot
  exact of_decide_eq_false hnot hruns

/-- A run that the search can still see. -/
def RunsWithin (cron : ParsedCronExpression) (after : ℤ) : Prop :=
  ∃ time, after < time ∧ time ≤ after + searchHorizon * 60000 ∧ cron.RunsAt time

theorem findRun_eq_none_iff (hyear : ¬ TwoDigitYear after) :
    findRun cron after = none ↔ ¬ RunsWithin cron after := by
  rw [findRun, firstFrom_eq_none_iff, searchStart_of_not_twoDigitYear hyear]
  simp only [RunsWithin, not_exists, not_and, decide_eq_false_iff_not]
  constructor
  · intro h time hlater hwithin hruns
    obtain ⟨i, htime⟩ := exists_eq_add_nsmul hlater hruns.1
    refine h i ?_ (htime ▸ hruns)
    rw [nsmul_eq_mul] at htime
    omega
  · intro h i hi
    apply h
    · rw [nsmul_eq_mul]
      omega
    · rw [nsmul_eq_mul]
      omega

/-! ## Years of two digits -/

/-- Four hundred years before a run there is another one. -/
theorem runsAt_sub_cycle (h : cron.RunsAt time) (hdate : -JsDate.lastDate ≤ time - cycle * msPerDay) :
    cron.RunsAt (time - cycle * msPerDay) := by
  obtain ⟨hminute, hvalid, hmatch⟩ := h
  refine ⟨?_, ?_, ?_⟩
  · unfold cycle msPerDay
    omega
  · unfold IsDate at *
    unfold cycle msPerDay at *
    omega
  · have hparts : utcDateParts (time - cycle * msPerDay) = utcDateParts time := by
      simp only [utcDateParts, getUTCMinutes_sub_cycle, getUTCHours_sub_cycle, getUTCDate_sub_cycle,
        getUTCMonth_sub_cycle, getUTCDay_sub_cycle]
    rw [hparts]
    exact hmatch

/-- What is found from the wrong century on is not the first run. -/
theorem not_isLeast_of_twoDigitYear (hdate : IsDate after) (hyear : TwoDigitYear after)
    (h : findRun cron after = some next) :
    ¬ IsLeast {time | after < time ∧ cron.RunsAt time} next := by
  intro hleast
  obtain ⟨i, -, hnext, hruns, -⟩ := exists_of_firstFrom_eq_some h
  have hfar := lt_searchStart_of_twoDigitYear hyear
  have hafter : after < next - cycle * msPerDay := by
    rw [nsmul_eq_mul] at hnext
    omega
  have hearlier := runsAt_sub_cycle (of_decide_eq_true hruns) (hdate.1.trans hafter.le)
  have hle := hleast.2 ⟨hafter, hearlier⟩
  unfold cycle msPerDay at hle
  omega

/-- The result is the first run after an instant, and fails only where there is none in sight. -/
structure FindsFirstRun (zoned : ZonedReader) (expression : String) (cron : ParsedCronExpression)
    (after : ℤ) : Prop where
  least : ∀ next, computeNextRunAt zoned (.cron expression none) after = .ok next →
    ∃ time, next = some time ∧ IsLeast {time | after < time ∧ cron.RunsAt time} time
  throws : (∃ error, computeNextRunAt zoned (.cron expression none) after = .error error) ↔
    ¬ RunsWithin cron after

/-- A run among the minutes that a search from `start` on would look at. -/
def RunsFrom (cron : ParsedCronExpression) (start : ℤ) : Prop :=
  ∃ i < searchHorizon, cron.RunsAt (start + i • 60000)

theorem findRun_eq_none_iff_runsFrom :
    findRun cron after = none ↔ ¬ RunsFrom cron (searchStart after) := by
  rw [findRun, firstFrom_eq_none_iff]
  simp [RunsFrom]

/-- The next run is the first one after any instant of a year without two digits, and of a year
with two digits where no run is in sight, neither there nor nineteen hundred years later. -/
theorem findsFirstRun_iff (hcron : parseCronExpression expression = .ok cron)
    (hdate : IsDate after) : FindsFirstRun zoned expression cron after ↔
      ¬ TwoDigitYear after ∨
        ¬ RunsWithin cron after ∧ ¬ RunsFrom cron (searchStart after) := by
  rw [← findRun_eq_none_iff_runsFrom]
  have hresult : computeNextRunAt zoned (.cron expression none) after =
      match findRun cron after with
      | some cursor => .ok (some cursor)
      | none =>
        .error ("Unable to compute next run time for cron expression: " ++ expression) :=
    computeNextRunAt_eq hcron hdate.1
  cases hfound : findRun cron after with
  | some found =>
    simp only [hfound] at hresult
    simp only [reduceCtorEq, and_false, or_false]
    constructor
    · intro h hyear
      obtain ⟨time, htime, hleast⟩ := h.least _ hresult
      rw [← Option.some.inj htime] at hleast
      exact not_isLeast_of_twoDigitYear hdate hyear hfound hleast
    · intro hyear
      refine ⟨fun next hnext => ?_, ?_⟩
      · rw [hresult] at hnext
        exact ⟨found, (Except.ok.inj hnext).symm, isLeast_of_findRun hyear hfound⟩
      · have hsees := (findRun_eq_none_iff hyear).not.mp (by rw [hfound]; simp)
        simp [hresult, hsees]
  | none =>
    simp only [hfound] at hresult
    simp only [and_true]
    constructor
    · intro h
      exact .inr (h.throws.mp ⟨_, hresult⟩)
    · intro h
      have hsees : ¬ RunsWithin cron after :=
        h.elim (fun hyear => (findRun_eq_none_iff hyear).mp hfound) id
      refine ⟨fun next hnext => ?_, ?_⟩
      · rw [hresult] at hnext
        cases hnext
      · simp [hresult, hsees]

end Cron

end Orqara.Schedule
