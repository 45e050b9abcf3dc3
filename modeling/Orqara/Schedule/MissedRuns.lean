import Orqara.Schedule.NextRun
import Orqara.Schedule.StoredSchedule

/-!
# Runs that were missed

Behind a run, and behind a restart, the service goes on from run to run until one is later than
the present. From a run that is not over yet this is the first one later than now. But a cadence
may be given a next run while a run is on: the service goes on from there, and misses it.
-/

namespace Orqara.Schedule

open JsDate CivilDate

/-- The calendar of the universal time; `zoned` is the one of the other time zones. -/
def utcCalendar (zoned : String → String → Option (ℕ → Bool)) (parseDate : String → Option ℕ) :
    Calendar where
  matchesMinute expression
    | none =>
      (parseCronExpression expression).toOption.map fun cron minute => decide (cron.RunsAt minute)
    | some timezone => zoned expression timezone
  parseDate

/-- A cadence without a time zone. -/
def ScheduleCadence.IsUtc : ScheduleCadence → Prop
  | .every _ => True
  | .cron _ timezone => timezone = none

/-- The times that a cadence has; an interval has them from `anchor` on. -/
def cadencePoints (anchor : ℕ) : ScheduleCadence → Set ℕ
  | .every everyMs => {time | ∃ k : ℕ, time = anchor + k * everyMs}
  | .cron expression _ =>
    {time | ∃ cron, parseCronExpression expression = .ok cron ∧ cron.RunsAt time}

variable {zoned : String → String → Option (ℕ → Bool)} {parseDate : String → Option ℕ}
  {cadence : ScheduleCadence} {anchor after now next : ℕ}

/-! ## One run -/

theorem findMinute_eq_firstFrom (isMatch : ℕ → Bool) (count cursor : ℕ) :
    findMinute isMatch count cursor = firstFrom isMatch 60000 count cursor := by
  induction count generalizing cursor with
  | zero => rfl
  | succ count ih => rw [findMinute, firstFrom, ih]

/-- Behind 1970 no year has two digits. -/
theorem not_twoDigitYear (date : ℕ) : ¬ Cron.TwoDigitYear date := by
  have hday : (0 : ℤ) ≤ day date := by
    unfold day msPerDay
    omega
  have hlt := lt_dayFromYear_yearFromDay_succ (day date)
  unfold Cron.TwoDigitYear getUTCFullYear
  unfold dayFromYear at hlt
  omega

theorem searchStart_natCast (date : ℕ) : Cron.searchStart date = (startOfNextMinute date : ℕ) := by
  rw [Cron.searchStart_of_not_twoDigitYear (not_twoDigitYear date)]
  unfold startOfNextMinute
  push_cast
  rfl

theorem findMinute_eq_findRun (cron : ParsedCronExpression) (date : ℕ) :
    Option.map (Nat.cast : ℕ → ℤ) (findMinute (fun minute => decide (cron.RunsAt minute))
      searchHorizon (startOfNextMinute date)) = Cron.findRun cron date := by
  rw [findMinute_eq_firstFrom, Cron.findRun, searchStart_natCast]
  exact firstFrom_map (Nat.castAddMonoidHom ℤ) (fun date => decide (cron.RunsAt date)) 60000 _ _

/-- One of the times that a search sets out from. -/
def IsSearched (cadence : ScheduleCadence) (anchor time : ℕ) : Prop :=
  time = anchor ∨ time ∈ cadencePoints anchor cadence

section

variable (hutc : cadence.IsUtc)
include hutc

section

variable (hfrom : IsSearched cadence anchor after)
include hfrom

theorem isLeast_of_computeNextRunAt
    (h : computeNextRunAt (utcCalendar zoned parseDate) cadence after = some next) :
    IsLeast {time ∈ cadencePoints anchor cadence | after < time} next := by
  cases cadence with
  | every everyMs =>
    have hpoint : ∃ k : ℕ, after = anchor + k * everyMs := by
      rcases hfrom with rfl | hpoint
      · exact ⟨0, by omega⟩
      · exact hpoint
    obtain ⟨k, hk⟩ := hpoint
    have hnext : after + everyMs = next := by
      unfold computeNextRunAt at h
      simp only at h
      split at h
      · exact Option.some.inj h
      · cases h
    have hpos := everyMs.pos
    refine ⟨⟨⟨k + 1, by rw [← hnext, hk]; ring⟩, by omega⟩, ?_⟩
    rintro time ⟨⟨j, hj⟩, hlater⟩
    have hkj : k < j := by
      rw [hj, hk] at hlater
      exact Nat.lt_of_mul_lt_mul_right (Nat.lt_of_add_lt_add_left hlater)
    calc next = anchor + (k + 1) * everyMs := by rw [← hnext, hk]; ring
      _ ≤ anchor + j * everyMs := Nat.add_le_add_left (Nat.mul_le_mul_right _ hkj) _
      _ = time := hj.symm
  | cron expression timezone =>
    obtain rfl : timezone = none := hutc
    cases hcron : parseCronExpression expression with
    | error error => simp [computeNextRunAt, utcCalendar, hcron, Except.toOption] at h
    | ok cron =>
      have hfound : Cron.findRun cron after = some (next : ℤ) := by
        rw [← findMinute_eq_findRun]
        simp only [computeNextRunAt, utcCalendar, hcron, Except.toOption, Option.map_some,
          Option.bind_some] at h
        rw [searchHorizon, h]
        rfl
      have hleast := Cron.isLeast_of_findRun (not_twoDigitYear after) hfound
      refine ⟨⟨⟨cron, hcron, hleast.1.2⟩, by exact_mod_cast hleast.1.1⟩, ?_⟩
      rintro time ⟨⟨cron', hcron', hruns⟩, hlater⟩
      rw [hcron] at hcron'
      rw [← Except.ok.inj hcron'] at hruns
      have hle := hleast.2 ⟨by exact_mod_cast hlater, hruns⟩
      exact_mod_cast hle

/-! ## One run after another -/

/-- A time behind `now` that the loop comes to is the first one behind both of its bounds. -/
theorem isLeast_of_skipTo {fuel : ℕ}
    (h : skipTo (utcCalendar zoned parseDate) cadence now fuel after = some next) :
    IsLeast {time ∈ cadencePoints anchor cadence | after < time ∧ now < time} next := by
  induction fuel generalizing after with
  | zero => cases h
  | succ fuel ih =>
    obtain ⟨found, hfound, hrest⟩ := Option.bind_eq_some_iff.mp h
    have hleast := isLeast_of_computeNextRunAt hutc hfrom hfound
    have hlater : after < found := hleast.1.2
    split at hrest
    · have hmore := ih (.inr hleast.1.1) hrest
      refine ⟨⟨hmore.1.1, by have := hmore.1.2.1; omega, hmore.1.2.2⟩, ?_⟩
      rintro time ⟨hpoint, -, hnow⟩
      exact hmore.2 ⟨hpoint, by omega, hnow⟩
    · next hnow =>
      obtain rfl := Option.some.inj hrest
      refine ⟨⟨hleast.1.1, hlater, by omega⟩, ?_⟩
      rintro time ⟨hpoint, hafter, -⟩
      exact hleast.2 ⟨hpoint, hafter⟩

omit hfrom in
theorem isLeast_of_nextRunAfter
    (h : nextRunAfter (utcCalendar zoned parseDate) cadence after now = some next) :
    IsLeast {time ∈ cadencePoints after cadence | after < time ∧ now < time} next :=
  isLeast_of_skipTo hutc (.inl rfl) h

/-- The loop sets out from every time up to now, and fails if one of them leads nowhere. -/
theorem skipTo_eq_none {time fuel : ℕ}
    (hsearched : time = after ∨ after < time ∧ time ∈ cadencePoints anchor cadence ∧
      time ≤ now) (hnone : computeNextRunAt (utcCalendar zoned parseDate) cadence time = none) :
    skipTo (utcCalendar zoned parseDate) cadence now fuel after = none := by
  induction fuel generalizing after with
  | zero => rfl
  | succ fuel ih =>
    rw [skipTo]
    cases hfound : computeNextRunAt (utcCalendar zoned parseDate) cadence after with
    | none => rfl
    | some found =>
      rcases hsearched with rfl | ⟨hlater, hpoint, hnow⟩
      · rw [hnone] at hfound
        cases hfound
      · have hleast := isLeast_of_computeNextRunAt hutc hfrom hfound
        have hle : found ≤ time := hleast.2 ⟨hpoint, hlater⟩
        rw [Option.bind_some, if_pos (hle.trans hnow)]
        apply ih (.inr hleast.1.1)
        rcases hle.eq_or_lt with heq | hlt
        · exact .inl heq.symm
        · exact .inr ⟨hlt, hpoint, hnow⟩

/-- A run that leads nowhere lies on the way from `after` to `now`. -/
def Stuck (calendar : Calendar) (cadence : ScheduleCadence) (after now : ℕ) : Prop :=
  ∃ time, (time = after ∨ after < time ∧ time ∈ cadencePoints after cadence ∧ time ≤ now) ∧
    computeNextRunAt calendar cadence time = none

theorem exists_of_skipTo_eq_none {fuel : ℕ} (hfuel : now < after + fuel) (hpos : 0 < fuel)
    (h : skipTo (utcCalendar zoned parseDate) cadence now fuel after = none) :
    ∃ time, (time = after ∨ after < time ∧ time ∈ cadencePoints anchor cadence ∧ time ≤ now) ∧
      computeNextRunAt (utcCalendar zoned parseDate) cadence time = none := by
  induction fuel generalizing after with
  | zero => exact absurd hpos (lt_irrefl 0)
  | succ fuel ih =>
    rw [skipTo] at h
    cases hfound : computeNextRunAt (utcCalendar zoned parseDate) cadence after with
    | none => exact ⟨after, .inl rfl, hfound⟩
    | some found =>
      rw [hfound, Option.bind_some] at h
      have hleast := isLeast_of_computeNextRunAt hutc hfrom hfound
      have hlater : after < found := hleast.1.2
      split at h
      · next hnow =>
        obtain ⟨time, hsearched, hnone⟩ := ih (.inr hleast.1.1) (by omega) (by omega) h
        refine ⟨time, .inr ?_, hnone⟩
        rcases hsearched with rfl | ⟨hbehind, hpoint, htime⟩
        · exact ⟨hlater, hleast.1.1, hnow⟩
        · exact ⟨hlater.trans hbehind, hpoint, htime⟩
      · cases h

end

theorem nextRunAfter_eq_none_iff :
    nextRunAfter (utcCalendar zoned parseDate) cadence after now = none ↔
      Stuck (utcCalendar zoned parseDate) cadence after now := by
  constructor
  · intro h
    exact exists_of_skipTo_eq_none hutc (.inl rfl) (by omega) (by omega) h
  · rintro ⟨time, hsearched, hnone⟩
    exact skipTo_eq_none hutc (.inl rfl) hsearched hnone

end

/-- Nothing is missed where no time lies behind `now` and up to `after`. -/
theorem isLeast_iff (h : IsLeast {time ∈ cadencePoints after cadence | after < time ∧ now < time} next) :
    IsLeast {time ∈ cadencePoints after cadence | now < time} next ↔
      ∀ time ∈ cadencePoints after cadence, now < time → after < time := by
  constructor
  · intro hleast time hpoint hnow
    exact h.1.2.1.trans_le (hleast.2 ⟨hpoint, hnow⟩)
  · intro hbehind
    refine ⟨⟨h.1.1, h.1.2.2⟩, ?_⟩
    rintro time ⟨hpoint, hnow⟩
    exact h.2 ⟨hpoint, hbehind time hpoint hnow, hnow⟩

/-! ## Finished runs and restarts -/

variable {γ : Type} {calendar : Calendar} {schedule : StoredSchedule γ}

/-- The record that a run has ended in. -/
def endedRecord (schedule : StoredSchedule γ) (runId : ℕ) (result : RunnerResult) (now : ℕ) :
    StoredSchedule γ :=
  { schedule with
    runs := schedule.runs.map fun run => if run.id = runId then run.finished result now else run
    lastRunAt := some now
    updatedAt := now }

/-- A run behind which the cadence goes on. -/
structure Advances (calendar : Calendar) (schedule : StoredSchedule γ) (runId : ℕ)
    (result : RunnerResult) (now : ℕ) : Prop where
  targetGone : result.targetGone = false
  active : schedule.status = .active
  continues : shouldCompleteSchedule calendar (endedRecord schedule runId result now) now = false

/-- The record comes to the first time later than now, and to none only where the way there is
stuck. -/
structure CatchesUp (calendar : Calendar) (cadence : ScheduleCadence) (after now : ℕ)
    (outcome : Except String (Option (StoredSchedule γ))) : Prop where
  first : ∀ updated, outcome = .ok updated → ∃ schedule next, updated = some schedule ∧
    schedule.nextRunAt = some next ∧ IsLeast {time ∈ cadencePoints after cadence | now < time} next
  fails : (∃ error, outcome = .error error) ↔ Stuck calendar cadence after now

/-- Whatever record the next run is written to. -/
theorem catchesUp_iff (hutc : cadence.IsUtc) (write : ℕ → StoredSchedule γ)
    (hwrite : ∀ next, (write next).nextRunAt = some next) :
    CatchesUp (utcCalendar zoned parseDate) cadence after now
        ((requireNext (nextRunAfter (utcCalendar zoned parseDate) cadence after now)).map
          fun next => some (write next)) ↔
      Stuck (utcCalendar zoned parseDate) cadence after now ∨
        ∀ time ∈ cadencePoints after cadence, now < time → after < time := by
  cases hnext : nextRunAfter (utcCalendar zoned parseDate) cadence after now with
  | none =>
    have hstuck := (nextRunAfter_eq_none_iff hutc).mp hnext
    simp only [hstuck, true_or, iff_true]
    refine ⟨fun updated h => ?_, ?_⟩
    · cases h
    · simp [hstuck, requireNext, Except.map]
  | some next =>
    have hstuck : ¬ Stuck (utcCalendar zoned parseDate) cadence after now := by
      rw [← nextRunAfter_eq_none_iff hutc, hnext]
      simp
    rw [or_iff_right hstuck, ← isLeast_iff (isLeast_of_nextRunAfter hutc hnext)]
    constructor
    · intro h
      obtain ⟨record, found, hrecord, hfound, hleast⟩ := h.first _ rfl
      rw [← Option.some.inj hrecord, hwrite] at hfound
      rwa [Option.some.inj hfound]
    · intro hleast
      refine ⟨fun updated h => ?_, ?_⟩
      · exact ⟨write next, next, (Except.ok.inj h).symm, hwrite next, hleast⟩
      · simp [hstuck, requireNext, Except.map]

theorem finishRun_of_advances {runId : ℕ} {result : RunnerResult}
    (h : Advances calendar schedule runId result now) :
    finishRun calendar runId result false now schedule =
      (requireNext (nextRunAfter calendar schedule.cadence (schedule.nextRunAt.getD now) now)).map
        fun next => some { endedRecord schedule runId result now with nextRunAt := some next } := by
  have hstatus : (endedRecord schedule runId result now).status = .active := h.active
  have hcontinues := h.continues
  have hfinish : finishRun calendar runId result false now schedule =
      if result.targetGone then .ok (some (completeSchedule (endedRecord schedule runId result now) now))
      else if (endedRecord schedule runId result now).status = .completed then
        .ok (some (endedRecord schedule runId result now))
      else if false = true then .ok (some (endedRecord schedule runId result now))
      else if shouldCompleteSchedule calendar (endedRecord schedule runId result now) now then
        .ok (some (completeSchedule (endedRecord schedule runId result now) now))
      else if (endedRecord schedule runId result now).status = .paused then
        .ok (some { endedRecord schedule runId result now with nextRunAt := none })
      else
        (requireNext (nextRunAfter calendar schedule.cadence (schedule.nextRunAt.getD now) now)).map
          fun next => some { endedRecord schedule runId result now with nextRunAt := some next } :=
    rfl
  simp [hfinish, h.targetGone, hstatus, hcontinues]

theorem resumeUpdate_of_paused {id : String} (h : schedule.status = .paused) :
    resumeUpdate calendar id now schedule =
      (requireNext (computeNextRunAt calendar schedule.cadence now)).map fun next => some
        { schedule with
          status := .active
          pausedAt := none
          nextRunAt := some next
          updatedAt := now } := by
  rw [resumeUpdate, h]

theorem recoverInterruptedSchedule_of_due {nextRunAt : ℕ} (hactive : schedule.status = .active)
    (hnext : schedule.nextRunAt = some nextRunAt) (hdue : nextRunAt ≤ now) :
    recoverInterruptedSchedule calendar now schedule =
      (requireNext (nextRunAfter calendar schedule.cadence nextRunAt now)).map fun next => some
        { schedule with
          runs := failFirstRunning now schedule.runs
          nextRunAt := some next
          updatedAt := now } := by
  have hfilter : schedule.nextRunAt.filter (fun nextRunAt =>
      schedule.status = .active ∧ nextRunAt ≤ now) = some nextRunAt := by
    simp [hactive, hnext, hdue]
  simp only [recoverInterruptedSchedule, hfilter]

/-- The next run is the first time after an instant, except in years of two digits; and a schedule
comes to the first time later than now behind a restart, and behind a run unless a time that lies
between now and its next run is left out. -/
theorem nextRun_isFirst_iff (reader : ZonedReader) (zoned : String → String → Option (ℕ → Bool))
    (parseDate : String → Option ℕ) :
    (∀ expression cron after, parseCronExpression expression = .ok cron → IsDate after →
      (Cron.FindsFirstRun reader expression cron after ↔
        ¬ Cron.TwoDigitYear after ∨
          ¬ Cron.RunsWithin cron after ∧ ¬ Cron.RunsFrom cron (Cron.searchStart after))) ∧
    (∀ (schedule : StoredSchedule γ) runId result now, schedule.cadence.IsUtc →
      Advances (utcCalendar zoned parseDate) schedule runId result now →
      (CatchesUp (utcCalendar zoned parseDate) schedule.cadence (schedule.nextRunAt.getD now) now
          (finishRun (utcCalendar zoned parseDate) runId result false now schedule) ↔
        Stuck (utcCalendar zoned parseDate) schedule.cadence (schedule.nextRunAt.getD now) now ∨
          ∀ time ∈ cadencePoints (schedule.nextRunAt.getD now) schedule.cadence,
            now < time → schedule.nextRunAt.getD now < time)) ∧
    (∀ (schedule : StoredSchedule γ) nextRunAt now, schedule.cadence.IsUtc →
      schedule.status = .active → schedule.nextRunAt = some nextRunAt → nextRunAt ≤ now →
      CatchesUp (utcCalendar zoned parseDate) schedule.cadence nextRunAt now
        (recoverInterruptedSchedule (utcCalendar zoned parseDate) now schedule)) := by
  refine ⟨?_, ?_, ?_⟩
  · intro expression cron after hcron hdate
    exact Cron.findsFirstRun_iff hcron hdate
  · intro schedule runId result now hutc hadvances
    rw [finishRun_of_advances hadvances]
    exact catchesUp_iff hutc _ fun _ => rfl
  · intro schedule nextRunAt now hutc hactive hnext hdue
    rw [recoverInterruptedSchedule_of_due hactive hnext hdue]
    refine (catchesUp_iff hutc _ fun _ => rfl).mpr (.inr ?_)
    intro time _ hlater
    omega

/-- Every minute. -/
def everyMinute : StoredSchedule Unit where
  id := "a"
  name := none
  prompt := "p"
  cadence := .cron "* * * * *" none
  target := .agent "agent"
  status := .active
  createdAt := 0
  updatedAt := 0
  nextRunAt := some 0
  lastRunAt := none
  pausedAt := none
  expiresAt := none
  maxRuns := none
  runs := []

def plainUtc : Calendar := utcCalendar (fun _ _ => none) fun _ => none

theorem everyMinute_catchesUp :
    CatchesUp plainUtc everyMinute.cadence 0 90000
      (finishRun plainUtc 1 (.returned none none) false 90000 everyMinute) := by
  have hadvances : Advances plainUtc everyMinute 1 (.returned none none) 90000 :=
    ⟨rfl, rfl, by decide +kernel⟩
  refine ((nextRun_isFirst_iff (fun _ => .error "") (fun _ _ => none) fun _ => none).2.1 everyMinute
    1 (.returned none none) 90000 rfl hadvances).mpr (.inr ?_)
  intro time _ hlater
  exact (by omega : 0 < time)

theorem exists_runsAt {expression : String} {time : ℤ}
    (h : (parseCronExpression expression).toOption.any (fun cron => decide (cron.RunsAt time)) = true) :
    ∃ cron, parseCronExpression expression = .ok cron ∧ cron.RunsAt time := by
  cases hcron : parseCronExpression expression with
  | error error =>
    rw [hcron] at h
    cases h
  | ok cron =>
    rw [hcron] at h
    exact ⟨cron, rfl, of_decide_eq_true h⟩

/-- A schedule is paused and resumed while its run is on, and the next run that it is given then
is left out. The other instant is the beginning of the year 50. -/
theorem resumed_misses_run :
    (¬ ∀ (paused resumed : StoredSchedule Unit) resumedAt runId result now,
      resumeUpdate plainUtc paused.id resumedAt paused = .ok (some resumed) → resumedAt ≤ now →
      Advances plainUtc resumed runId result now →
      CatchesUp plainUtc resumed.cadence (resumed.nextRunAt.getD now) now
        (finishRun plainUtc runId result false now resumed)) ∧
    ¬ ∀ expression cron after, parseCronExpression expression = .ok cron → IsDate after →
      Cron.FindsFirstRun (fun _ => .error "") expression cron after := by
  constructor
  · intro hall
    let paused : StoredSchedule Unit := { everyMinute with status := .paused, nextRunAt := none }
    let resumed : StoredSchedule Unit :=
      { everyMinute with nextRunAt := some 60000, updatedAt := 30000 }
    have hnext : computeNextRunAt plainUtc paused.cadence 30000 = some 60000 := by decide +kernel
    have hresumed : resumeUpdate plainUtc paused.id 30000 paused = .ok (some resumed) := by
      rw [resumeUpdate_of_paused rfl, hnext]
      rfl
    have hadvances : Advances plainUtc resumed 1 (.returned none none) 40000 :=
      ⟨rfl, rfl, by decide +kernel⟩
    have hlater : nextRunAfter plainUtc resumed.cadence 60000 40000 = some 120000 := by
      decide +kernel
    have hfinish : finishRun plainUtc 1 (.returned none none) false 40000 resumed =
        .ok (some { endedRecord resumed 1 (.returned none none) 40000 with
          nextRunAt := some 120000 }) := by
      rw [finishRun_of_advances hadvances]
      show (requireNext (nextRunAfter plainUtc resumed.cadence 60000 40000)).map _ = _
      rw [hlater]
      rfl
    have hcatches := hall paused resumed 30000 1 (.returned none none) 40000 hresumed (by omega)
      hadvances
    obtain ⟨record, next, hrecord, hrecordNext, hleast⟩ := hcatches.first _ hfinish
    rw [← Option.some.inj hrecord] at hrecordNext
    have hminute : (60000 : ℕ) ∈ cadencePoints 60000 resumed.cadence :=
      by
      have hruns : ∃ cron, parseCronExpression "* * * * *" = .ok cron ∧ cron.RunsAt 60000 :=
        exists_runsAt (by decide +kernel)
      exact hruns
    have hle : next ≤ 60000 := hleast.2 ⟨hminute, by omega⟩
    have hfound : 120000 = next := Option.some.inj hrecordNext
    omega
  · intro hall
    obtain ⟨cron, hcron, hruns⟩ : ∃ cron, parseCronExpression "* * * * *" = .ok cron ∧
        cron.RunsAt (-60589295940000) := exists_runsAt (by decide +kernel)
    have hfinds := hall "* * * * *" cron (-60589296000000) hcron (by decide)
    rcases (Cron.findsFirstRun_iff hcron (by decide)).mp hfinds with hyear | ⟨hwithin, -⟩
    · exact hyear (by decide +kernel)
    · exact hwithin ⟨-60589295940000, by omega, by unfold searchHorizon; omega, hruns⟩

end Orqara.Schedule
