import Mathlib

/-!
# Cadences

When a schedule runs next. Times are milliseconds since 1970. An interval leads to a later time
unless that is no date any more; a cron expression to the first minute that it matches within a
year, if there is one.
-/

namespace Orqara.Schedule

inductive ScheduleCadence
  | every (everyMs : ℕ+)
  | cron (expression : String) (timezone : Option String)

/-- What the service has from its cron and date libraries. -/
structure Calendar where
  /-- The minutes that an expression matches in a time zone, unless one of them is invalid. -/
  matchesMinute : String → Option String → Option (ℕ → Bool)
  /-- `new Date(text).getTime()`, nothing for an invalid date -/
  parseDate : String → Option ℕ

/-- The last time that a `Date` can have. -/
def lastDate : ℕ := 8640000000000000

def startOfNextMinute (date : ℕ) : ℕ := (date / 60000 + 1) * 60000

/-- The first of `count` minutes from `cursor` on that is matched. -/
def findMinute (isMatch : ℕ → Bool) : ℕ → ℕ → Option ℕ
  | 0, _ => none
  | count + 1, cursor =>
    if isMatch cursor then some cursor else findMinute isMatch count (cursor + 60000)

variable (calendar : Calendar)

/-- Nothing where the computation, or the text of its result, throws. -/
def computeNextRunAt (cadence : ScheduleCadence) (after : ℕ) : Option ℕ :=
  match cadence with
  | .every everyMs => if after + everyMs ≤ lastDate then some (after + everyMs) else none
  | .cron expression timezone =>
    (calendar.matchesMinute expression timezone).bind fun isMatch =>
      findMinute isMatch (366 * 24 * 60) (startOfNextMinute after)

/-- The next run from `after` on that is later than `now`. -/
def skipTo (cadence : ScheduleCadence) (now : ℕ) : ℕ → ℕ → Option ℕ
  | 0, _ => none
  | fuel + 1, after =>
    (computeNextRunAt calendar cadence after).bind fun nextRunAt =>
      if nextRunAt ≤ now then skipTo cadence now fuel nextRunAt else some nextRunAt

/-- The loop ends by itself, as every round comes to a later time. -/
def nextRunAfter (cadence : ScheduleCadence) (after now : ℕ) : Option ℕ :=
  skipTo calendar cadence now (now - after + 1) after

def validateScheduleCadence (cadence : ScheduleCadence) : Bool :=
  match cadence with
  | .every _ => true
  | .cron expression timezone => (calendar.matchesMinute expression timezone).isSome

/-- A cron expression without a time zone keeps the one that the schedule has. -/
def mergeScheduleCadenceTimezone (current next : ScheduleCadence) : ScheduleCadence :=
  match current, next with
  | .cron _ (some timezone), .cron expression none => .cron expression (some timezone)
  | _, _ => next

/-! ## Later times -/

variable {calendar} {cadence : ScheduleCadence} {after now next : ℕ}

theorem le_of_findMinute {isMatch : ℕ → Bool} {count cursor found : ℕ}
    (h : findMinute isMatch count cursor = some found) : cursor ≤ found := by
  induction count generalizing cursor with
  | zero => cases h
  | succ count ih =>
    rw [findMinute] at h
    split at h
    · rw [Option.some.inj h]
    · exact (Nat.le_add_right _ _).trans (ih h)

theorem lt_startOfNextMinute (date : ℕ) : date < startOfNextMinute date := by
  unfold startOfNextMinute
  omega

theorem lt_of_computeNextRunAt (h : computeNextRunAt calendar cadence after = some next) :
    after < next := by
  unfold computeNextRunAt at h
  cases cadence with
  | every everyMs =>
    simp only at h
    split at h
    · rw [← Option.some.inj h]
      exact Nat.lt_add_of_pos_right everyMs.pos
    · cases h
  | cron expression timezone =>
    obtain ⟨isMatch, -, hfound⟩ := Option.bind_eq_some_iff.mp h
    exact (lt_startOfNextMinute after).trans_le (le_of_findMinute hfound)

theorem lt_of_skipTo {fuel : ℕ} (h : skipTo calendar cadence now fuel after = some next) :
    now < next := by
  induction fuel generalizing after with
  | zero => cases h
  | succ fuel ih =>
    obtain ⟨nextRunAt, -, hrest⟩ := Option.bind_eq_some_iff.mp h
    split at hrest
    · exact ih hrest
    · rw [← Option.some.inj hrest]
      omega

theorem lt_of_nextRunAfter (h : nextRunAfter calendar cadence after now = some next) :
    now < next := lt_of_skipTo h

end Orqara.Schedule
