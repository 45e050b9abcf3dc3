import Orqara.Schedule.RunsInProgress

/-!
# Due runs

A tick goes by the records that it has read, and `runSchedule` does not look at the stored one
again, as `completeScheduleIfDue` does. A schedule runs once per occurrence as long as no record
is stale when the run of a tick writes to it, and every outcome is stored.
-/

namespace Orqara.Schedule

open List Option

variable {γ : Type} {calendar : Calendar}

/-- A record after a run has been finished is due as before, or later than now. -/
theorem due_of_finishRun {runId now m : ℕ} {result : RunnerResult} {manual : Bool}
    {current next : StoredSchedule γ}
    (h : finishRun calendar runId result manual now current = .ok (some next))
    (hactive : next.status = .active) (hm : next.nextRunAt = some m) :
    manual = true ∧ current.status = .active ∧ current.nextRunAt = some m ∨ now < m := by
  unfold finishRun at h
  simp only at h
  split_ifs at h with hgone hcompleted hmanual hcomplete hpaused
  · injection h with h
    injection h with h
    subst h
    cases hactive
  · injection h with h
    injection h with h
    subst h
    exact absurd (hcompleted.symm.trans hactive) nofun
  · injection h with h
    injection h with h
    subst h
    exact .inl ⟨hmanual, hactive, hm⟩
  · injection h with h
    injection h with h
    subst h
    cases hactive
  · injection h with h
    injection h with h
    subst h
    cases hm
  · obtain ⟨n, hn, hnext⟩ := map_eq_ok.mp h
    injection hnext with hnext
    subst hnext
    rw [← some.inj hm]
    exact .inr (lt_of_nextRunAfter (requireNext_eq_ok hn))

namespace ScheduleService

variable {s s' : ScheduleService γ} {event : ServiceEvent γ} {run : ActiveRun}

/-! ## Conditions -/

/-- The record of a run, if it is still stored, is as the tick has read it. -/
def AsRead (s : ScheduleService γ) (run : ActiveRun) : Prop :=
  ∀ stored, s.schedules.get run.scheduleId = some stored →
    stored.status = .active ∧ stored.nextRunAt = some run.scheduledFor

/-- The failure of a run can be stored where its occurrence is still the next one. -/
def FailureStored (calendar : Calendar) (s : ScheduleService γ) (run : ActiveRun)
    (result : RunnerResult) (written : Bool) : Prop :=
  ∀ stored, s.schedules.get run.scheduleId = some stored → stored.status = .active →
    stored.nextRunAt = some run.scheduledFor →
    written = true ∧ Finishable calendar run.id result run.manual s.clock stored

/-- A step of a run that a tick has started finds the schedule undisturbed. -/
def Undisturbed (calendar : Calendar) (s : ScheduleService γ) : ServiceEvent γ → Prop
  | .append runId _ =>
    ∀ run, s.findRun runId = some run → run.stage = .appending → run.manual = false → s.AsRead run
  | .finish runId written =>
    ∀ run error targetGone, s.findRun runId = some run → run.manual = false →
      run.stage = .finishing (.threw error targetGone) →
      s.FailureStored calendar run (.threw error targetGone) written
  | _ => True

def UndisturbedRun (calendar : Calendar) (s : ScheduleService γ) : List (ServiceEvent γ) → Prop
  | [] => True
  | event :: events =>
    s.Undisturbed calendar event ∧
      ∀ s', s.step calendar event = some s' → UndisturbedRun calendar s' events

/-! ## Once per occurrence -/

/-- The runs that ticks have started. -/
def tickStarts (s : ScheduleService γ) : List (RunStart γ) :=
  s.starts.filter fun start => start.manual = false

structure OncePerOccurrence (s : ScheduleService γ) : Prop where
  /-- a tick-started run began on a schedule that was stored, active and due -/
  due : ∀ start ∈ s.tickStarts, start.stored.status = .active ∧
    ∃ nextRunAt, start.stored.nextRunAt = some nextRunAt ∧ nextRunAt ≤ start.clock
  /-- the runs in progress are of different schedules -/
  alone : (s.runs.map ActiveRun.scheduleId).Nodup
  once : (s.tickStarts.map fun start => (start.scheduleId, start.scheduledFor)).Nodup

/-- The run of an occurrence is recorded and not over. -/
def Underway (s : ScheduleService γ) (scheduleId : String) (scheduledFor : ℕ) : Prop :=
  ∃ run ∈ s.runs, run.scheduleId = scheduleId ∧ run.manual = false ∧
    run.scheduledFor = scheduledFor ∧ run.stage ≠ .appending

/-- An active schedule runs next after an occurrence, unless the run of it is underway. -/
def Passed (s : ScheduleService γ) (scheduleId : String) (scheduledFor : ℕ) : Prop :=
  ∀ stored, s.schedules.get scheduleId = some stored → stored.status = .active →
    ∀ n, stored.nextRunAt = some n →
      scheduledFor < n ∨ n = scheduledFor ∧ s.Underway scheduleId scheduledFor

structure DueInv (s : ScheduleService γ) : Prop where
  runs : RunsInv s
  due : ∀ start ∈ s.tickStarts, start.stored.status = .active ∧
    ∃ nextRunAt, start.stored.nextRunAt = some nextRunAt ∧ nextRunAt ≤ start.clock
  once : (s.tickStarts.map fun start => (start.scheduleId, start.scheduledFor)).Nodup
  begun : ∀ start ∈ s.tickStarts, start.scheduledFor ≤ s.clock
  passed : ∀ start ∈ s.tickStarts, s.Passed start.scheduleId start.scheduledFor

theorem dueInv_idle (schedules : OrderedMap String (StoredSchedule γ)) (clock nextId : ℕ) :
    DueInv (idle schedules clock nextId) := by
  have hnone : (idle schedules clock nextId).tickStarts = [] := rfl
  constructor
  · exact runsInv_idle schedules clock nextId
  all_goals
    rw [hnone]
    simp

theorem DueInv.oncePerOccurrence (h : DueInv s) : s.OncePerOccurrence :=
  ⟨h.due, h.runs.schedules, h.once⟩

/-! ## Steps -/

variable {scheduleId : String} {scheduledFor : ℕ}

section

variable (h : s.Underway scheduleId scheduledFor)
include h

theorem Underway.of_runs (hruns : ∀ run ∈ s.runs, run ∈ s'.runs) : s'.Underway scheduleId scheduledFor := by
  obtain ⟨run, hrun, hunderway⟩ := h
  exact ⟨run, hruns run hrun, hunderway⟩

/-- The runs of other schedules are left when a run is over. -/
theorem Underway.filter (hinv : RunsInv s) (hrun : run ∈ s.runs)
    (hne : run.scheduleId ≠ scheduleId ∨ run.stage = .appending)
    (hruns : s'.runs = s.runs.filter fun other => other.id ≠ run.id) :
    s'.Underway scheduleId scheduledFor := by
  obtain ⟨other, hother, hschedule, hmanual, hfor, hstage⟩ := h
  refine ⟨other, ?_, hschedule, hmanual, hfor, hstage⟩
  rw [hruns]
  refine mem_filter.mpr ⟨hother, decide_eq_true ?_⟩
  intro hid
  rw [hinv.eq_of_id hrun hother hid] at hschedule hstage
  rcases hne with hne | happending
  · exact hne hschedule
  · exact hstage happending

/-- A run that is underway stays so in its next stage. -/
theorem Underway.setRun {runId : ℕ} {stage : RunStage} (hstage : stage ≠ .appending)
    (hruns : s'.runs = (s.setRun runId stage).runs) :
    s'.Underway scheduleId scheduledFor := by
  obtain ⟨run, hrun, hschedule, hmanual, hfor, hold⟩ := h
  refine ⟨if run.id = runId then { run with stage } else run, ?_, ?_⟩
  · rw [hruns]
    exact List.mem_map.mpr ⟨run, hrun, rfl⟩
  · by_cases hid : run.id = runId
    · rw [if_pos hid]
      exact ⟨hschedule, hmanual, hfor, hstage⟩
    · rw [if_neg hid]
      exact ⟨hschedule, hmanual, hfor, hold⟩

end

/-- The store of the schedule is as before. -/
theorem Passed.of_get (h : s.Passed scheduleId scheduledFor)
    (hget : ∀ stored, s'.schedules.get scheduleId = some stored →
      s.schedules.get scheduleId = some stored)
    (hunderway : s.Underway scheduleId scheduledFor → s'.Underway scheduleId scheduledFor) :
    s'.Passed scheduleId scheduledFor := by
  intro stored hstored hactive n hn
  rcases h stored (hget stored hstored) hactive n hn with hlater | ⟨hsame, hrun⟩
  · exact .inl hlater
  · exact .inr ⟨hsame, hunderway hrun⟩

/-- A record that is set is due as the one before it, or later than now. -/
theorem Passed.set (h : s.Passed scheduleId scheduledFor) (hbegun : scheduledFor ≤ s.clock)
    {id : String} {current next : StoredSchedule γ} (hget : s.schedules.get id = some current)
    (hset : s'.schedules = s.schedules.set id next)
    (hdue : ∀ n, next.status = .active → next.nextRunAt = some n →
      current.status = .active ∧ current.nextRunAt = some n ∨ s.clock < n)
    (hunderway : s.Underway scheduleId scheduledFor → s'.Underway scheduleId scheduledFor) :
    s'.Passed scheduleId scheduledFor := by
  by_cases hid : scheduleId = id
  · subst hid
    intro stored hstored hactive n hn
    rw [hset, OrderedMap.get_set_self] at hstored
    rw [← some.inj hstored] at hactive hn
    rcases hdue n hactive hn with ⟨hcurrent, hsame⟩ | hlater
    · rcases h current hget hcurrent n hsame with hlater | ⟨heq, hrun⟩
      · exact .inl hlater
      · exact .inr ⟨heq, hunderway hrun⟩
    · exact .inl (hbegun.trans_lt hlater)
  · apply h.of_get _ hunderway
    intro stored hstored
    rw [hset, OrderedMap.get_set_ne hid] at hstored
    exact hstored

namespace DueInv

/-- Steps that start no run. -/
theorem of_starts (h : DueInv s) (hruns : RunsInv s') (hstarts : s'.starts = s.starts)
    (hclock : s.clock ≤ s'.clock)
    (hpassed : ∀ start ∈ s.tickStarts, s.Passed start.scheduleId start.scheduledFor →
      s'.Passed start.scheduleId start.scheduledFor) : DueInv s' := by
  have hsame : s'.tickStarts = s.tickStarts := by
    unfold tickStarts
    rw [hstarts]
  exact
    { runs := hruns
      due := by
        rw [hsame]
        exact h.due
      once := by
        rw [hsame]
        exact h.once
      begun := by
        rw [hsame]
        exact fun start hstart => (h.begun start hstart).trans hclock
      passed := by
        rw [hsame]
        exact fun start hstart => hpassed start hstart (h.passed start hstart) }

/-- An occurrence that has been started is not the next one while its run is not recorded. -/
theorem ne_of_appending (h : DueInv s) (hrun : run ∈ s.runs) (happending : run.stage = .appending)
    {stored : StoredSchedule γ} (hget : s.schedules.get run.scheduleId = some stored)
    (hactive : stored.status = .active) {n : ℕ} (hn : stored.nextRunAt = some n) :
    ∀ start ∈ s.tickStarts, (start.scheduleId, start.scheduledFor) ≠ (run.scheduleId, n) := by
  intro start hstart heq
  injection heq with hid hfor
  have hpassed := h.passed start hstart
  rw [hid, hfor] at hpassed
  rcases hpassed stored hget hactive n hn with hlt | ⟨-, other, hother, hschedule, -, -, hstage⟩
  · exact lt_irrefl n hlt
  · rw [h.runs.eq_of_scheduleId hrun hother hschedule] at hstage
    exact hstage happending

theorem appended (h : DueInv s) {current : StoredSchedule γ} (hfound : s.findRun run.id = some run)
    (hstage : run.stage = .appending) (hget : s.schedules.get run.scheduleId = some current)
    (hread : run.manual = false → s.AsRead run)
    (hschedules : s'.schedules = s.schedules.set run.scheduleId
      { current with updatedAt := run.startedAt, runs := current.runs ++ [runningRecord run] })
    (hruns : s'.runs = (s.setRun run.id .executing).runs) (hclock : s'.clock = s.clock)
    (hstarts : s'.starts = s.starts ++
      [{ scheduleId := run.scheduleId
         manual := run.manual
         scheduledFor := run.scheduledFor
         clock := s.clock
         stored := current }])
    (hinv : RunsInv s') : DueInv s' := by
  have hrun := (findRun_eq_some hfound).1
  have hpassed : ∀ start ∈ s.tickStarts, s'.Passed start.scheduleId start.scheduledFor := by
    intro start hstart
    apply (h.passed start hstart).set (h.begun start hstart) hget hschedules
    · exact fun n hactive hn => .inl ⟨hactive, hn⟩
    · exact fun hunderway => hunderway.setRun (by decide) hruns
  cases hmanual : run.manual with
  | true =>
    have hsame : s'.tickStarts = s.tickStarts := by
      unfold tickStarts
      rw [hstarts, filter_append, hmanual]
      exact append_nil _
    exact
      { runs := hinv
        due := by
          rw [hsame]
          exact h.due
        once := by
          rw [hsame]
          exact h.once
        begun := by
          rw [hsame, hclock]
          exact h.begun
        passed := by
          rw [hsame]
          exact hpassed }
  | false =>
    obtain ⟨hactive, hnext⟩ := hread hmanual current hget
    have hbegun := h.runs.due run hrun hmanual
    have hmore : s'.tickStarts = s.tickStarts ++ [⟨run.scheduleId, false, run.scheduledFor, s.clock,
        current⟩] := by
      unfold tickStarts
      rw [hstarts, filter_append, hmanual]
      rfl
    refine ⟨hinv, ?_, ?_, ?_, ?_⟩
    · intro start hstart
      rw [hmore] at hstart
      rcases mem_append.mp hstart with hold | hnew
      · exact h.due start hold
      · rw [mem_singleton.mp hnew]
        exact ⟨hactive, run.scheduledFor, hnext, hbegun⟩
    · rw [hmore, map_append]
      apply nodup_append.mpr ⟨h.once, nodup_singleton _, ?_⟩
      intro key hkey key' hkey' heq
      obtain ⟨start, hstart, rfl⟩ := List.mem_map.mp hkey
      rw [mem_singleton.mp hkey'] at heq
      exact h.ne_of_appending hrun hstage hget hactive hnext start hstart heq
    · intro start hstart
      rw [hmore] at hstart
      rw [hclock]
      rcases mem_append.mp hstart with hold | hnew
      · exact h.begun start hold
      · rw [mem_singleton.mp hnew]
        exact hbegun
    · intro start hstart
      rw [hmore] at hstart
      rcases mem_append.mp hstart with hold | hnew
      · exact hpassed start hold
      · rw [mem_singleton.mp hnew]
        intro stored hstored _ n hn
        rw [hschedules, OrderedMap.get_set_self] at hstored
        rw [← some.inj hstored, hnext] at hn
        refine .inr ⟨(some.inj hn).symm, { run with stage := .executing }, ?_, rfl, hmanual,
          rfl, nofun⟩
        rw [hruns]
        exact List.mem_map.mpr ⟨run, hrun, if_pos rfl⟩

/-- A step that finds the schedule undisturbed. -/
theorem effect (h : DueInv s) (hundisturbed : s.Undisturbed calendar event)
    (heffect : Effect calendar s event s') : DueInv s' := by
  have hinv := h.runs.effect heffect
  have hclock := clock_le heffect
  cases heffect with
  | quiet ticks calls clock nextId hticks hclock' hnextId =>
    exact h.of_starts hinv rfl hclock fun start _ hpassed =>
      hpassed.of_get (fun _ hstored => hstored) fun hunderway => hunderway.of_runs fun _ => id
  | edited ticks hticks hget hedit =>
    apply h.of_starts hinv rfl hclock
    intro start hstart hpassed
    apply hpassed.set (h.begun start hstart) hget rfl
    · exact fun n hactive hn => hedit.due hactive n hn
    · exact fun hunderway => hunderway.of_runs fun _ => id
  | deleted id =>
    apply h.of_starts hinv rfl hclock
    intro start _ hpassed
    apply hpassed.of_get
    · intro stored hstored
      by_cases hid : start.scheduleId = id
      · rw [hid, OrderedMap.get_delete_self] at hstored
        cases hstored
      · rw [OrderedMap.get_delete_ne hid] at hstored
        exact hstored
    · exact fun hunderway => hunderway.of_runs fun _ hrun => hrun
  | started ticks calls hticks hfree hstarted hdue =>
    exact h.of_starts hinv rfl hclock fun start _ hpassed =>
      hpassed.of_get (fun _ hstored => hstored) fun hunderway =>
        hunderway.of_runs fun _ hrun => mem_append_left _ hrun
  | @appended run written current hevent hfound hstage hget =>
    subst hevent
    exact h.appended hfound hstage hget (hundisturbed run hfound hstage) rfl rfl rfl rfl hinv
  | appendRejected ticks hticks hevent hfound hstage hfails =>
    exact h.of_starts hinv rfl hclock fun start _ hpassed =>
      hpassed.of_get (fun _ hstored => hstored) fun hunderway =>
        hunderway.filter h.runs (findRun_eq_some hfound).1 (.inr hstage) rfl
  | staged hfound hstage hnew =>
    exact h.of_starts hinv rfl hclock fun start _ hpassed =>
      hpassed.of_get (fun _ hstored => hstored) fun hunderway => hunderway.setRun hnew rfl
  | @finished ticks run result current next hticks hfound hstage hget hfinish =>
    apply h.of_starts hinv rfl hclock
    intro start hstart hpassed
    have hrun := (findRun_eq_some hfound).1
    by_cases hid : run.scheduleId = start.scheduleId
    · intro stored hstored hactive n hn
      rw [← hid, OrderedMap.get_set_self] at hstored
      rw [← some.inj hstored] at hactive hn
      rcases due_of_finishRun hfinish hactive hn with ⟨hmanual, hcurrent, hsame⟩ | hlater
      · rw [hid] at hget
        rcases hpassed current hget hcurrent n hsame with
          hlater | ⟨-, other, hother, hschedule, hticked, -⟩
        · exact .inl hlater
        · rw [h.runs.eq_of_scheduleId hrun hother (hschedule.trans hid.symm), hmanual] at hticked
          cases hticked
      · exact .inl ((h.begun start hstart).trans_lt hlater)
    · apply hpassed.of_get
      · intro stored hstored
        rw [OrderedMap.get_set_ne fun heq => hid heq.symm] at hstored
        exact hstored
      · exact fun hunderway => hunderway.filter h.runs hrun (.inl hid) rfl
  | @finishRejected ticks run written error targetGone hticks hevent hfound hstage hfails =>
    apply h.of_starts hinv rfl hclock
    intro start hstart hpassed
    have hrun := (findRun_eq_some hfound).1
    by_cases hid : run.scheduleId = start.scheduleId
    · intro stored hstored hactive n hn
      rcases hpassed stored hstored hactive n hn with
        hlater | ⟨hsame, other, hother, hschedule, hticked, hfor, -⟩
      · exact .inl hlater
      · -- the occurrence is the next one, so that its failure is stored
        rw [h.runs.eq_of_scheduleId hrun hother (hschedule.trans hid.symm)] at hticked hfor
        subst hevent
        rw [← hid] at hstored
        obtain ⟨hwritten, hfinishable⟩ := hundisturbed run error targetGone hfound hticked hstage
          stored hstored hactive (by rw [hn, hsame, hfor])
        exact absurd (storeUpdate_finishRun hstored hwritten hfinishable).choose_spec (hfails _)
    · exact hpassed.of_get (fun _ hstored => hstored) fun hunderway =>
        hunderway.filter h.runs hrun (.inl hid) rfl

end DueInv

theorem notAhead_idle (schedules : OrderedMap String (StoredSchedule γ)) (clock nextId : ℕ) :
    NotAhead clock (idle schedules clock nextId).ticks :=
  nofun

theorem dueInv_run {events : List (ServiceEvent γ)} (h : DueInv s) (hticks : NotAhead s.clock s.ticks)
    (hundisturbed : s.UndisturbedRun calendar events) (hrun : s.run calendar events = some s') :
    DueInv s' := by
  induction events generalizing s with
  | nil =>
    rw [← some.inj hrun]
    exact h
  | cons event events ih =>
    obtain ⟨middle, hstep, hrest⟩ := bind_eq_some_iff.mp hrun
    have heffect := effect_step hticks hstep
    exact ih (h.effect hundisturbed.1 heffect) (notAhead_effect hticks heffect)
      (hundisturbed.2 middle hstep) hrest

/-- In every run whose steps find their schedules undisturbed. -/
theorem scheduleRuns_oncePerOccurrence (calendar : Calendar)
    (schedules : OrderedMap String (StoredSchedule γ)) (clock nextId : ℕ)
    (events : List (ServiceEvent γ)) (s : ScheduleService γ)
    (hundisturbed : (idle schedules clock nextId).UndisturbedRun calendar events)
    (hrun : (idle schedules clock nextId).run calendar events = some s) : s.OncePerOccurrence :=
  (dueInv_run (dueInv_idle schedules clock nextId) (notAhead_idle schedules clock nextId)
    hundisturbed hrun).oncePerOccurrence

/-! ## A stale record -/

/-- No cron expression and no date is valid. -/
def plainCalendar : Calendar where
  matchesMinute _ _ := none
  parseDate _ := none

def dueSchedule : StoredSchedule Unit where
  id := "a"
  name := none
  prompt := "p"
  cadence := .every 60000
  target := .agent "agent"
  status := .active
  createdAt := 0
  updatedAt := 0
  nextRunAt := some 0
  lastRunAt := none
  pausedAt := none
  expiresAt := none
  maxRuns := none
  runs := []

def dueSchedules : OrderedMap String (StoredSchedule Unit) := OrderedMap.empty.set "a" dueSchedule

/-- Two ticks read the schedule; the second comes to it when the run of the first is over. -/
def overlappingTicks : List (ServiceEvent Unit) :=
  [.tick, .readDirectory 0, .readFile 0 "a", .tick, .readDirectory 1, .readFile 1 "a",
    .scan 0, .append 2 true, .runnerEnds 2 (.returned none none), .finish 2 true,
    .scan 1, .append 3 true]

theorem overlappingTicks_run_twice :
    ¬ ∀ (schedules : OrderedMap String (StoredSchedule Unit)) (clock nextId : ℕ)
      (events : List (ServiceEvent Unit)) (s : ScheduleService Unit),
      (idle schedules clock nextId).run plainCalendar events = some s → s.OncePerOccurrence := by
  intro hall
  have hstarts : ((idle dueSchedules 0 0).run plainCalendar overlappingTicks).map (fun s =>
      s.tickStarts.map fun start => (start.scheduleId, start.scheduledFor)) =
      some [("a", 0), ("a", 0)] := by
    decide +kernel
  obtain ⟨s, hrun, hs⟩ := Option.map_eq_some_iff.mp hstarts
  have honce := (hall dueSchedules 0 0 overlappingTicks s hrun).once
  rw [hs] at honce
  exact absurd honce (by decide)

def oneTick : List (ServiceEvent Unit) :=
  [.tick, .readDirectory 0, .readFile 0 "a", .scan 0, .append 1 true]

theorem scheduleRuns_oncePerOccurrence_oneTick :
    ∃ s, (idle dueSchedules 0 0).run plainCalendar oneTick = some s ∧
      s.tickStarts.map (fun start => (start.scheduleId, start.scheduledFor)) = [("a", 0)] ∧
      s.OncePerOccurrence := by
  have hstarts : ((idle dueSchedules 0 0).run plainCalendar oneTick).map (fun s =>
      s.tickStarts.map fun start => (start.scheduleId, start.scheduledFor)) =
      some [("a", 0)] := by
    decide +kernel
  obtain ⟨s, hrun, hs⟩ := Option.map_eq_some_iff.mp hstarts
  refine ⟨s, hrun, hs, scheduleRuns_oncePerOccurrence plainCalendar dueSchedules 0 0 oneTick s
    ⟨trivial, fun s₁ h₁ => ⟨trivial, fun s₂ h₂ => ⟨trivial, fun s₃ h₃ => ⟨trivial, fun s₄ h₄ =>
      ⟨?_, fun _ _ => trivial⟩⟩⟩⟩⟩ hrun⟩
  -- the record that the run writes to is the one that the tick has read
  have hread : ((idle dueSchedules 0 0).run plainCalendar
      [.tick, .readDirectory 0, .readFile 0 "a", .scan 0]).all (fun s =>
        (s.findRun 1).all fun run => (s.schedules.get run.scheduleId).all fun stored =>
          stored.status = .active ∧ stored.nextRunAt = some run.scheduledFor) = true := by
    decide +kernel
  have hbefore : (idle dueSchedules 0 0).run plainCalendar
      [.tick, .readDirectory 0, .readFile 0 "a", .scan 0] = some s₄ := by
    simp only [ScheduleService.run, h₁, h₂, h₃, h₄, Option.bind_some]
  intro run hfound _ _ stored hstored
  rw [hbefore, Option.all_some, hfound, Option.all_some, hstored, Option.all_some] at hread
  exact of_decide_eq_true hread

end ScheduleService

end Orqara.Schedule
