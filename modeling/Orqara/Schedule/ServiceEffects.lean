import Orqara.Library.Fallible
import Orqara.Schedule.ScheduleService

/-!
# What a step of the schedule service does

Every step leaves the store and the runs alone, edits or deletes one record, or takes one run a
step further. What holds in every state of a run is shown for these effects.
-/

namespace Orqara.Schedule

open List Option

variable {γ : Type} {calendar : Calendar} {result : RunnerResult}
  {schedules : OrderedMap String (StoredSchedule γ)} {runId : ℕ} {manual : Bool}

/-! ## Edits of a record -/

/-- A next run is set if and only if the schedule is active. -/
def Consistent (schedule : StoredSchedule γ) : Prop :=
  schedule.nextRunAt.isSome ↔ schedule.status = .active

/-- The runs of a record with their status. -/
def statuses (schedule : StoredSchedule γ) : List (ℕ × RunStatus) :=
  schedule.runs.map fun run => (run.id, run.status)

/-- What a command at the time `now` makes of a record. -/
structure Edit (now : ℕ) (current next : StoredSchedule γ) : Prop where
  runs : statuses next = statuses current
  /-- a next run is the one there was, or later than now -/
  due : next.status = .active → ∀ n, next.nextRunAt = some n →
    current.status = .active ∧ current.nextRunAt = some n ∨ now < n
  consistent : Consistent current → Consistent next
  completed : current.status = .completed → next.status = .completed

theorem consistent_completeSchedule (schedule : StoredSchedule γ) (now : ℕ) :
    Consistent (completeSchedule schedule now) := by
  simp [Consistent, completeSchedule]

theorem edit_completeSchedule (schedule : StoredSchedule γ) (now now' : ℕ) :
    Edit now schedule (completeSchedule schedule now') where
  runs := rfl
  due := fun hactive => by cases hactive
  consistent := fun _ => consistent_completeSchedule schedule now'
  completed := fun _ => rfl

/-- A record that keeps its state and its runs. -/
theorem edit_of_same {current next : StoredSchedule γ} {now : ℕ} (hruns : statuses next =
    statuses current) (hstatus : next.status = current.status)
    (hnext : next.nextRunAt = current.nextRunAt) : Edit now current next where
  runs := hruns
  due := fun hactive n hn => .inl ⟨hstatus.symm.trans hactive, hnext.symm.trans hn⟩
  consistent := fun h => by
    rw [Consistent, hnext, hstatus]
    exact h
  completed := fun h => hstatus.trans h

theorem Edit.trans {now : ℕ} {first second third : StoredSchedule γ} (h : Edit now first second)
    (h' : Edit now second third) : Edit now first third where
  runs := h'.runs.trans h.runs
  due := fun hactive n hn => by
    rcases h'.due hactive n hn with ⟨hsecond, hsame⟩ | hlater
    · exact h.due hsecond n hsame
    · exact .inr hlater
  consistent := fun hc => h'.consistent (h.consistent hc)
  completed := fun hc => h'.completed (h.completed hc)

variable {current next : StoredSchedule γ} {now : ℕ} {id : String}

theorem requireNext_eq_ok {value : Option ℕ} {n : ℕ} (h : requireNext value = .ok n) :
    value = some n := by
  cases value with
  | none => cases h
  | some m =>
    injection h with h
    rw [h]

theorem edit_pauseUpdate (h : pauseUpdate id now current = .ok (some next)) :
    Edit now current next := by
  unfold pauseUpdate at h
  split at h
  · cases h
  · injection h with h
    cases h
  · next hactive =>
    injection h with h
    injection h with h
    subst h
    exact
      { runs := rfl
        due := fun hpaused => by cases hpaused
        consistent := fun _ => by simp [Consistent]
        completed := fun hcompleted => by
          rw [hactive] at hcompleted
          cases hcompleted }

theorem edit_resumeUpdate (h : resumeUpdate calendar id now current = .ok (some next)) :
    Edit now current next := by
  unfold resumeUpdate at h
  split at h
  · cases h
  · injection h with h
    cases h
  · next hpaused =>
    obtain ⟨n, hn, hnext⟩ := map_eq_ok.mp h
    injection hnext with hnext
    subst hnext
    have hlater := lt_of_computeNextRunAt (requireNext_eq_ok hn)
    exact
      { runs := rfl
        due := fun _ m hm => .inr (by rw [← some.inj hm]; exact hlater)
        consistent := fun _ => by simp [Consistent]
        completed := fun hcompleted => by
          rw [hpaused] at hcompleted
          cases hcompleted }

theorem edit_updateCadence {cadence : ScheduleCadence}
    (h : updateCadence calendar cadence now current = .ok next) : Edit now current next := by
  unfold updateCadence at h
  simp only at h
  split at h
  · split at h
    · next hactive =>
      obtain ⟨n, hn, rfl⟩ := map_eq_ok.mp h
      have hlater := lt_of_computeNextRunAt (requireNext_eq_ok hn)
      exact
        { runs := rfl
          due := fun _ m hm => .inr (by rw [← some.inj hm]; exact hlater)
          consistent := fun _ => by simp [Consistent, hactive]
          completed := fun hcompleted => hcompleted }
    · next hinactive =>
      injection h with h
      subst h
      exact
        { runs := rfl
          due := fun hactive => absurd hactive hinactive
          consistent := fun _ => by
            simp only [Consistent, isSome_none, Bool.false_eq_true, false_iff]
            exact hinactive
          completed := fun hcompleted => hcompleted }
  · cases h

theorem edit_applyIf {α : Type} {value : Option α}
    {apply : α → StoredSchedule γ → Except String (StoredSchedule γ)}
    (happly : ∀ value current next, apply value current = .ok next → Edit now current next)
    (h : applyIf value apply current = .ok next) : Edit now current next := by
  unfold applyIf at h
  split at h
  · injection h with h
    rw [h]
    exact edit_of_same rfl rfl rfl
  · exact happly _ _ _ h

theorem edit_updateSchedule {input : UpdateScheduleInput γ}
    (h : updateSchedule calendar input now current = .ok (some next)) : Edit now current next := by
  obtain ⟨prompted, hprompt, h⟩ := bind_eq_ok.mp h
  obtain ⟨named, hname, h⟩ := bind_eq_ok.mp h
  obtain ⟨timed, hcadence, h⟩ := bind_eq_ok.mp h
  obtain ⟨configured, hconfig, h⟩ := bind_eq_ok.mp h
  obtain ⟨limited, hmaxRuns, h⟩ := bind_eq_ok.mp h
  obtain ⟨expiring, hexpires, h⟩ := bind_eq_ok.mp h
  injection h with h
  injection h with h
  have hprompt' : Edit now current prompted := by
    apply edit_applyIf _ hprompt
    intro value current next happly
    obtain ⟨prompt, -, rfl⟩ := map_eq_ok.mp happly
    exact edit_of_same rfl rfl rfl
  have hname' : Edit now prompted named := by
    apply edit_applyIf _ hname
    intro value current next happly
    injection happly with happly
    rw [← happly]
    exact edit_of_same rfl rfl rfl
  have hcadence' : Edit now named timed := by
    apply edit_applyIf _ hcadence
    intro value current next happly
    exact edit_updateCadence happly
  have hconfig' : Edit now timed configured := by
    apply edit_applyIf _ hconfig
    intro value current next happly
    unfold updateConfig at happly
    split at happly
    · cases happly
    · obtain ⟨config, -, rfl⟩ := map_eq_ok.mp happly
      exact edit_of_same rfl rfl rfl
  have hmaxRuns' : Edit now configured limited := by
    apply edit_applyIf _ hmaxRuns
    intro value current next happly
    obtain ⟨maxRuns, -, rfl⟩ := map_eq_ok.mp happly
    exact edit_of_same rfl rfl rfl
  have hexpires' : Edit now limited expiring := by
    apply edit_applyIf _ hexpires
    intro value current next happly
    injection happly with happly
    rw [← happly]
    exact edit_of_same rfl rfl rfl
  have hlast : Edit now expiring next := by
    rw [← h]
    exact edit_of_same rfl rfl rfl
  exact hprompt'.trans (hname'.trans (hcadence'.trans (hconfig'.trans (hmaxRuns'.trans
    (hexpires'.trans hlast)))))

theorem edit_completeForAgentUpdate {agentId : String} {calledAt : ℕ}
    (h : completeForAgentUpdate agentId calledAt current = .ok (some next)) :
    Edit now current next := by
  unfold completeForAgentUpdate at h
  split at h
  · split at h
    · injection h with h
      cases h
    · injection h with h
      injection h with h
      rw [← h]
      exact edit_completeSchedule current now calledAt
  · injection h with h
    cases h

theorem edit_completeIfDueUpdate {tickNow : ℕ}
    (h : completeIfDueUpdate calendar tickNow current = .ok (some next)) :
    Edit now current next := by
  unfold completeIfDueUpdate at h
  split at h
  · injection h with h
    cases h
  · injection h with h
    injection h with h
    rw [← h]
    exact edit_completeSchedule current now tickNow

theorem edit_recordRunWorkspace {workspaceId : String} {agentId : Option String} {recordedAt : ℕ}
    (h : recordRunWorkspace runId workspaceId agentId recordedAt current = .ok (some next)) :
    Edit now current next := by
  injection h with h
  injection h with h
  rw [← h]
  refine edit_of_same ?_ rfl rfl
  unfold statuses
  rw [List.map_map]
  apply map_congr_left
  intro run _
  show ((if run.id = runId ∧ run.status = .running then
      { run with workspaceId := some workspaceId, agentId } else run).id,
    (if run.id = runId ∧ run.status = .running then
      { run with workspaceId := some workspaceId, agentId } else run).status) = (run.id, run.status)
  split
  · rfl
  · rfl

/-- A run that is finished is always written. -/
theorem finishRun_ne_none :
    finishRun calendar runId result manual now current ≠ .ok none := by
  intro h
  unfold finishRun at h
  simp only at h
  split_ifs at h
  · injection h with h
    cases h
  · injection h with h
    cases h
  · injection h with h
    cases h
  · injection h with h
    cases h
  · injection h with h
    cases h
  · obtain ⟨n, -, hn⟩ := map_eq_ok.mp h
    cases hn

/-- A record with the outcome of one of its runs. -/
def recordOutcome (runId : ℕ) (result : RunnerResult) (now : ℕ) (schedule : StoredSchedule γ) :
    StoredSchedule γ :=
  { schedule with
    runs := schedule.runs.map fun run => if run.id = runId then run.finished result now else run
    lastRunAt := some now
    updatedAt := now }

/-- The next run is not needed after the run, or can be computed. -/
def Finishable (calendar : Calendar) (runId : ℕ) (result : RunnerResult) (manual : Bool) (now : ℕ)
    (schedule : StoredSchedule γ) : Prop :=
  result.targetGone = true ∨ schedule.status ≠ .active ∨ manual = true ∨
    shouldCompleteSchedule calendar (recordOutcome runId result now schedule) now = true ∨
    (nextRunAfter calendar schedule.cadence (schedule.nextRunAt.getD now) now).isSome

theorem exists_finishRun (h : Finishable calendar runId result manual now current) :
    ∃ next, finishRun calendar runId result manual now current = .ok (some next) := by
  unfold finishRun
  simp only
  split_ifs with hgone hcompleted hmanual hcomplete hpaused
  · exact ⟨_, rfl⟩
  · exact ⟨_, rfl⟩
  · exact ⟨_, rfl⟩
  · exact ⟨_, rfl⟩
  · exact ⟨_, rfl⟩
  · have hactive : current.status = .active := by
      cases hstatus : current.status with
      | active => rfl
      | paused => exact absurd hstatus hpaused
      | completed => exact absurd hstatus hcompleted
    rcases h with hgone' | hinactive | hmanual' | hcomplete' | hnext
    · exact absurd hgone' hgone
    · exact absurd hactive hinactive
    · exact absurd hmanual' hmanual
    · exact absurd hcomplete' hcomplete
    · obtain ⟨n, hn⟩ := isSome_iff_exists.mp hnext
      rw [hn]
      exact ⟨_, rfl⟩

/-! ## Effects of a step -/

theorem require_eq_ok {answer : UpdateAnswer γ} (h : answer.require id = .ok schedules) :
    answer = .updated schedules := by
  cases answer with
  | missing => cases h
  | threw error => cases h
  | updated schedules' =>
    injection h with h
    rw [h]

/-- A successful update leaves the store alone, or sets one record. -/
theorem storeUpdate_eq_updated {schedules' : OrderedMap String (StoredSchedule γ)} {written : Bool}
    {updater : Updater γ} (h : storeUpdate schedules id written updater = .updated schedules') :
    (schedules' = schedules ∧ ∃ current, schedules.get id = some current ∧
        updater current = .ok none) ∨
      ∃ current next, schedules.get id = some current ∧
        updater current = .ok (some next) ∧ schedules' = schedules.set id next := by
  unfold storeUpdate at h
  split at h
  · cases h
  · next current hget =>
    split at h
    · cases h
    · next hnone =>
      injection h with h
      exact .inl ⟨h.symm, current, hget, hnone⟩
    · next next hnext =>
      split at h
      · injection h with h
        exact .inr ⟨current, next, hget, hnext, h.symm⟩
      · cases h

theorem storeUpdate_finishRun {written : Bool} (hget : schedules.get id = some current)
    (hwritten : written = true) (h : Finishable calendar runId result manual now current) :
    ∃ schedules', storeUpdate schedules id written (finishRun calendar runId result manual now) =
      .updated schedules' := by
  obtain ⟨next, hnext⟩ := exists_finishRun h
  refine ⟨schedules.set id next, ?_⟩
  rw [storeUpdate, hget]
  simp only [hnext, hwritten, if_true]

/-- The ticks have begun by then. -/
def NotAhead (clock : ℕ) (ticks : List (Tick γ)) : Prop := ∀ tick ∈ ticks, tick.now ≤ clock

/-- What a step of the service can do. -/
inductive Effect (calendar : Calendar) (s : ScheduleService γ) (event : ServiceEvent γ) :
    ScheduleService γ → Prop
  | quiet (ticks : List (Tick γ)) (calls : List (ℕ × StoredSchedule γ)) (clock nextId : ℕ)
    (hticks : NotAhead clock ticks) (hclock : s.clock ≤ clock) (hnextId : s.nextId ≤ nextId) :
    Effect calendar s event { s with ticks, calls, clock, nextId }
  | edited (ticks : List (Tick γ)) {id : String} {current next : StoredSchedule γ}
    (hticks : NotAhead s.clock ticks)
    (hget : s.schedules.get id = some current) (hedit : Edit s.clock current next) :
    Effect calendar s event { s with ticks, schedules := s.schedules.set id next }
  | deleted (id : String) :
    Effect calendar s event { s with schedules := s.schedules.delete id }
  | started (ticks : List (Tick γ)) (calls : List (ℕ × StoredSchedule γ)) {scheduleId : String}
    {manual : Bool} {scheduledFor startedAt : ℕ} (hticks : NotAhead s.clock ticks)
    (hfree : scheduleId ∉ s.runningScheduleIds) (hstarted : startedAt ≤ s.clock) (hdue : manual = false → scheduledFor ≤ startedAt) :
    Effect calendar s event
      (ScheduleService.startRun { s with ticks, calls } scheduleId manual scheduledFor startedAt)
  | appended {run : ActiveRun} {written : Bool} {current : StoredSchedule γ}
    (hevent : event = .append run.id written) (hfound : s.findRun run.id = some run)
    (hstage : run.stage = .appending) (hget : s.schedules.get run.scheduleId = some current) :
    Effect calendar s event
      { s.setRun run.id .executing with
        schedules := s.schedules.set run.scheduleId
          { current with
            updatedAt := run.startedAt
            runs := current.runs ++ [ScheduleService.runningRecord run] }
        starts := s.starts ++
          [{ scheduleId := run.scheduleId
             manual := run.manual
             scheduledFor := run.scheduledFor
             clock := s.clock
             stored := current }] }
  | appendRejected (ticks : List (Tick γ)) {run : ActiveRun} {written : Bool}
    (hticks : NotAhead s.clock ticks)
    (hevent : event = .append run.id written) (hfound : s.findRun run.id = some run)
    (hstage : run.stage = .appending)
    (hfails : written = false ∨ s.schedules.get run.scheduleId = none) :
    Effect calendar s event
      { s with ticks, runs := s.runs.filter fun other => other.id ≠ run.id }
  | staged {run : ActiveRun} {stage : RunStage} (hfound : s.findRun run.id = some run)
    (hstage : run.stage ≠ .appending) (hnew : stage ≠ .appending) :
    Effect calendar s event (s.setRun run.id stage)
  | finished (ticks : List (Tick γ)) {run : ActiveRun} {result : RunnerResult}
    {current next : StoredSchedule γ} (hticks : NotAhead s.clock ticks)
    (hfound : s.findRun run.id = some run) (hstage : run.stage = .finishing result)
    (hget : s.schedules.get run.scheduleId = some current)
    (hfinish : finishRun calendar run.id result run.manual s.clock current = .ok (some next)) :
    Effect calendar s event
      { s with
        ticks
        schedules := s.schedules.set run.scheduleId next
        runningScheduleIds := s.runningScheduleIds.filter (· ≠ run.scheduleId)
        runs := s.runs.filter fun other => other.id ≠ run.id }
  | finishRejected (ticks : List (Tick γ)) {run : ActiveRun} {written : Bool} {error : String}
    {targetGone : Bool} (hticks : NotAhead s.clock ticks) (hevent : event = .finish run.id written)
    (hfound : s.findRun run.id = some run)
    (hstage : run.stage = .finishing (.threw error targetGone))
    (hfails : ∀ schedules, storeUpdate s.schedules run.scheduleId written
      (finishRun calendar run.id (.threw error targetGone) run.manual s.clock) ≠
        .updated schedules) :
    Effect calendar s event
      { s with
        ticks
        runningScheduleIds := s.runningScheduleIds.filter (· ≠ run.scheduleId)
        runs := s.runs.filter fun other => other.id ≠ run.id }

namespace ScheduleService

variable {s s' : ScheduleService γ} {event : ServiceEvent γ} {tick : Tick γ} {run : ActiveRun}
  {written : Bool}

theorem findRun_eq_some {runId : ℕ} (h : s.findRun runId = some run) :
    run ∈ s.runs ∧ run.id = runId :=
  ⟨mem_of_find?_eq_some h, by simpa using find?_some h⟩

theorem quiet_of_ticks {ticks : List (Tick γ)} (hticks : NotAhead s.clock ticks) :
    Effect calendar s event { s with ticks } :=
  .quiet ticks s.calls s.clock s.nextId hticks (le_refl _) (le_refl _)

/-! ## Ticks -/

section

variable (h : NotAhead s.clock s.ticks) {rest : List (StoredSchedule γ)}
include h

theorem notAhead_setTick {tickId : ℕ} {stage : TickStage γ} :
    NotAhead s.clock (s.setTick tickId stage).ticks := by
  intro tick htick
  obtain ⟨other, hother, rfl⟩ := List.mem_map.mp htick
  by_cases hid : other.id = tickId
  · rw [if_pos hid]
    exact h other hother
  · rw [if_neg hid]
    exact h other hother

theorem notAhead_dropTick {tickId : ℕ} :
    NotAhead s.clock (s.dropTick tickId).ticks :=
  fun tick htick => h tick (mem_filter.mp htick).1

theorem notAhead_runResolves {runId : ℕ} :
    NotAhead s.clock (s.runResolves runId).ticks := by
  intro tick htick
  obtain ⟨other, hother, rfl⟩ := List.mem_map.mp htick
  split
  · split
    · exact h other hother
    · exact h other hother
  · exact h other hother

theorem notAhead_runRejects {runId : ℕ} :
    NotAhead s.clock (s.runRejects runId).ticks :=
  fun tick htick => h tick (mem_filter.mp htick).1

/-! ## Operations -/

theorem effect_command {updater : Updater γ}
    (hedit : ∀ current next, updater current = .ok (some next) → Edit s.clock current next) :
    Effect calendar s event (s.command id written updater) := by
  unfold command
  split
  · exact quiet_of_ticks h
  · next schedules hok =>
    rcases storeUpdate_eq_updated (require_eq_ok hok) with
      ⟨hsame, -⟩ | ⟨current, next, hget, hnext, hset⟩
    · rw [hsame]
      exact quiet_of_ticks h
    · rw [hset]
      exact .edited s.ticks h hget (hedit current next hnext)

theorem effect_scanNext {schedule : StoredSchedule γ} (htick : tick.now ≤ s.clock) :
    Effect calendar s event (s.scanNext calendar tick schedule rest) := by
  unfold scanNext
  split
  · exact quiet_of_ticks (notAhead_setTick h)
  · next nextRunAt _ =>
    split
    · exact quiet_of_ticks (notAhead_setTick h)
    · split
      · exact quiet_of_ticks (notAhead_setTick h)
      · next hfree =>
        split
        · exact quiet_of_ticks (notAhead_setTick h)
        · split
          · exact quiet_of_ticks (notAhead_setTick h)
          · next hdue =>
            exact .started _ s.calls (notAhead_setTick h) hfree htick fun _ => Nat.le_of_not_lt hdue

theorem effect_completeScheduleIfDue {scheduleId : String} :
    Effect calendar s event (s.completeScheduleIfDue calendar tick scheduleId rest written) := by
  unfold completeScheduleIfDue
  split
  · exact quiet_of_ticks (notAhead_dropTick h)
  · next schedules hok =>
    rcases storeUpdate_eq_updated (require_eq_ok hok) with
      ⟨hsame, -⟩ | ⟨current, next, hget, hnext, hset⟩
    · rw [hsame]
      exact quiet_of_ticks (notAhead_setTick h)
    · rw [hset]
      exact .edited _ (notAhead_setTick h) hget (edit_completeIfDueUpdate hnext)

theorem effect_stepTick (htick : tick.now ≤ s.clock) (hstep : s.stepTick calendar tick event = some s') :
    Effect calendar s event s' := by
  unfold stepTick at hstep
  split at hstep
  · split at hstep
    · rw [← some.inj hstep]
      exact quiet_of_ticks (notAhead_setTick h)
    · cases hstep
  · split at hstep
    · split at hstep
      · rw [← some.inj hstep]
        unfold readFile
        split
        · exact quiet_of_ticks (notAhead_dropTick h)
        · exact quiet_of_ticks (notAhead_setTick h)
      · cases hstep
    · cases hstep
  · split at hstep
    · rw [← some.inj hstep]
      exact quiet_of_ticks (notAhead_dropTick h)
    · rw [← some.inj hstep]
      exact effect_scanNext h htick
    · cases hstep
  · split at hstep
    · rw [← some.inj hstep]
      exact effect_completeScheduleIfDue h
    · cases hstep
  · cases hstep

theorem effect_append (hevent : event = .append run.id written) (hfound : s.findRun run.id = some run)
    (hstage : run.stage = .appending) :
    Effect calendar s event (s.append run written) := by
  unfold append
  cases hget : s.schedules.get run.scheduleId with
  | none => exact .appendRejected _ (notAhead_runRejects h) hevent hfound hstage (.inr hget)
  | some current =>
    simp only
    have hupdate : storeUpdate s.schedules run.scheduleId written
        (appendRunningRun (runningRecord run)) =
        if written then .updated (s.schedules.set run.scheduleId
          { current with
            updatedAt := run.startedAt
            runs := current.runs ++ [runningRecord run] }) else .threw "write failed" := by
      rw [storeUpdate, hget]
      rfl
    rw [hupdate]
    cases written with
    | true => exact .appended hevent hfound hstage hget
    | false => exact .appendRejected _ (notAhead_runRejects h) hevent hfound hstage (.inl rfl)

theorem effect_finish {result : RunnerResult} (hevent : event = .finish run.id written)
    (hfound : s.findRun run.id = some run) (hstage : run.stage = .finishing result) :
    Effect calendar s event (s.finish calendar run result written) := by
  unfold finish
  split
  · next error herror =>
    unfold finishFails
    cases result with
    | returned agentId output =>
      exact .staged hfound (by rw [hstage]; exact nofun) nofun
    | threw message targetGone =>
      apply Effect.finishRejected _ (notAhead_runRejects h) hevent hfound hstage
      intro schedules hupdated
      rw [hupdated] at herror
      cases herror
  · next schedules hok =>
    rcases storeUpdate_eq_updated (require_eq_ok hok) with
      ⟨-, current, -, hnone⟩ | ⟨current, next, hget, hnext, hset⟩
    · exact absurd hnone finishRun_ne_none
    · rw [hset]
      exact .finished _ (notAhead_runResolves h) hfound hstage hget hnext

theorem effect_stepRun (hfound : s.findRun run.id = some run)
    (hrunId : ∀ runId written, event = .append runId written ∨ event = .finish runId written →
      runId = run.id) (hstep : s.stepRun calendar run event = some s') : Effect calendar s event s' := by
  unfold stepRun at hstep
  split at hstep
  · next runId written =>
    split at hstep
    · next hstage =>
      rw [← some.inj hstep]
      have hid := hrunId runId written (.inl rfl)
      exact effect_append h (by rw [hid]) hfound hstage
    · cases hstep
  · split at hstep
    · rw [← some.inj hstep]
      exact effect_command h fun current next hnext => edit_recordRunWorkspace hnext
    · cases hstep
  · split at hstep
    · next hstage =>
      rw [← some.inj hstep]
      exact .staged hfound (by rw [hstage]; exact nofun) nofun
    · cases hstep
  · next runId written =>
    split at hstep
    · next result hstage =>
      rw [← some.inj hstep]
      have hid := hrunId runId written (.inr rfl)
      exact effect_finish h (by rw [hid]) hfound hstage
    · cases hstep
  · cases hstep

theorem effect_startRunOnce {call : ℕ × StoredSchedule γ} :
    Effect calendar s event (s.startRunOnce call) := by
  unfold startRunOnce
  simp only
  split
  · exact .quiet s.ticks _ s.clock s.nextId h (le_refl _) (le_refl _)
  · split
    · exact .quiet s.ticks _ s.clock s.nextId h (le_refl _) (le_refl _)
    · next hfree => exact .started s.ticks _ h hfree (le_refl _) nofun

/-- A step has one of the effects. -/
theorem effect_step (hstep : s.step calendar event = some s') :
    Effect calendar s event s' := by
  have htick : ∀ tickId tick, s.findTick tickId = some tick → tick.now ≤ s.clock :=
    fun _ tick hfound => h tick (mem_of_find?_eq_some hfound)
  have hrun : ∀ runId run, s.findRun runId = some run → s.findRun run.id = some run := by
    intro runId run hfound
    rw [(findRun_eq_some hfound).2]
    exact hfound
  cases event with
  | elapse ms =>
    rw [← some.inj hstep]
    exact .quiet s.ticks s.calls _ s.nextId (fun tick htick => (h tick htick).trans (Nat.le_add_right _ _))
      (Nat.le_add_right _ _) (le_refl _)
  | tick =>
    rw [← some.inj hstep]
    apply Effect.quiet _ s.calls s.clock _ _ (le_refl _) (Nat.le_succ _)
    intro tick htick
    rcases mem_append.mp htick with hold | hnew
    · exact h tick hold
    · rw [mem_singleton.mp hnew]
  | readDirectory tickId =>
    obtain ⟨tick, hfound, hstep⟩ := bind_eq_some_iff.mp hstep
    exact effect_stepTick h (htick tickId tick hfound) hstep
  | readFile tickId id =>
    obtain ⟨tick, hfound, hstep⟩ := bind_eq_some_iff.mp hstep
    exact effect_stepTick h (htick tickId tick hfound) hstep
  | scan tickId =>
    obtain ⟨tick, hfound, hstep⟩ := bind_eq_some_iff.mp hstep
    exact effect_stepTick h (htick tickId tick hfound) hstep
  | completeDue tickId written =>
    obtain ⟨tick, hfound, hstep⟩ := bind_eq_some_iff.mp hstep
    exact effect_stepTick h (htick tickId tick hfound) hstep
  | runOnce id =>
    rw [← some.inj hstep]
    cases s.schedules.get id with
    | none => exact quiet_of_ticks h
    | some schedule => exact .quiet s.ticks _ s.clock _ h (le_refl _) (Nat.le_succ _)
  | startRunOnce callId =>
    obtain ⟨call, -, rfl⟩ := map_eq_some_iff.mp hstep
    exact effect_startRunOnce h
  | append runId written =>
    obtain ⟨run, hfound, hstep⟩ := bind_eq_some_iff.mp hstep
    apply effect_stepRun h (hrun runId run hfound) _ hstep
    rintro other written' (heq | heq)
    · injection heq with heq
      rw [← heq]
      exact (findRun_eq_some hfound).2.symm
    · cases heq
  | recordWorkspace runId workspaceId agentId written =>
    obtain ⟨run, hfound, hstep⟩ := bind_eq_some_iff.mp hstep
    apply effect_stepRun h (hrun runId run hfound) _ hstep
    rintro other written' (heq | heq)
    · cases heq
    · cases heq
  | runnerEnds runId result =>
    obtain ⟨run, hfound, hstep⟩ := bind_eq_some_iff.mp hstep
    apply effect_stepRun h (hrun runId run hfound) _ hstep
    rintro other written' (heq | heq)
    · cases heq
    · cases heq
  | finish runId written =>
    obtain ⟨run, hfound, hstep⟩ := bind_eq_some_iff.mp hstep
    apply effect_stepRun h (hrun runId run hfound) _ hstep
    rintro other written' (heq | heq)
    · cases heq
    · injection heq with heq
      rw [← heq]
      exact (findRun_eq_some hfound).2.symm
  | pause id written =>
    rw [← some.inj hstep]
    exact effect_command h fun current next hnext => edit_pauseUpdate hnext
  | resume id written =>
    rw [← some.inj hstep]
    exact effect_command h fun current next hnext => edit_resumeUpdate hnext
  | update input written =>
    rw [← some.inj hstep]
    exact effect_command h fun current next hnext => edit_updateSchedule hnext
  | delete id removed =>
    rw [← some.inj hstep]
    cases removed with
    | true => exact .deleted id
    | false => exact quiet_of_ticks h
  | completeForAgent id agentId now written =>
    rw [← some.inj hstep]
    exact effect_command h fun current next hnext => edit_completeForAgentUpdate hnext

/-! ## The clock and the ticks -/

omit h in
theorem clock_le (heffect : Effect calendar s event s') : s.clock ≤ s'.clock := by
  cases heffect with
  | quiet ticks calls clock nextId hticks hclock hnextId => exact hclock
  | _ => exact le_refl _

theorem notAhead_effect (heffect : Effect calendar s event s') :
    NotAhead s'.clock s'.ticks := by
  cases heffect with
  | quiet ticks calls clock nextId hticks hclock hnextId => exact hticks
  | edited ticks hticks hget hedit => exact hticks
  | deleted id => exact h
  | started ticks calls hticks hfree hstarted hdue => exact hticks
  | appended hevent hfound hstage hget => exact h
  | appendRejected ticks hticks hevent hfound hstage hfails => exact hticks
  | staged hfound hstage hnew => exact h
  | finished ticks hticks hfound hstage hget hfinish => exact hticks
  | finishRejected ticks hticks hevent hfound hstage hfails => exact hticks

end

end ScheduleService

end Orqara.Schedule
