import Orqara.Library.JsString
import Orqara.Library.OrderedMap
import Orqara.Schedule.Cadence

/-!
# Stored schedules

The records of schedules, and what each operation of the service makes of one. The store applies
them one after the other; an updater that gives back the record it was given is not written.
-/

namespace Orqara.Schedule

inductive ScheduleStatus
  | active
  | paused
  | completed
  deriving DecidableEq

inductive RunStatus
  | running
  | succeeded
  | failed
  deriving DecidableEq

structure ScheduleRun where
  id : ℕ
  scheduledFor : ℕ
  startedAt : ℕ
  endedAt : Option ℕ
  status : RunStatus
  agentId : Option String
  workspaceId : Option String
  output : Option String
  error : Option String
  deriving DecidableEq

/-- An agent, or a new one with a configuration. -/
inductive ScheduleTarget (γ : Type)
  | agent (agentId : String)
  | newAgent (config : γ)

structure StoredSchedule (γ : Type) where
  id : String
  name : Option String
  prompt : String
  cadence : ScheduleCadence
  target : ScheduleTarget γ
  status : ScheduleStatus
  createdAt : ℕ
  updatedAt : ℕ
  nextRunAt : Option ℕ
  lastRunAt : Option ℕ
  pausedAt : Option ℕ
  expiresAt : Option String
  maxRuns : Option ℕ
  runs : List ScheduleRun

/-- What an updater makes of a record: nothing new, or another one; or it throws. -/
abbrev Updater (γ : Type) := StoredSchedule γ → Except String (Option (StoredSchedule γ))

variable {γ : Type} (calendar : Calendar)

/-! ## Checks -/

def countCompletedRuns (schedule : StoredSchedule γ) : ℕ :=
  (schedule.runs.filter fun run => run.status ≠ .running).length

def shouldCompleteSchedule (schedule : StoredSchedule γ) (now : ℕ) : Bool :=
  ((schedule.expiresAt.filter (· ≠ "")).bind calendar.parseDate).any (· ≤ now) ||
    schedule.maxRuns.any fun maxRuns => maxRuns ≤ countCompletedRuns schedule

def completeSchedule (schedule : StoredSchedule γ) (now : ℕ) : StoredSchedule γ :=
  { schedule with status := .completed, nextRunAt := none, pausedAt := none, updatedAt := now }

def normalizePrompt (prompt : String) : Except String String :=
  if trim prompt = "" then .error "Schedule prompt is required" else .ok (trim prompt)

def trimOptionalName (name : Option String) : Option String := name.bind trimNonEmpty

def normalizeMaxRuns (maxRuns : Option ℤ) : Except String (Option ℕ) :=
  match maxRuns with
  | none => .ok none
  | some value =>
    if value ≤ 0 then .error "maxRuns must be a positive integer" else .ok (some value.toNat)

/-- The text of the next run, or what computing it throws. -/
def requireNext (next : Option ℕ) : Except String ℕ :=
  match next with
  | none => .error "Unable to compute next run time"
  | some next => .ok next

/-! ## Commands -/

def pauseUpdate (id : String) (now : ℕ) : Updater γ := fun schedule =>
  match schedule.status with
  | .completed => .error ("Schedule " ++ id ++ " is already completed")
  | .paused => .ok none
  | .active =>
    .ok <| some
      { schedule with status := .paused, nextRunAt := none, pausedAt := some now, updatedAt := now }

def resumeUpdate (id : String) (now : ℕ) : Updater γ := fun schedule =>
  match schedule.status with
  | .completed => .error ("Schedule " ++ id ++ " is already completed")
  | .active => .ok none
  | .paused =>
    (requireNext (computeNextRunAt calendar schedule.cadence now)).map fun next => some
      { schedule with
        status := .active
        pausedAt := none
        nextRunAt := some next
        updatedAt := now }

structure UpdateScheduleInput (γ : Type) where
  id : String
  prompt : Option String
  name : Option (Option String)
  cadence : Option ScheduleCadence
  /-- a patch of the configuration, which may throw -/
  newAgentConfig : Option (γ → Except String γ)
  maxRuns : Option (Option ℤ)
  expiresAt : Option (Option String)

def updateCadence (cadence : ScheduleCadence) (now : ℕ) (schedule : StoredSchedule γ) :
    Except String (StoredSchedule γ) :=
  let cadence := mergeScheduleCadenceTimezone schedule.cadence cadence
  if validateScheduleCadence calendar cadence then
    match schedule.status with
    | .active =>
      (requireNext (computeNextRunAt calendar cadence now)).map fun next =>
        { schedule with cadence, nextRunAt := some next }
    | _ => .ok { schedule with cadence, nextRunAt := none }
  else .error "Invalid cron expression"

def updateConfig (patch : γ → Except String γ) (schedule : StoredSchedule γ) :
    Except String (StoredSchedule γ) :=
  match schedule.target with
  | .agent _ => .error "new-agent config updates are only valid for new-agent target schedules"
  | .newAgent config => (patch config).map fun config => { schedule with target := .newAgent config }

/-- An update of a field, if there is one. -/
def applyIf {α σ : Type} (value : Option α) (apply : α → σ → Except String σ) (state : σ) :
    Except String σ :=
  match value with
  | none => .ok state
  | some value => apply value state

def updateSchedule (input : UpdateScheduleInput γ) (now : ℕ) : Updater γ := fun schedule =>
  applyIf input.prompt (fun prompt schedule =>
    (normalizePrompt prompt).map fun prompt => { schedule with prompt }) schedule >>= fun schedule =>
  applyIf input.name (fun name schedule =>
    .ok { schedule with name := trimOptionalName name }) schedule >>= fun schedule =>
  applyIf input.cadence (fun cadence schedule => updateCadence calendar cadence now schedule)
    schedule >>= fun schedule =>
  applyIf input.newAgentConfig updateConfig schedule >>= fun schedule =>
  applyIf input.maxRuns (fun maxRuns schedule =>
    (normalizeMaxRuns maxRuns).map fun maxRuns => { schedule with maxRuns }) schedule >>=
    fun schedule =>
  applyIf input.expiresAt (fun expiresAt schedule => .ok { schedule with expiresAt }) schedule >>=
    fun schedule => .ok (some { schedule with updatedAt := now })

def completeForAgentUpdate (agentId : String) (now : ℕ) : Updater γ := fun schedule =>
  match schedule.target with
  | .agent target =>
    if target ≠ agentId || schedule.status = .completed then .ok none
    else .ok (some (completeSchedule schedule now))
  | .newAgent _ => .ok none

def completeIfDueUpdate (now : ℕ) : Updater γ := fun schedule =>
  if schedule.status ≠ .active || schedule.nextRunAt.isNone ||
      !shouldCompleteSchedule calendar schedule now then .ok none
  else .ok (some (completeSchedule schedule now))

/-! ## Runs -/

def appendRunningRun (run : ScheduleRun) : Updater γ := fun schedule =>
  .ok (some { schedule with updatedAt := run.startedAt, runs := schedule.runs ++ [run] })

def recordRunWorkspace (runId : ℕ) (workspaceId : String) (agentId : Option String) (now : ℕ) :
    Updater γ := fun schedule =>
  .ok <| some
    { schedule with
      updatedAt := now
      runs := schedule.runs.map fun run =>
        if run.id = runId ∧ run.status = .running then
          { run with workspaceId := some workspaceId, agentId }
        else run }

/-- What a runner comes to. -/
inductive RunnerResult
  | returned (agentId output : Option String)
  | threw (error : String) (targetGone : Bool)
  deriving DecidableEq

def RunnerResult.targetGone : RunnerResult → Bool
  | .returned _ _ => false
  | .threw _ targetGone => targetGone

/-- A run with its outcome. -/
def ScheduleRun.finished (run : ScheduleRun) (result : RunnerResult) (now : ℕ) : ScheduleRun :=
  match result with
  | .returned agentId output =>
    { run with
      status := .succeeded
      endedAt := some now
      agentId := agentId.or run.agentId
      output
      error := none }
  | .threw error _ =>
    { run with status := .failed, endedAt := some now, output := none, error := some error }

def finishRun (runId : ℕ) (result : RunnerResult) (manual : Bool) (now : ℕ) : Updater γ :=
  fun schedule =>
  let updated :=
    { schedule with
      runs := schedule.runs.map fun run => if run.id = runId then run.finished result now else run
      lastRunAt := some now
      updatedAt := now }
  if result.targetGone then .ok (some (completeSchedule updated now))
  else if updated.status = .completed then .ok (some updated)
  else if manual then .ok (some updated)
  else if shouldCompleteSchedule calendar updated now then .ok (some (completeSchedule updated now))
  else if updated.status = .paused then .ok (some { updated with nextRunAt := none })
  else
    (requireNext (nextRunAfter calendar updated.cadence (schedule.nextRunAt.getD now) now)).map
      fun next => some { updated with nextRunAt := some next }

/-! ## Recovery -/

def interruptedRun (run : ScheduleRun) (now : ℕ) : ScheduleRun :=
  { run with
    status := .failed
    endedAt := some now
    error := some "Daemon restarted before the scheduled run completed" }

/-- The first run that is running. -/
def failFirstRunning (now : ℕ) : List ScheduleRun → List ScheduleRun
  | [] => []
  | run :: runs =>
    if run.status = .running then interruptedRun run now :: runs
    else run :: failFirstRunning now runs

def recoverInterruptedSchedule (now : ℕ) : Updater γ := fun current =>
  let interrupted := current.runs.any fun run => run.status = .running
  let updated := { current with runs := failFirstRunning now current.runs }
  match updated.nextRunAt.filter fun nextRunAt => updated.status = .active ∧ nextRunAt ≤ now with
  | some nextRunAt =>
    (requireNext (nextRunAfter calendar updated.cadence nextRunAt now)).map fun next => some
      { updated with nextRunAt := some next, updatedAt := now }
  | none => if interrupted then .ok (some { updated with updatedAt := now }) else .ok none

/-- `agentGone` holds of an agent without a record, or with an archived one. -/
def sweepOrphanedSchedule (agentGone : String → Bool) (now : ℕ) : Updater γ := fun schedule =>
  match schedule.target with
  | .agent agentId =>
    if schedule.status = .completed || !agentGone agentId then .ok none
    else .ok (some (completeSchedule schedule now))
  | .newAgent _ => .ok none

/-! ## Creation -/

structure CreateScheduleInput (γ : Type) where
  name : Option String
  prompt : String
  cadence : ScheduleCadence
  target : ScheduleTarget γ
  maxRuns : Option ℤ
  expiresAt : Option String
  runOnCreate : Option Bool

def buildScheduleRecord (input : CreateScheduleInput γ) (id : String) (now : ℕ) :
    Except String (StoredSchedule γ) :=
  normalizePrompt input.prompt >>= fun prompt =>
  if validateScheduleCadence calendar input.cadence then
    let isEvery : Bool :=
      match input.cadence with
      | .every _ => true
      | .cron _ _ => false
    (if input.runOnCreate.getD isEvery then .ok now
      else requireNext (computeNextRunAt calendar input.cadence now)) >>= fun nextRunAt =>
    (normalizeMaxRuns input.maxRuns).map fun maxRuns =>
      { id
        name := trimOptionalName input.name
        prompt
        cadence := input.cadence
        target := input.target
        status := .active
        createdAt := now
        updatedAt := now
        nextRunAt := some nextRunAt
        lastRunAt := none
        pausedAt := none
        expiresAt := input.expiresAt
        maxRuns
        runs := [] }
  else .error "Invalid cron expression"

end Orqara.Schedule
