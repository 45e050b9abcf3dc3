import Orqara.Schedule.StoredSchedule

/-!
# The schedule service

Ticks, one-time runs and commands over one store, interleaved wherever they await something. A
tick goes through a list that it has read before; a run adds a record to its schedule, calls the
runner and writes the outcome, and the set of running schedules is what keeps a second run away.
The store makes one update of a schedule after the other, so that each is a single step.
-/

namespace Orqara.Schedule

variable {γ : Type}

/-! ## State -/

inductive TickStage (γ : Type)
  /-- before the directory is read -/
  | opening
  /-- the files that are read, in the order of the directory -/
  | reading (entries : List (String × Option (StoredSchedule γ)))
  | scanning (schedules : List (StoredSchedule γ))
  | completing (scheduleId : String) (rest : List (StoredSchedule γ))
  | awaitingRun (runId : ℕ) (rest : List (StoredSchedule γ))

structure Tick (γ : Type) where
  id : ℕ
  now : ℕ
  stage : TickStage γ

inductive RunStage
  /-- the running record is not written yet -/
  | appending
  | executing
  | finishing (result : RunnerResult)
  deriving DecidableEq

structure ActiveRun where
  id : ℕ
  scheduleId : String
  manual : Bool
  scheduledFor : ℕ
  startedAt : ℕ
  stage : RunStage
  deriving DecidableEq

/-- A run that was recorded, with the time and what the store held of its schedule then. -/
structure RunStart (γ : Type) where
  scheduleId : String
  manual : Bool
  scheduledFor : ℕ
  clock : ℕ
  stored : StoredSchedule γ

structure ScheduleService (γ : Type) where
  schedules : OrderedMap String (StoredSchedule γ)
  runningScheduleIds : List String
  clock : ℕ
  ticks : List (Tick γ)
  /-- calls of `runOnce` with the record that they have read -/
  calls : List (ℕ × StoredSchedule γ)
  runs : List ActiveRun
  nextId : ℕ
  starts : List (RunStart γ)

/-! ## The store -/

inductive UpdateAnswer (γ : Type)
  /-- there is no such schedule -/
  | missing
  | threw (error : String)
  | updated (schedules : OrderedMap String (StoredSchedule γ))

/-- `update` of the store; a record that is not new is not written. -/
def storeUpdate (schedules : OrderedMap String (StoredSchedule γ)) (id : String) (written : Bool)
    (updater : Updater γ) : UpdateAnswer γ :=
  match schedules.get id with
  | none => .missing
  | some current =>
    match updater current with
    | .error error => .threw error
    | .ok none => .updated schedules
    | .ok (some next) =>
      if written then .updated (schedules.set id next) else .threw "write failed"

/-- What an answer that is an error for the caller says. -/
def UpdateAnswer.require (id : String) :
    UpdateAnswer γ → Except String (OrderedMap String (StoredSchedule γ))
  | .missing => .error ("Schedule not found: " ++ id)
  | .threw error => .error error
  | .updated schedules => .ok schedules

namespace ScheduleService

variable (calendar : Calendar) (s : ScheduleService γ)

/-- An update by a command, which leaves everything as it is where it fails. -/
def command (id : String) (written : Bool) (updater : Updater γ) : ScheduleService γ :=
  match (storeUpdate s.schedules id written updater).require id with
  | .error _ => s
  | .ok schedules => { s with schedules }

/-! ## Ticks -/

def setTick (tickId : ℕ) (stage : TickStage γ) : ScheduleService γ :=
  { s with ticks := s.ticks.map fun tick => if tick.id = tickId then { tick with stage } else tick }

/-- A tick is over, or has thrown. -/
def dropTick (tickId : ℕ) : ScheduleService γ :=
  { s with ticks := s.ticks.filter fun tick => tick.id ≠ tickId }

def beginTick : ScheduleService γ :=
  { s with
    ticks := s.ticks ++ [{ id := s.nextId, now := s.clock, stage := .opening }]
    nextId := s.nextId + 1 }

/-- The records that were read, in the order of their creation. -/
def sortedCopies (entries : List (String × Option (StoredSchedule γ))) : List (StoredSchedule γ) :=
  (entries.filterMap Prod.snd).mergeSort fun left right => left.createdAt ≤ right.createdAt

def readingStage (entries : List (String × Option (StoredSchedule γ))) : TickStage γ :=
  if entries.all fun entry => entry.2.isSome then .scanning (sortedCopies entries)
  else .reading entries

/-- A file of the list is read; the list fails where it is gone. -/
def readFile (tick : Tick γ) (entries : List (String × Option (StoredSchedule γ))) (id : String) :
    ScheduleService γ :=
  match s.schedules.get id with
  | none => s.dropTick tick.id
  | some schedule =>
    s.setTick tick.id <| readingStage <| entries.map fun entry =>
      if entry.1 = id then (id, some schedule) else entry

/-- `runSchedule` up to its first update. -/
def startRun (scheduleId : String) (manual : Bool) (scheduledFor startedAt : ℕ) :
    ScheduleService γ :=
  { s with
    runningScheduleIds := s.runningScheduleIds.insert scheduleId
    runs := s.runs ++
      [{ id := s.nextId, scheduleId, manual, scheduledFor, startedAt, stage := .appending }]
    nextId := s.nextId + 1 }

/-- What a tick does with the first of the records that are left. -/
def scanNext (tick : Tick γ) (schedule : StoredSchedule γ) (rest : List (StoredSchedule γ)) :
    ScheduleService γ :=
  match schedule.nextRunAt with
  | none => s.setTick tick.id (.scanning rest)
  | some nextRunAt =>
    if schedule.status ≠ .active then s.setTick tick.id (.scanning rest)
    else if schedule.id ∈ s.runningScheduleIds then s.setTick tick.id (.scanning rest)
    else if shouldCompleteSchedule calendar schedule tick.now then
      s.setTick tick.id (.completing schedule.id rest)
    else if tick.now < nextRunAt then s.setTick tick.id (.scanning rest)
    else (s.setTick tick.id (.awaitingRun s.nextId rest)).startRun schedule.id false nextRunAt
      tick.now

def completeScheduleIfDue (tick : Tick γ) (scheduleId : String) (rest : List (StoredSchedule γ))
    (written : Bool) : ScheduleService γ :=
  match (storeUpdate s.schedules scheduleId written
      (completeIfDueUpdate calendar tick.now)).require scheduleId with
  | .error _ => s.dropTick tick.id
  | .ok schedules => { s.setTick tick.id (.scanning rest) with schedules }

/-! ## Runs -/

def setRun (runId : ℕ) (stage : RunStage) : ScheduleService γ :=
  { s with runs := s.runs.map fun run => if run.id = runId then { run with stage } else run }

/-- A run is over; the tick that awaits it goes on. -/
def runResolves (runId : ℕ) : ScheduleService γ :=
  { s with
    runs := s.runs.filter fun run => run.id ≠ runId
    ticks := s.ticks.map fun tick =>
      match tick.stage with
      | .awaitingRun awaited rest =>
        if awaited = runId then { tick with stage := .scanning rest } else tick
      | _ => tick }

/-- A run throws; so does the tick that awaits it. -/
def runRejects (runId : ℕ) : ScheduleService γ :=
  { s with
    runs := s.runs.filter fun run => run.id ≠ runId
    ticks := s.ticks.filter fun tick =>
      match tick.stage with
      | .awaitingRun awaited _ => awaited ≠ runId
      | _ => true }

def releaseSchedule (scheduleId : String) : ScheduleService γ :=
  { s with runningScheduleIds := s.runningScheduleIds.filter (· ≠ scheduleId) }

def runningRecord (run : ActiveRun) : ScheduleRun where
  id := run.id
  scheduledFor := run.scheduledFor
  startedAt := run.startedAt
  endedAt := none
  status := .running
  agentId := none
  workspaceId := none
  output := none
  error := none

/-- The update before the `try`. -/
def append (run : ActiveRun) (written : Bool) : ScheduleService γ :=
  match s.schedules.get run.scheduleId with
  | none => s.runRejects run.id
  | some stored =>
    match storeUpdate s.schedules run.scheduleId written
        (appendRunningRun (runningRecord run)) with
    | .updated schedules =>
      { s.setRun run.id .executing with
        schedules
        starts := s.starts ++
          [{ scheduleId := run.scheduleId
             manual := run.manual
             scheduledFor := run.scheduledFor
             clock := s.clock
             stored }] }
    | _ => s.runRejects run.id

/-- A success that cannot be written is written as a failure; a failure that cannot be written is
thrown. -/
def finishFails (run : ActiveRun) (result : RunnerResult) (error : String) : ScheduleService γ :=
  match result with
  | .returned _ _ => s.setRun run.id (.finishing (.threw error false))
  | .threw _ _ => (s.releaseSchedule run.scheduleId).runRejects run.id

def finish (run : ActiveRun) (result : RunnerResult) (written : Bool) : ScheduleService γ :=
  match (storeUpdate s.schedules run.scheduleId written
      (finishRun calendar run.id result run.manual s.clock)).require run.scheduleId with
  | .error error => s.finishFails run result error
  | .ok schedules => { (s.releaseSchedule run.scheduleId).runResolves run.id with schedules }

end ScheduleService

/-! ## Events -/

/-- A step of the service; `written` says whether a write succeeds. -/
inductive ServiceEvent (γ : Type)
  | elapse (ms : ℕ)
  | tick
  | readDirectory (tickId : ℕ)
  | readFile (tickId : ℕ) (id : String)
  /-- a tick looks at its next record -/
  | scan (tickId : ℕ)
  | completeDue (tickId : ℕ) (written : Bool)
  /-- `runOnce` reads the record -/
  | runOnce (id : String)
  | startRunOnce (call : ℕ)
  | append (runId : ℕ) (written : Bool)
  | recordWorkspace (runId : ℕ) (workspaceId : String) (agentId : Option String) (written : Bool)
  | runnerEnds (runId : ℕ) (result : RunnerResult)
  | finish (runId : ℕ) (written : Bool)
  | pause (id : String) (written : Bool)
  | resume (id : String) (written : Bool)
  | update (input : UpdateScheduleInput γ) (written : Bool)
  | delete (id : String) (removed : Bool)
  /-- one of the updates of `completeForAgent`, with the time of the call -/
  | completeForAgent (id agentId : String) (now : ℕ) (written : Bool)

namespace ScheduleService

variable (calendar : Calendar) (s : ScheduleService γ)

def findTick (tickId : ℕ) : Option (Tick γ) := s.ticks.find? fun tick => tick.id = tickId

def findRun (runId : ℕ) : Option ActiveRun := s.runs.find? fun run => run.id = runId

def stepTick (tick : Tick γ) : ServiceEvent γ → Option (ScheduleService γ)
  | .readDirectory _ =>
    match tick.stage with
    | .opening => some (s.setTick tick.id (readingStage (s.schedules.keys.map fun id => (id, none))))
    | _ => none
  | .readFile _ id =>
    match tick.stage with
    | .reading entries =>
      if (id, none) ∈ entries.map (fun entry => (entry.1, entry.2.map fun _ => ())) then
        some (s.readFile tick entries id)
      else none
    | _ => none
  | .scan _ =>
    match tick.stage with
    | .scanning [] => some (s.dropTick tick.id)
    | .scanning (schedule :: rest) => some (s.scanNext calendar tick schedule rest)
    | _ => none
  | .completeDue _ written =>
    match tick.stage with
    | .completing scheduleId rest =>
      some (s.completeScheduleIfDue calendar tick scheduleId rest written)
    | _ => none
  | _ => none

def stepRun (run : ActiveRun) : ServiceEvent γ → Option (ScheduleService γ)
  | .append _ written =>
    match run.stage with
    | .appending => some (s.append run written)
    | _ => none
  | .recordWorkspace _ workspaceId agentId written =>
    match run.stage with
    | .executing =>
      some (s.command run.scheduleId written (recordRunWorkspace run.id workspaceId agentId s.clock))
    | _ => none
  | .runnerEnds _ result =>
    match run.stage with
    | .executing => some (s.setRun run.id (.finishing result))
    | _ => none
  | .finish _ written =>
    match run.stage with
    | .finishing result => some (s.finish calendar run result written)
    | _ => none
  | _ => none

/-- `runOnce` after it has read the record, which is stored under its id. -/
def startRunOnce (call : ℕ × StoredSchedule γ) : ScheduleService γ :=
  let s := { s with calls := s.calls.filter fun other => other.1 ≠ call.1 }
  if call.2.status = .completed then s
  else if call.2.id ∈ s.runningScheduleIds then s
  else s.startRun call.2.id true s.clock s.clock

def step (event : ServiceEvent γ) : Option (ScheduleService γ) :=
  match event with
  | .elapse ms => some { s with clock := s.clock + ms }
  | .tick => some s.beginTick
  | .readDirectory tickId => (s.findTick tickId).bind fun tick => s.stepTick calendar tick event
  | .readFile tickId _ => (s.findTick tickId).bind fun tick => s.stepTick calendar tick event
  | .scan tickId => (s.findTick tickId).bind fun tick => s.stepTick calendar tick event
  | .completeDue tickId _ => (s.findTick tickId).bind fun tick => s.stepTick calendar tick event
  | .runOnce id =>
    some <|
      match s.schedules.get id with
      | none => s
      | some schedule =>
        { s with calls := s.calls ++ [(s.nextId, schedule)], nextId := s.nextId + 1 }
  | .startRunOnce callId =>
    (s.calls.find? fun call => call.1 = callId).map s.startRunOnce
  | .append runId _ => (s.findRun runId).bind fun run => s.stepRun calendar run event
  | .recordWorkspace runId _ _ _ => (s.findRun runId).bind fun run => s.stepRun calendar run event
  | .runnerEnds runId _ => (s.findRun runId).bind fun run => s.stepRun calendar run event
  | .finish runId _ => (s.findRun runId).bind fun run => s.stepRun calendar run event
  | .pause id written => some (s.command id written (pauseUpdate id s.clock))
  | .resume id written => some (s.command id written (resumeUpdate calendar id s.clock))
  | .update input written =>
    some (s.command input.id written (updateSchedule calendar input s.clock))
  | .delete id removed =>
    some (if removed then { s with schedules := s.schedules.delete id } else s)
  | .completeForAgent id agentId now written =>
    some (s.command id written (completeForAgentUpdate agentId now))

def run (s : ScheduleService γ) : List (ServiceEvent γ) → Option (ScheduleService γ)
  | [] => some s
  | event :: events => (s.step calendar event).bind fun s' => run s' events

/-- A service over stored schedules that does nothing yet; `nextId` is new to their runs. -/
def idle (schedules : OrderedMap String (StoredSchedule γ)) (clock nextId : ℕ) :
    ScheduleService γ where
  schedules := schedules
  runningScheduleIds := []
  clock := clock
  ticks := []
  calls := []
  runs := []
  nextId := nextId
  starts := []

end ScheduleService

end Orqara.Schedule
