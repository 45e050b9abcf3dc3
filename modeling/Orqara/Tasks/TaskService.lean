import Orqara.Library.JsonText
import Orqara.Library.Table

/-!
# The task service

Tasks, the receipts of the commands that changed them and the evidence of their
verifications, in three tables. Every method reads and writes the tables in one
piece once it has found the workspace; only a verification runs in two pieces,
a claim and a completion, with anything in between.
-/

namespace Orqara.Tasks

inductive TaskStatus
  | draft | queued | blocked | provisioning | running | needsInput | verifying | reviewReady
  | completed | interrupted | failed | cancelled
  deriving DecidableEq, Repr

inductive TaskAction
  | start | accept | retry | cancel
  deriving DecidableEq, Repr

def TaskAction.text : TaskAction → String
  | .start => "start"
  | .accept => "accept"
  | .retry => "retry"
  | .cancel => "cancel"

inductive OperationState
  | running | finished
  deriving DecidableEq, Repr

inductive EvidenceStatus
  | pending | passed | failed | timedOut | stale
  deriving DecidableEq, Repr

inductive Isolation
  | live | disposableCheckout
  deriving DecidableEq, Repr

structure TaskCheck where
  id : String
  command : String
  timeoutMs : ℤ
  deriving DecidableEq, Repr

structure TaskSnapshot where
  id : String
  baseCommit : String
  trackedDiffHash : String
  untrackedManifestHash : String
  deriving DecidableEq, Repr

structure TaskEvidence where
  commandId : String
  taskId : String
  operationState : OperationState
  command : String
  startedAt : String
  durationMs : Option ℤ
  status : EvidenceStatus
  exitCode : Option ℤ
  stdout : String
  stderr : String
  isolation : Isolation
  snapshot : Option TaskSnapshot
  resultingSnapshotId : Option String
  deriving DecidableEq, Repr

/-- What a finished run of a check reports. -/
structure VerificationEvidence where
  command : String
  startedAt : String
  durationMs : ℤ
  status : EvidenceStatus
  exitCode : Option ℤ
  stdout : String
  stderr : String
  isolation : Isolation
  snapshot : TaskSnapshot
  resultingSnapshotId : String
  deriving DecidableEq, Repr

/-! ## The tables

The columns that hold JSON texts hold the values here. -/

structure TaskRow where
  id : String
  workspaceId : String
  title : String
  prompt : String
  providerId : String
  agentId : Option String
  status : TaskStatus
  revision : ℕ
  acceptanceCriteria : List String
  checkDefinition : TaskCheck
  createdAt : String
  createRequestHash : String
  deriving DecidableEq

structure CommandRow where
  workspaceId : String
  taskId : String
  commandId : String
  requestHash : String
  revision : ℕ
  deriving DecidableEq

structure EvidenceRow where
  workspaceId : String
  taskId : String
  commandId : String
  payload : TaskEvidence
  deriving DecidableEq

def TaskRow.key (row : TaskRow) : String × String := (row.workspaceId, row.id)

def CommandRow.key (row : CommandRow) : String × String := (row.workspaceId, row.commandId)

def EvidenceRow.key (row : EvidenceRow) : String × String := (row.workspaceId, row.commandId)

/-- The foreign keys hold because a row is only inserted for a task just read,
and no task is ever deleted. -/
structure TaskDb where
  tasks : Table TaskRow.key
  taskCommands : Table CommandRow.key
  taskEvidence : Table EvidenceRow.key

structure Workspace where
  cwd : String

/-- What the service is built from. -/
structure TaskServiceEnv where
  sha256 : String → String
  workspaceRegistry : String → Option Workspace

def requestHash (env : TaskServiceEnv) (value : Json) : String := env.sha256 value.stringify

/-- The rows of a task's evidence, in the order they were inserted. -/
def evidenceRows (db : TaskDb) (workspaceId taskId : String) : List EvidenceRow :=
  db.taskEvidence.rows.filter fun row => row.workspaceId = workspaceId ∧ row.taskId = taskId

def latestEvidence (db : TaskDb) (workspaceId taskId : String) : Option TaskEvidence :=
  (evidenceRows db workspaceId taskId).getLast?.map (·.payload)

structure TaskPayload where
  id : String
  workspaceId : String
  title : String
  prompt : String
  providerId : String
  agentId : Option String
  status : TaskStatus
  revision : ℕ
  acceptanceCriteria : List String
  check : TaskCheck
  createdAt : String
  latestEvidence : Option TaskEvidence

def project (db : TaskDb) (row : TaskRow) : TaskPayload where
  id := row.id
  workspaceId := row.workspaceId
  title := row.title
  prompt := row.prompt
  providerId := row.providerId
  agentId := row.agentId
  status := row.status
  revision := row.revision
  acceptanceCriteria := row.acceptanceCriteria
  check := row.checkDefinition
  createdAt := row.createdAt
  latestEvidence := latestEvidence db row.workspaceId row.id

def workspaceNotFound (workspaceId : String) : String := "Workspace not found: " ++ workspaceId

def taskNotFound (taskId : String) : String := "Task not found: " ++ taskId

def commandIdConflict (commandId : String) : String := "Command ID conflict: " ++ commandId

/-! ## Creation -/

structure CreateInput where
  workspaceId : String
  title : String
  prompt : String
  providerId : String
  acceptanceCriteria : List String
  checks : List TaskCheck
  commandId : String
  deriving DecidableEq

def TaskCheck.toJson (check : TaskCheck) : Json :=
  .obj [("id", .str check.id), ("command", .str check.command), ("timeoutMs", .num check.timeoutMs)]

/-- The fields of a creation that its receipt covers. -/
def CreateInput.request (input : CreateInput) : Json :=
  .obj [("workspaceId", .str input.workspaceId), ("title", .str input.title),
    ("prompt", .str input.prompt), ("providerId", .str input.providerId),
    ("acceptanceCriteria", .arr (input.acceptanceCriteria.map .str)),
    ("checks", .arr (input.checks.map TaskCheck.toJson)), ("commandId", .str input.commandId)]

/-- The id of the task that a creation command makes: 16 hex digits of a hash
of the parts, which NUL characters separate. -/
def taskIdOf (env : TaskServiceEnv) (workspaceId commandId : String) : String :=
  String.ofList ((env.sha256 ("task\x00" ++ workspaceId ++ "\x00" ++ commandId)).toList.take 16)

/-- The row of a new task. -/
def CreateInput.row (env : TaskServiceEnv) (input : CreateInput) (check : TaskCheck)
    (now : String) : TaskRow where
  id := taskIdOf env input.workspaceId input.commandId
  workspaceId := input.workspaceId
  title := input.title
  prompt := input.prompt
  providerId := input.providerId
  agentId := none
  status := .queued
  revision := 1
  acceptanceCriteria := input.acceptanceCriteria
  checkDefinition := check
  createdAt := now
  createRequestHash := requestHash env input.request

/-- The new database, and whether the task existed. -/
def create (env : TaskServiceEnv) (input : CreateInput) (now : String) (db : TaskDb) :
    Except String (TaskDb × Bool) :=
  match env.workspaceRegistry input.workspaceId with
  | none => .error (workspaceNotFound input.workspaceId)
  | some _ =>
    let taskId := taskIdOf env input.workspaceId input.commandId
    let createRequestHash := requestHash env input.request
    match db.tasks.get? (input.workspaceId, taskId) with
    | some existing =>
      if existing.createRequestHash ≠ createRequestHash then
        .error (commandIdConflict input.commandId)
      else .ok (db, true)
    | none =>
      match input.checks.head? with
      | none => .error "Provided value cannot be bound to SQLite parameter 7."
      | some check =>
        match db.tasks.insert? (input.row env check now) with
        | none => .error "UNIQUE constraint failed: tasks.workspace_id, tasks.id"
        | some tasks => .ok ({ db with tasks := tasks }, false)

/-! ## Commands -/

structure CommandInput where
  workspaceId : String
  taskId : String
  commandId : String
  expectedRevision : ℕ
  action : TaskAction
  agentId : Option String
  deriving DecidableEq

/-- The fields of a command that its receipt covers; the agent is not one. -/
def CommandInput.request (input : CommandInput) : Json :=
  .obj [("workspaceId", .str input.workspaceId), ("taskId", .str input.taskId),
    ("commandId", .str input.commandId), ("expectedRevision", .num input.expectedRevision),
    ("action", .str input.action.text)]

def nextStatus (action : TaskAction) (currentStatus : TaskStatus) (agentId : Option String) :
    Except String TaskStatus :=
  match action with
  | .accept =>
    if currentStatus ≠ .reviewReady then .error "Only a review-ready task can be accepted"
    else .ok .completed
  | .start =>
    if currentStatus ≠ .queued then .error "Only a queued task can be started"
    else if agentId.getD "" = "" then .error "Started task requires an agent ID"
    else .ok .running
  | .retry =>
    if currentStatus ≠ .failed then .error "Only a failed task can be retried"
    else .ok .queued
  | .cancel =>
    if currentStatus ∉ [TaskStatus.draft, .queued, .blocked] then
      .error "Only a pending task can be cancelled"
    else .ok .cancelled

/-- The receipt of a command that made a revision. -/
def CommandInput.receipt (env : TaskServiceEnv) (input : CommandInput) (revision : ℕ) :
    CommandRow where
  workspaceId := input.workspaceId
  taskId := input.taskId
  commandId := input.commandId
  requestHash := requestHash env input.request
  revision := revision

/-- The row that a command leaves. -/
def TaskRow.commanded (input : CommandInput) (status : TaskStatus) (row : TaskRow) : TaskRow :=
  { row with
    status := status
    revision := row.revision + 1
    agentId := if input.action = .retry then none else input.agentId <|> row.agentId }

theorem TaskRow.commanded_key (input : CommandInput) (status : TaskStatus) (row : TaskRow) :
    (row.commanded input status).key = row.key := rfl

/-- The new database, and whether the command had run before. -/
def command (env : TaskServiceEnv) (input : CommandInput) (db : TaskDb) :
    Except String (TaskDb × Bool) :=
  match env.workspaceRegistry input.workspaceId with
  | none => .error (workspaceNotFound input.workspaceId)
  | some _ =>
    let inputHash := requestHash env input.request
    match db.tasks.get? (input.workspaceId, input.taskId) with
    | none => .error (taskNotFound input.taskId)
    | some task =>
      match db.taskCommands.get? (input.workspaceId, input.commandId) with
      | some receipt =>
        if receipt.requestHash ≠ inputHash then .error (commandIdConflict input.commandId)
        else .ok (db, true)
      | none =>
        if task.revision ≠ input.expectedRevision then
          .error ("Revision conflict: expected " ++ toString input.expectedRevision ++
            ", current " ++ toString task.revision)
        else
          match nextStatus input.action task.status input.agentId with
          | .error message => .error message
          | .ok status =>
            match db.taskCommands.insert? (input.receipt env (task.revision + 1)) with
            | none =>
              .error "UNIQUE constraint failed: task_commands.workspace_id, task_commands.command_id"
            | some taskCommands =>
              .ok ({ db with
                tasks := db.tasks.update (input.workspaceId, input.taskId)
                  (TaskRow.commanded input status) (TaskRow.commanded_key input status)
                taskCommands := taskCommands }, false)

/-- The row that a failed start leaves; only the agent's own run is touched. -/
def TaskRow.failStart (agentId : String) (row : TaskRow) : TaskRow :=
  if row.status = .running ∧ row.agentId = some agentId then
    { row with status := .failed, revision := row.revision + 1 }
  else row

theorem TaskRow.failStart_key (agentId : String) (row : TaskRow) :
    (row.failStart agentId).key = row.key := by
  unfold TaskRow.failStart
  split_ifs <;> rfl

def failStart (env : TaskServiceEnv) (workspaceId taskId agentId : String) (db : TaskDb) :
    Except String TaskDb :=
  match env.workspaceRegistry workspaceId with
  | none => .error (workspaceNotFound workspaceId)
  | some _ =>
    .ok { db with
      tasks := db.tasks.update (workspaceId, taskId) (TaskRow.failStart agentId)
        (TaskRow.failStart_key agentId) }

/-! ## Verification -/

structure VerifyInput where
  workspaceId : String
  taskId : String
  commandId : String
  cwd : Option String
  deriving DecidableEq

/-- A verification between its claim and its completion. -/
structure ActiveVerification where
  input : VerifyInput
  cwd : String
  check : TaskCheck
  pending : TaskEvidence

/-- The service with the verifications it is running. -/
structure TaskService where
  db : TaskDb
  activeVerifications : List ActiveVerification

def pendingEvidence (input : VerifyInput) (check : TaskCheck) (now : String) : TaskEvidence where
  commandId := input.commandId
  taskId := input.taskId
  operationState := .running
  command := check.command
  startedAt := now
  durationMs := none
  status := .pending
  exitCode := none
  stdout := ""
  stderr := ""
  isolation := .disposableCheckout
  snapshot := none
  resultingSnapshotId := none

/-- The evidence row that a claim inserts. -/
def VerifyInput.row (input : VerifyInput) (check : TaskCheck) (now : String) : EvidenceRow where
  workspaceId := input.workspaceId
  taskId := input.taskId
  commandId := input.commandId
  payload := pendingEvidence input check now

def TaskRow.verifying (row : TaskRow) : TaskRow :=
  { row with status := .verifying, revision := row.revision + 1 }

theorem TaskRow.verifying_key (row : TaskRow) : row.verifying.key = row.key := rfl

/-- What a call of `verify` answers from an evidence row that its command id has. -/
def verifyDuplicate (input : VerifyInput) (service : TaskService) (existing : EvidenceRow) :
    Except String (TaskService × Option TaskEvidence) :=
  if existing.taskId ≠ input.taskId then .error (commandIdConflict input.commandId)
  else .ok (service, some existing.payload)

/-- The claim: evidence when the command has run before, else a new active
verification. -/
def verify (env : TaskServiceEnv) (input : VerifyInput) (now : String) (service : TaskService) :
    Except String (TaskService × Option TaskEvidence) :=
  let db := service.db
  match env.workspaceRegistry input.workspaceId with
  | none => .error (workspaceNotFound input.workspaceId)
  | some workspace =>
    match db.taskEvidence.get? (input.workspaceId, input.commandId) with
    | some existing => verifyDuplicate input service existing
    | none =>
      match db.tasks.get? (input.workspaceId, input.taskId) with
      | none => .error (taskNotFound input.taskId)
      | some task =>
        match db.taskEvidence.insert? (input.row task.checkDefinition now) with
        | none =>
          -- `INSERT OR IGNORE` lost to another claim of the same command.
          match db.taskEvidence.get? (input.workspaceId, input.commandId) with
          | none => .error "Cannot read properties of undefined (reading 'task_id')"
          | some existing => verifyDuplicate input service existing
        | some taskEvidence =>
          .ok ({ db := { db with
                  taskEvidence := taskEvidence
                  tasks := db.tasks.update (input.workspaceId, input.taskId) TaskRow.verifying
                    TaskRow.verifying_key }
                 activeVerifications := service.activeVerifications ++
                  [⟨input, input.cwd.getD workspace.cwd, task.checkDefinition,
                    pendingEvidence input task.checkDefinition now⟩] }, none)

/-- The pending evidence with what the check reported, or with the message it
failed with. -/
def finishEvidence (pending : TaskEvidence)
    (outcome : Except (Option String) VerificationEvidence) : TaskEvidence :=
  match outcome with
  | .ok result =>
    { pending with
      operationState := .finished
      command := result.command
      startedAt := result.startedAt
      durationMs := some result.durationMs
      status := result.status
      exitCode := result.exitCode
      stdout := result.stdout
      stderr := result.stderr
      isolation := result.isolation
      snapshot := some result.snapshot
      resultingSnapshotId := some result.resultingSnapshotId }
  | .error message =>
    { pending with
      operationState := .finished
      status := .failed
      stderr := message.getD "Verification failed" }

def TaskRow.verified (evidence : TaskEvidence) (row : TaskRow) : TaskRow :=
  { row with
    status := if evidence.status = .passed then .reviewReady else .failed
    revision := row.revision + 1 }

theorem TaskRow.verified_key (evidence : TaskEvidence) (row : TaskRow) :
    (row.verified evidence).key = row.key := rfl

def EvidenceRow.finished (evidence : TaskEvidence) (row : EvidenceRow) : EvidenceRow :=
  { row with payload := evidence }

theorem EvidenceRow.finished_key (evidence : TaskEvidence) (row : EvidenceRow) :
    (row.finished evidence).key = row.key := rfl

def completeVerification (verification : ActiveVerification)
    (outcome : Except (Option String) VerificationEvidence) (db : TaskDb) : TaskDb :=
  let input := verification.input
  let evidence := finishEvidence verification.pending outcome
  { db with
    taskEvidence := db.taskEvidence.update (input.workspaceId, input.commandId)
      (EvidenceRow.finished evidence) (EvidenceRow.finished_key evidence)
    tasks := db.tasks.update (input.workspaceId, input.taskId) (TaskRow.verified evidence)
      (TaskRow.verified_key evidence) }

/-! ## The service as a system -/

/-- One uninterrupted piece of a call. -/
inductive TaskEvent
  | create (input : CreateInput) (now : String)
  | command (input : CommandInput)
  | verify (input : VerifyInput) (now : String)
  | complete (index : ℕ) (outcome : Except (Option String) VerificationEvidence)
  | failStart (workspaceId taskId agentId : String)

/-- The state after an event, and whether the call reports a duplicate. A call
that throws rolls its transaction back. -/
def step (env : TaskServiceEnv) (service : TaskService) (event : TaskEvent) :
    Except String (TaskService × Bool) :=
  match event with
  | .create input now =>
    (create env input now service.db).map fun r => ({ service with db := r.1 }, r.2)
  | .command input =>
    (command env input service.db).map fun r => ({ service with db := r.1 }, r.2)
  | .verify input now =>
    (verify env input now service).map fun r => (r.1, r.2.isSome)
  | .complete index outcome =>
    match service.activeVerifications[index]? with
    | none => .error "No such verification"
    | some verification =>
      .ok ({ db := completeVerification verification outcome service.db
             activeVerifications := service.activeVerifications.eraseIdx index }, false)
  | .failStart workspaceId taskId agentId =>
    (failStart env workspaceId taskId agentId service.db).map fun db =>
      ({ service with db := db }, false)

def after (env : TaskServiceEnv) (service : TaskService) (event : TaskEvent) : TaskService :=
  match step env service event with
  | .ok (next, _) => next
  | .error _ => service

/-- A service over a new database. -/
def TaskService.init : TaskService := ⟨⟨∅, ∅, ∅⟩, []⟩

def run (env : TaskServiceEnv) (events : List TaskEvent) : TaskService :=
  events.foldl (after env) .init

end Orqara.Tasks
