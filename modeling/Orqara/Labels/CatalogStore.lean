import Orqara.Labels.LabelService

/-!
# The files of the label catalog

A commit of labels writes a prepared transaction, the catalog, the workspaces and a committed
transaction, one file operation after the other, in the mutation queue of the workspace registry.
A commit that fails is rolled back in the process, outside the queue until the rollback has its
turn; one that a crash interrupts is rolled back on restart. Every file operation happens as a
whole or not at all.
-/

namespace Orqara.Labels

variable {ρ : Type}

/-! ## Other mutations of the registry -/

/-- The fields of a workspace besides its id. -/
structure WorkspaceFields (ρ : Type) where
  labels : Option (List String)
  archivedAt : Option String
  updatedAt : String
  details : ρ

def WorkspaceFields.record (fields : WorkspaceFields ρ) (workspaceId : String) :
    PersistedWorkspaceRecord ρ where
  workspaceId := workspaceId
  labels := fields.labels
  archivedAt := fields.archivedAt
  updatedAt := fields.updatedAt
  details := fields.details

inductive RegistryMutation (ρ : Type)
  | upsert (record : PersistedWorkspaceRecord ρ)
  /-- also an archive; an updater may throw -/
  | update (workspaceId : String)
      (updater : PersistedWorkspaceRecord ρ → Option (WorkspaceFields ρ))
  | remove (workspaceId : String)

/-- What a mutation does to the records. -/
inductive WorkspaceChange (ρ : Type)
  | set (record : PersistedWorkspaceRecord ρ)
  | delete (workspaceId : String)

def WorkspaceChange.apply (workspaces : OrderedMap String (PersistedWorkspaceRecord ρ)) :
    WorkspaceChange ρ → OrderedMap String (PersistedWorkspaceRecord ρ)
  | .set record => workspaces.set record.workspaceId record
  | .delete workspaceId => workspaces.delete workspaceId

/-- Nothing where no record is there, or the updater throws. -/
def RegistryMutation.change (workspaces : OrderedMap String (PersistedWorkspaceRecord ρ)) :
    RegistryMutation ρ → Option (WorkspaceChange ρ)
  | .upsert record => some (.set record)
  | .update workspaceId updater =>
    (workspaces.get workspaceId).bind fun existing =>
      (updater existing).map fun fields => .set (fields.record workspaceId)
  | .remove workspaceId => (workspaces.get workspaceId).map fun _ => .delete workspaceId

/-! ## Files and memory -/

inductive TransactionPhase
  | prepared
  | committed
  deriving DecidableEq

/-- The files: the catalog, the records of the workspaces, and the transaction if there is one. -/
structure LabelFiles (ρ : Type) where
  catalog : List WorkspaceLabelDefinition
  workspaces : OrderedMap String (PersistedWorkspaceRecord ρ)
  transaction : Option (TransactionPhase × WorkspaceLabelTransaction)

/-- A commit with what it has staged; `number` counts the commits. -/
structure StagedCommit (ρ : Type) where
  number : ℕ
  mutation : WorkspaceLabelMutation ρ
  transaction : WorkspaceLabelTransaction
  staged : OrderedMap String (PersistedWorkspaceRecord ρ)

/-- What a recovery is made for. -/
inductive RecoveryCause
  | failedCommit (number : ℕ)
  | restart
  deriving DecidableEq

structure StagedRecovery (ρ : Type) where
  transaction : WorkspaceLabelTransaction
  cause : RecoveryCause
  updates : List (PersistedWorkspaceRecord ρ)
  staged : OrderedMap String (PersistedWorkspaceRecord ρ)

/-- The file operation that the store is at. -/
inductive Activity (ρ : Type)
  | idle
  | writePrepared (commit : StagedCommit ρ)
  | writeCatalog (commit : StagedCommit ρ)
  | writeWorkspaces (commit : StagedCommit ρ)
  | writeCommitted (commit : StagedCommit ρ)
  /-- a commit that has succeeded removes its transaction -/
  | cleanUp (number : ℕ) (mutation : WorkspaceLabelMutation ρ)
  /-- a commit that has failed reads its transaction -/
  | readFailed (number : ℕ)
  /-- a recovery waits for its turn in the queue -/
  | awaitRecovery (transaction : WorkspaceLabelTransaction) (cause : RecoveryCause)
  | restoreCatalog (recovery : StagedRecovery ρ)
  | restoreWorkspaces (recovery : StagedRecovery ρ)
  | removePrepared (recovery : StagedRecovery ρ)
  /-- `initialize` reads the transaction -/
  | readTransaction
  | readCatalog
  | readCommittedCatalog
  | removeCommitted

/-- The activities that hold the mutation queue. -/
def Activity.inQueue : Activity ρ → Bool
  | .writePrepared _ => true
  | .writeCatalog _ => true
  | .writeWorkspaces _ => true
  | .writeCommitted _ => true
  | .restoreCatalog _ => true
  | .restoreWorkspaces _ => true
  | .removePrepared _ => true
  | _ => false

/-- The records of the registry, and the store. -/
structure StoreMemory (ρ : Type) where
  cache : OrderedMap String (PersistedWorkspaceRecord ρ)
  labels : List WorkspaceLabelDefinition
  loaded : Bool
  blocked : Bool
  activity : Activity ρ

def StoreMemory.state (memory : StoreMemory ρ) : LabelState ρ where
  catalog := memory.labels
  workspaces := memory.cache

inductive CommitAnswer (ρ : Type)
  | done (mutation : WorkspaceLabelMutation ρ)
  | rejected
  /-- rejected, and blocked until restart -/
  | uncertain

/-- What has happened, each entry as a whole. -/
inductive HistoryEntry (ρ : Type)
  | mutated (change : WorkspaceChange ρ)
  | committed (number : ℕ) (mutation : WorkspaceLabelMutation ρ)
  | rolledBack (transaction : WorkspaceLabelTransaction)

/-- A daemon with its files; `started` counts the commits. -/
structure CatalogStore (ρ : Type) where
  files : LabelFiles ρ
  /-- nothing while the process is down -/
  memory : Option (StoreMemory ρ)
  started : ℕ
  answers : List (ℕ × CommitAnswer ρ)
  history : List (HistoryEntry ρ)

inductive StoreEvent (ρ : Type)
  | mutate (mutation : RegistryMutation ρ) (written : Bool)
  | commit (request : LabelRequest) (now : String)
  /-- `initialize` is called -/
  | load
  /-- the file operation that the store is at succeeds or fails -/
  | proceed (succeeds : Bool)
  | crash
  | restart

namespace CatalogStore

/-- A daemon that is down, over files that a clean shutdown has left. -/
def down (catalog : List WorkspaceLabelDefinition)
    (workspaces : OrderedMap String (PersistedWorkspaceRecord ρ)) : CatalogStore ρ where
  files := ⟨catalog, workspaces, none⟩
  memory := none
  started := 0
  answers := []
  history := []

def withMemory (s : CatalogStore ρ) (memory : StoreMemory ρ) : CatalogStore ρ :=
  { s with memory := some memory }

def goTo (s : CatalogStore ρ) (memory : StoreMemory ρ) (activity : Activity ρ) : CatalogStore ρ :=
  s.withMemory { memory with activity }

def answer (s : CatalogStore ρ) (number : ℕ) (answer : CommitAnswer ρ) : CatalogStore ρ :=
  { s with answers := s.answers ++ [(number, answer)] }

def record (s : CatalogStore ρ) (entry : HistoryEntry ρ) : CatalogStore ρ :=
  { s with history := s.history ++ [entry] }

def blockUntilRestart (s : CatalogStore ρ) (memory : StoreMemory ρ) (number : ℕ) :
    CatalogStore ρ :=
  (s.withMemory { memory with activity := .idle, blocked := true }).answer number .uncertain

/-! ## Mutations and commits -/

/-- Another mutation of the registry when the queue is free: its write is a single operation. -/
def mutate (s : CatalogStore ρ) (memory : StoreMemory ρ) (mutation : RegistryMutation ρ)
    (written : Bool) : Option (CatalogStore ρ) :=
  if memory.activity.inQueue then none
  else if memory.blocked then some s
  else
    match mutation.change memory.cache with
    | none => some s
    | some change =>
      if written then
        some <| record
          { s with
            files := { s.files with workspaces := change.apply memory.cache }
            memory := some { memory with cache := change.apply memory.cache } }
          (.mutated change)
      else some s

section Commit

variable (toLowerCase : String → String)

/-- A commit of the label service, which runs one at a time, up to its first file operation. -/
def commit (s : CatalogStore ρ) (memory : StoreMemory ρ) (request : LabelRequest) (now : String) :
    Option (CatalogStore ρ) :=
  let numbered := { s with started := s.started + 1 }
  match memory.activity with
  | .idle =>
    if !memory.loaded then none
    else if memory.blocked then some (numbered.answer s.started .uncertain)
    else
      match plan toLowerCase memory.state now request with
      | .error _ => some (numbered.goTo memory (.readFailed s.started))
      | .ok mutation =>
        if mutation.forcePersist memory.state then
          some <| numbered.goTo memory <| .writePrepared
            { number := s.started
              mutation
              transaction := transactionFor memory.state mutation
              staged := applyUpdates memory.cache mutation.workspaceUpdates }
        else some ((numbered.goTo memory (.cleanUp s.started mutation)).record
          (.committed s.started mutation))
  | _ => none

end Commit

/-- `commit` of the store and of the registry at their file operations. -/
def commitStep (s : CatalogStore ρ) (memory : StoreMemory ρ) (succeeds : Bool) :
    Option (CatalogStore ρ) :=
  match memory.activity with
  | .writePrepared commit =>
    if succeeds then
      some <| goTo { s with files.transaction := some (.prepared, commit.transaction) } memory
        (.writeCatalog commit)
    else some (s.goTo memory (.readFailed commit.number))
  | .writeCatalog commit =>
    if succeeds then
      some <| goTo { s with files.catalog := commit.mutation.labels } memory
        (if commit.mutation.workspaceUpdates.isEmpty then .writeCommitted commit
          else .writeWorkspaces commit)
    else some (s.goTo memory (.readFailed commit.number))
  | .writeWorkspaces commit =>
    if succeeds then
      some <| goTo { s with files.workspaces := commit.staged } memory (.writeCommitted commit)
    else some (s.goTo memory (.readFailed commit.number))
  | .writeCommitted commit =>
    if succeeds then
      some <| record
        { s with
          files.transaction := some (.committed, commit.transaction)
          memory := some
            { memory with
              cache := commit.staged
              labels := commit.mutation.labels
              activity := .cleanUp commit.number commit.mutation } }
        (.committed commit.number commit.mutation)
    else some (s.goTo memory (.readFailed commit.number))
  | .cleanUp number mutation =>
    some <| answer
      (goTo { s with files.transaction := if succeeds then none else s.files.transaction } memory
        .idle)
      number (.done mutation)
  | _ => none

/-! ## Recovery -/

/-- `resolveFailedCommit` at its read of the transaction. -/
def resolveFailedCommit (s : CatalogStore ρ) (memory : StoreMemory ρ) (number : ℕ)
    (succeeds : Bool) : CatalogStore ρ :=
  if succeeds then
    match s.files.transaction with
    | none => (s.goTo memory .idle).answer number .rejected
    | some (.committed, _) => s.blockUntilRestart memory number
    | some (.prepared, transaction) =>
      s.goTo memory (.awaitRecovery transaction (.failedCommit number))
  else s.blockUntilRestart memory number

/-- A file operation of a recovery has failed. -/
def recoveryFailed (s : CatalogStore ρ) (memory : StoreMemory ρ) : RecoveryCause → CatalogStore ρ
  | .failedCommit number => s.blockUntilRestart memory number
  | .restart => s.goTo memory .idle

/-- The transaction of a recovery is removed. -/
def recovered (s : CatalogStore ρ) (memory : StoreMemory ρ) (recovery : StagedRecovery ρ) :
    CatalogStore ρ :=
  let restored :=
    { memory with
      cache := recovery.staged
      labels := recovery.transaction.beforeLabels
      activity := .idle }
  let s := { s with files.transaction := none }.record (.rolledBack recovery.transaction)
  match recovery.cause with
  | .failedCommit number => (s.withMemory restored).answer number .rejected
  | .restart => s.withMemory { restored with loaded := true }

/-- `recover` of a prepared transaction. -/
def recoverStep (s : CatalogStore ρ) (memory : StoreMemory ρ) (succeeds : Bool) :
    Option (CatalogStore ρ) :=
  match memory.activity with
  | .readFailed number => some (s.resolveFailedCommit memory number succeeds)
  | .awaitRecovery transaction cause =>
    let updates := memory.state.restored transaction
    some <| s.goTo memory <| .restoreCatalog
      { transaction, cause, updates, staged := applyUpdates memory.cache updates }
  | .restoreCatalog recovery =>
    if succeeds then
      some <| goTo { s with files.catalog := recovery.transaction.beforeLabels } memory
        (if recovery.updates.isEmpty then .removePrepared recovery
          else .restoreWorkspaces recovery)
    else some (s.recoveryFailed memory recovery.cause)
  | .restoreWorkspaces recovery =>
    if succeeds then
      some <| goTo { s with files.workspaces := recovery.staged } memory
        (.removePrepared recovery)
    else some (s.recoveryFailed memory recovery.cause)
  | .removePrepared recovery =>
    if succeeds then some (s.recovered memory recovery)
    else some (s.recoveryFailed memory recovery.cause)
  | _ => none

/-- `loadAndRecover`. -/
def loadStep (s : CatalogStore ρ) (memory : StoreMemory ρ) (succeeds : Bool) :
    Option (CatalogStore ρ) :=
  match memory.activity with
  | .readTransaction =>
    if succeeds then
      match s.files.transaction with
      | none => some (s.goTo memory .readCatalog)
      | some (.committed, _) => some (s.goTo memory .readCommittedCatalog)
      | some (.prepared, transaction) =>
        some (s.goTo memory (.awaitRecovery transaction .restart))
    else some (s.goTo memory .idle)
  | .readCatalog =>
    if succeeds then
      some <| s.withMemory
        { memory with labels := s.files.catalog, loaded := true, activity := .idle }
    else some (s.goTo memory .idle)
  | .readCommittedCatalog =>
    if succeeds then
      some <| s.withMemory { memory with labels := s.files.catalog, activity := .removeCommitted }
    else some (s.goTo memory .idle)
  | .removeCommitted =>
    some <| withMemory
      { s with files.transaction := if succeeds then none else s.files.transaction }
      { memory with loaded := true, activity := .idle }
  | _ => none

/-! ## Runs -/

/-- `initialize`, which reads the files unless they have been read. -/
def load (s : CatalogStore ρ) (memory : StoreMemory ρ) : Option (CatalogStore ρ) :=
  match memory.activity with
  | .idle => if memory.loaded then some s else some (s.goTo memory .readTransaction)
  | _ => none

/-- A process that has loaded the records of the registry. -/
def restart (s : CatalogStore ρ) : CatalogStore ρ :=
  s.withMemory
    { cache := s.files.workspaces
      labels := []
      loaded := false
      blocked := false
      activity := .idle }

section Run

variable (toLowerCase : String → String)

def step (s : CatalogStore ρ) : StoreEvent ρ → Option (CatalogStore ρ)
  | .mutate mutation written => s.memory.bind fun memory => s.mutate memory mutation written
  | .commit request now => s.memory.bind fun memory => s.commit toLowerCase memory request now
  | .load => s.memory.bind fun memory => s.load memory
  | .proceed succeeds => s.memory.bind fun memory =>
      ((s.commitStep memory succeeds).or (s.recoverStep memory succeeds)).or
        (s.loadStep memory succeeds)
  | .crash => some { s with memory := none }
  | .restart => if s.memory.isNone then some s.restart else none

def run (s : CatalogStore ρ) : List (StoreEvent ρ) → Option (CatalogStore ρ)
  | [] => some s
  | event :: events => (s.step toLowerCase event).bind fun s' => run s' events

end Run

end CatalogStore

end Orqara.Labels
