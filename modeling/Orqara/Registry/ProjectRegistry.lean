import Orqara.Registry.SerialMutations

/-!
# The registry of projects

A registry in a file whose `getOrCreateActiveByRoot` looks a project up by its root and then writes
it. Allocations wait for each other, mutations wait for each other, and what an allocation writes is
queued with the mutations of other callers. Steps are the pieces of code between two awaits.
-/

namespace Orqara.Registry

inductive PersistedProjectKind
  | git | nonGit
  deriving DecidableEq, Repr

structure PersistedProjectRecord where
  projectId : String
  rootPath : String
  kind : PersistedProjectKind
  displayName : String
  projectKey : Option String
  customName : Option String
  customIconRevision : Option String
  createdAt : String
  updatedAt : String
  archivedAt : Option String
  deriving DecidableEq, Repr

/-- Whether `archivedAt` is truthy. -/
def PersistedProjectRecord.isArchived (project : PersistedProjectRecord) : Bool :=
  project.archivedAt.any (· ≠ "")

def projectSchema : RecordSchema String PersistedProjectRecord where
  getId := PersistedProjectRecord.projectId
  archived project archivedAt := some { project with updatedAt := archivedAt, archivedAt }

abbrev ProjectRecords := OrderedMap String PersistedProjectRecord

/-- The argument of `getOrCreateActiveByRoot`. -/
structure AllocationInput where
  rootPath : String
  kind : PersistedProjectKind
  displayName : String
  projectKey : Option String
  timestamp : String
  deriving DecidableEq

/-- What a lookup takes from the platform. -/
structure ProjectLookup where
  areEquivalentPaths : String → String → Bool
  /-- whether a project comes first, by the time of `createdAt` and then by the id -/
  isOlder : PersistedProjectRecord → PersistedProjectRecord → Bool

/-! ## Mutations -/

inductive ProjectMutation
  | upsert (record : PersistedProjectRecord)
  /-- an updater that throws, or whose result the schema refuses, gives nothing -/
  | update (projectId : String) (updater : PersistedProjectRecord → Option PersistedProjectRecord)
  | archive (projectId : String) (archivedAt : String)
  | remove (projectId : String)

/-- A project that is archived already stays as it is. -/
def archiveIfActive (records : ProjectRecords) (projectId archivedAt : String) :
    Staged String PersistedProjectRecord :=
  match records.get projectId with
  | none => .unchanged
  | some existing =>
    if existing.isArchived then .unchanged
    else .changed (records.set projectId
      { existing with updatedAt := archivedAt, archivedAt := some archivedAt })

def ProjectMutation.stage (records : ProjectRecords) :
    ProjectMutation → Staged String PersistedProjectRecord
  | .upsert record => .changed (records.set record.projectId record)
  | .update projectId updater => stageUpdate records projectId updater
  | .archive projectId archivedAt => archiveIfActive records projectId archivedAt
  | .remove projectId =>
    match records.get projectId with
    | none => .unchanged
    | some _ => .changed (records.delete projectId)

structure QueuedMutation where
  mutation : ProjectMutation
  /-- whether an allocation awaits it -/
  allocates : Bool

/-! ## Allocations -/

/-- The projects of a root that are not archived. -/
def activeProjects (lookup : ProjectLookup) (records : ProjectRecords) (rootPath : String) :
    List PersistedProjectRecord :=
  (records.entries.map Prod.snd).filter fun project =>
    !project.isArchived && lookup.areEquivalentPaths project.rootPath rootPath

def findActive (lookup : ProjectLookup) (records : ProjectRecords) (rootPath : String) :
    Option PersistedProjectRecord :=
  ((activeProjects lookup records rootPath).insertionSort (lookup.isOlder · ·)).head?

def refreshed (active : PersistedProjectRecord) (input : AllocationInput) : PersistedProjectRecord :=
  { active with kind := input.kind, projectKey := input.projectKey, updatedAt := input.timestamp }

def created (projectId : String) (input : AllocationInput) : PersistedProjectRecord where
  projectId := projectId
  rootPath := input.rootPath
  kind := input.kind
  displayName := input.displayName
  projectKey := input.projectKey
  customName := none
  customIconRevision := none
  createdAt := input.timestamp
  updatedAt := input.timestamp
  archivedAt := none

/-- What an allocation writes, with what its lookup found. -/
inductive AllocationWrite
  | refresh (active : PersistedProjectRecord)
  | create (projectId : String)

def AllocationWrite.record (write : AllocationWrite) (input : AllocationInput) :
    PersistedProjectRecord :=
  match write with
  | .refresh active => refreshed active input
  | .create projectId => created projectId input

/-- What an allocation awaits. -/
inductive AllocationPhase
  | listing
  /-- no active project was found, and it is looked whether a new id is taken -/
  | checking (projectId : String)
  | upserting (write : AllocationWrite)
  /-- the listeners, with what is returned; nothing if the write was rejected -/
  | returning (result : Option PersistedProjectRecord)

/-- The write that an allocation awaits has settled. -/
def AllocationPhase.settled (input : AllocationInput) (succeeds : Bool) :
    AllocationPhase → AllocationPhase
  | .upserting write => .returning (if succeeds then some (write.record input) else none)
  | phase => phase

/-! ## The registry -/

structure ProjectRegistry where
  file : FileContent PersistedProjectRecord
  cache : ProjectRecords
  loaded : Bool
  loads : List (Load PersistedProjectRecord)
  mutationQueue : List QueuedMutation
  running : Option (QueuedMutation × Phase String PersistedProjectRecord)
  allocationQueue : List AllocationInput
  allocating : Option (AllocationInput × AllocationPhase)
  allocated : List (AllocationInput × Option PersistedProjectRecord)

inductive ProjectEvent
  /-- `list`, `get` or `initialize` is called -/
  | read
  /-- `upsert`, `update`, `archive` or `remove` is called -/
  | mutate (mutation : ProjectMutation)
  /-- `getOrCreateActiveByRoot` is called -/
  | allocate (input : AllocationInput)
  /-- the first allocation of the queue is let go and lists the projects -/
  | beginAllocation
  /-- it resumes with the list; the id is made if no project is found -/
  | lookup (projectId : String)
  /-- it resumes with the project of the id that it tries; the next one is made if that is taken -/
  | check (nextId : String)
  /-- it returns -/
  | release
  /-- the first mutation of the queue is let go and loads -/
  | begin
  /-- the file is read for a load -/
  | capture (i : ℕ)
  /-- a load resumes with what it has read -/
  | finish (i : ℕ)
  /-- the mutation that runs stages its change -/
  | stage
  /-- its write lands, or fails -/
  | write (succeeds : Bool)
  /-- its write is resumed from -/
  | commit

namespace ProjectRegistry

def onDisk (file : FileContent PersistedProjectRecord) : ProjectRegistry where
  file := file
  cache := ∅
  loaded := false
  loads := []
  mutationQueue := []
  running := none
  allocationQueue := []
  allocating := none
  allocated := []

/-- The part of `load` before its await. -/
def startLoad (s : ProjectRegistry) (forMutation : Bool) : ProjectRegistry :=
  if s.loaded then s
  else { s with cache := ∅, loads := s.loads ++ [⟨none, forMutation⟩] }

/-- The part of `load` after its await. -/
def finishLoad (s : ProjectRegistry) (content : FileContent PersistedProjectRecord) :
    ProjectRegistry :=
  { s with cache := setAll projectSchema s.cache content.parsed, loaded := true }

/-- The mutation that runs settles and lets the next one go. -/
def settle (s : ProjectRegistry) (queued : QueuedMutation) (succeeds : Bool) : ProjectRegistry :=
  { s with
    running := none
    allocating :=
      if queued.allocates then s.allocating.map fun (input, phase) =>
        (input, phase.settled input succeeds)
      else s.allocating }

/-- The allocation queues what it writes. -/
def upsertAllocated (s : ProjectRegistry) (input : AllocationInput) (write : AllocationWrite) :
    ProjectRegistry :=
  { s with
    mutationQueue := s.mutationQueue ++ [⟨.upsert (write.record input), true⟩]
    allocating := some (input, .upserting write) }

def beginAllocation (s : ProjectRegistry) : Option ProjectRegistry :=
  match s.allocating, s.allocationQueue with
  | none, input :: queue =>
    some { s.startLoad false with allocationQueue := queue, allocating := some (input, .listing) }
  | _, _ => none

def lookUp (lookup : ProjectLookup) (s : ProjectRegistry) (projectId : String) :
    Option ProjectRegistry :=
  match s.allocating with
  | some (input, .listing) =>
    if s.loaded then
      match findActive lookup s.cache input.rootPath with
      | some active =>
        if active.kind = input.kind ∧ active.projectKey = input.projectKey then
          some { s with allocating := some (input, .returning (some active)) }
        else some (s.upsertAllocated input (.refresh active))
      | none => some { s with allocating := some (input, .checking projectId) }
    else none
  | _ => none

def check (s : ProjectRegistry) (nextId : String) : Option ProjectRegistry :=
  match s.allocating with
  | some (input, .checking projectId) =>
    if (s.cache.get projectId).isSome then
      some { s with allocating := some (input, .checking nextId) }
    else some (s.upsertAllocated input (.create projectId))
  | _ => none

def release (s : ProjectRegistry) : Option ProjectRegistry :=
  match s.allocating with
  | some (input, .returning result) =>
    some { s with allocating := none, allocated := s.allocated ++ [(input, result)] }
  | _ => none

def begin (s : ProjectRegistry) : Option ProjectRegistry :=
  match s.running, s.mutationQueue with
  | none, queued :: queue =>
    some { s.startLoad true with
      mutationQueue := queue
      running := some (queued, if s.loaded then .loaded else .loading) }
  | _, _ => none

def capture (s : ProjectRegistry) (i : ℕ) : Option ProjectRegistry :=
  s.loads[i]?.bind fun load =>
    if load.content.isNone then
      some { s with loads := s.loads.set i { load with content := some s.file } }
    else none

def finish (s : ProjectRegistry) (i : ℕ) : Option ProjectRegistry :=
  s.loads[i]?.bind fun load => load.content.map fun content =>
    { s.finishLoad content with
      loads := s.loads.eraseIdx i
      running :=
        if load.forMutation then s.running.map fun run => (run.1, run.2.resumed) else s.running }

def stage (s : ProjectRegistry) : Option ProjectRegistry :=
  match s.running with
  | some (queued, .loaded) =>
    match queued.mutation.stage s.cache with
    | .throws => some (s.settle queued false)
    | .unchanged => some (s.settle queued true)
    | .changed staged => some { s with running := some (queued, .writing staged) }
  | _ => none

def write (s : ProjectRegistry) (succeeds : Bool) : Option ProjectRegistry :=
  match s.running with
  | some (queued, .writing staged) =>
    if succeeds then some { s with file := .ofMap staged, running := some (queued, .written staged) }
    else some (s.settle queued false)
  | _ => none

def commit (s : ProjectRegistry) : Option ProjectRegistry :=
  match s.running with
  | some (queued, .written staged) => some { s.settle queued true with cache := staged }
  | _ => none

def step (lookup : ProjectLookup) (s : ProjectRegistry) : ProjectEvent → Option ProjectRegistry
  | .read => some (s.startLoad false)
  | .mutate mutation => some { s with mutationQueue := s.mutationQueue ++ [⟨mutation, false⟩] }
  | .allocate input => some { s with allocationQueue := s.allocationQueue ++ [input] }
  | .beginAllocation => s.beginAllocation
  | .lookup projectId => s.lookUp lookup projectId
  | .check nextId => s.check nextId
  | .release => s.release
  | .begin => s.begin
  | .capture i => s.capture i
  | .finish i => s.finish i
  | .stage => s.stage
  | .write succeeds => s.write succeeds
  | .commit => s.commit

def run (lookup : ProjectLookup) (s : ProjectRegistry) :
    List ProjectEvent → Option ProjectRegistry
  | [] => some s
  | event :: events => (s.step lookup event).bind fun s' => s'.run lookup events

end ProjectRegistry

end Orqara.Registry
