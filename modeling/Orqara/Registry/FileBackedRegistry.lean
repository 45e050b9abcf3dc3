import Orqara.Library.OrderedMap

/-!
# A registry of records kept in one file

Reads and mutations load the file when nothing is loaded yet, and a load clears the records
before it awaits the file. Mutations run one at a time: each waits for the one before it, loads,
stages its change on a copy of the records, writes the copy, and puts it in place. Steps of the
model are the pieces of code between two awaits.
-/

namespace Orqara.Registry

variable {κ α : Type*} [DecidableEq κ]

/-- What a registry knows about its records. -/
structure RecordSchema (κ α : Type*) where
  getId : α → κ
  /-- the record with `updatedAt` and `archivedAt` set, unless the schema refuses it -/
  archived : α → String → Option α

/-- The file: an entry that the schema refuses is `none`. -/
inductive FileContent (α : Type*)
  | absent
  /-- text that is not a JSON array -/
  | text
  | array (entries : List (Option α))
  deriving DecidableEq

namespace FileContent

/-- What parsing the whole array gives, nothing where it throws. -/
def parsed : FileContent α → List α
  | absent => []
  | text => []
  | array entries => (entries.mapM id).getD []

/-- The records that are there. -/
def records : FileContent α → List α
  | absent => []
  | text => []
  | array entries => entries.filterMap id

/-- The file that the records of a map are written to. -/
def ofMap (records : OrderedMap κ α) : FileContent α :=
  .array (records.entries.map fun entry => some entry.2)

end FileContent

/-- The records set one after the other under their ids. -/
def setAll (schema : RecordSchema κ α) (cache : OrderedMap κ α) (records : List α) :
    OrderedMap κ α :=
  records.foldl (fun cache record => cache.set (schema.getId record) record) cache

def ofRecords (schema : RecordSchema κ α) (records : List α) : OrderedMap κ α :=
  setAll schema ∅ records

/-! ## Mutations -/

inductive Mutation (κ α : Type*)
  | upsert (record : α)
  /-- an updater that throws, or whose result the schema refuses, gives nothing -/
  | update (id : κ) (updater : α → Option α)
  | archive (id : κ) (archivedAt : String)
  | remove (id : κ)

/-- What comes of the updater that a mutation runs on a copy of the records. -/
inductive Staged (κ α : Type*)
  | throws
  /-- no record was set or deleted -/
  | unchanged
  | changed (records : OrderedMap κ α)

/-- Setting the record under an id to what is made of it. -/
def stageUpdate (records : OrderedMap κ α) (id : κ) (updater : α → Option α) : Staged κ α :=
  match records.get id with
  | none => .unchanged
  | some existing =>
    match updater existing with
    | none => .throws
    | some next => .changed (records.set id next)

def Mutation.stage (schema : RecordSchema κ α) (records : OrderedMap κ α) :
    Mutation κ α → Staged κ α
  | .upsert record => .changed (records.set (schema.getId record) record)
  | .update id updater => stageUpdate records id updater
  | .archive id archivedAt => stageUpdate records id fun record => schema.archived record archivedAt
  | .remove id =>
    match records.get id with
    | none => .unchanged
    | some _ => .changed (records.delete id)

/-- What a mutation makes of the records. -/
def Mutation.apply (schema : RecordSchema κ α) (records : OrderedMap κ α) (mutation : Mutation κ α) :
    OrderedMap κ α :=
  match mutation.stage schema records with
  | .throws => records
  | .unchanged => records
  | .changed staged => staged

/-! ## The registry -/

/-- A read of the file on its way, with what it has read. -/
structure Load (α : Type*) where
  content : Option (FileContent α)
  /-- whether the mutation that runs awaits it -/
  forMutation : Bool

/-- Where the mutation that runs is. -/
inductive Phase (κ α : Type*)
  | loading
  | loaded
  | writing (staged : OrderedMap κ α)
  /-- the file is in place, and the write has not been resumed from yet -/
  | written (staged : OrderedMap κ α)

/-- The await of a load is over. -/
def Phase.resumed : Phase κ α → Phase κ α
  | .loading => .loaded
  | phase => phase

inductive Answer
  | rejected
  | unchanged
  | committed
  deriving DecidableEq

structure FileBackedRegistry (κ α : Type*) where
  file : FileContent α
  cache : OrderedMap κ α
  loaded : Bool
  mutationsBlockedUntilRestart : Bool
  loads : List (Load α)
  mutationQueue : List (Mutation κ α)
  running : Option (Mutation κ α × Phase κ α)
  /-- the mutations that have settled, in the order in which they did -/
  answered : List (Mutation κ α × Answer)

inductive Event (κ α : Type*)
  /-- `list`, `get` or `initialize` is called -/
  | read
  /-- `upsert`, `update`, `archive` or `remove` is called -/
  | mutate (mutation : Mutation κ α)
  /-- the first mutation of the queue is let go and loads -/
  | begin
  /-- the file is read for a load -/
  | capture (i : ℕ)
  /-- a load resumes with what it has read -/
  | finish (i : ℕ)
  /-- the mutation that runs stages its change -/
  | stage
  /-- its write lands, or fails -/
  | write (succeeds : Bool)
  /-- its write is resumed from -/
  | commit
  | freeze

namespace FileBackedRegistry

def onDisk (file : FileContent α) : FileBackedRegistry κ α where
  file := file
  cache := ∅
  loaded := false
  mutationsBlockedUntilRestart := false
  loads := []
  mutationQueue := []
  running := none
  answered := []

/-- The part of `load` before its await. -/
def startLoad (s : FileBackedRegistry κ α) (forMutation : Bool) : FileBackedRegistry κ α :=
  if s.loaded then s
  else { s with cache := ∅, loads := s.loads ++ [⟨none, forMutation⟩] }

/-- The part of `load` after its await. -/
def finishLoad (schema : RecordSchema κ α) (s : FileBackedRegistry κ α) (content : FileContent α) :
    FileBackedRegistry κ α :=
  { s with cache := setAll schema s.cache content.parsed, loaded := true }

/-- The mutation that runs settles and lets the next one go. -/
def settle (s : FileBackedRegistry κ α) (mutation : Mutation κ α) (answer : Answer) :
    FileBackedRegistry κ α :=
  { s with running := none, answered := s.answered ++ [(mutation, answer)] }

def begin (s : FileBackedRegistry κ α) : Option (FileBackedRegistry κ α) :=
  match s.running, s.mutationQueue with
  | none, mutation :: queue =>
    some <| { s.startLoad true with
      mutationQueue := queue
      running := some (mutation, if s.loaded then .loaded else .loading) }
  | _, _ => none

def capture (s : FileBackedRegistry κ α) (i : ℕ) : Option (FileBackedRegistry κ α) :=
  s.loads[i]?.bind fun load =>
    if load.content.isNone then
      some { s with loads := s.loads.set i { load with content := some s.file } }
    else none

def finish (schema : RecordSchema κ α) (s : FileBackedRegistry κ α) (i : ℕ) :
    Option (FileBackedRegistry κ α) :=
  s.loads[i]?.bind fun load => load.content.map fun content =>
    { s.finishLoad schema content with
      loads := s.loads.eraseIdx i
      running :=
        if load.forMutation then s.running.map fun run => (run.1, run.2.resumed) else s.running }

def stage (schema : RecordSchema κ α) (s : FileBackedRegistry κ α) :
    Option (FileBackedRegistry κ α) :=
  match s.running with
  | some (mutation, .loaded) =>
    if s.mutationsBlockedUntilRestart then some (s.settle mutation .rejected)
    else
      match mutation.stage schema s.cache with
      | .throws => some (s.settle mutation .rejected)
      | .unchanged => some (s.settle mutation .unchanged)
      | .changed staged => some { s with running := some (mutation, .writing staged) }
  | _ => none

def write (s : FileBackedRegistry κ α) (succeeds : Bool) : Option (FileBackedRegistry κ α) :=
  match s.running with
  | some (mutation, .writing staged) =>
    if succeeds then
      some { s with file := .ofMap staged, running := some (mutation, .written staged) }
    else some (s.settle mutation .rejected)
  | _ => none

def commit (s : FileBackedRegistry κ α) : Option (FileBackedRegistry κ α) :=
  match s.running with
  | some (mutation, .written staged) => some { s.settle mutation .committed with cache := staged }
  | _ => none

def step (schema : RecordSchema κ α) (s : FileBackedRegistry κ α) :
    Event κ α → Option (FileBackedRegistry κ α)
  | .read => some (s.startLoad false)
  | .mutate mutation => some { s with mutationQueue := s.mutationQueue ++ [mutation] }
  | .begin => s.begin
  | .capture i => s.capture i
  | .finish i => s.finish schema i
  | .stage => s.stage schema
  | .write succeeds => s.write succeeds
  | .commit => s.commit
  | .freeze => some { s with mutationsBlockedUntilRestart := true }

def run (schema : RecordSchema κ α) (s : FileBackedRegistry κ α) :
    List (Event κ α) → Option (FileBackedRegistry κ α)
  | [] => some s
  | event :: events => (s.step schema event).bind fun s' => s'.run schema events

def Settled (s : FileBackedRegistry κ α) : Prop :=
  s.running = none ∧ s.mutationQueue = [] ∧ s.loads = []

def resolved (s : FileBackedRegistry κ α) : List (Mutation κ α) :=
  (s.answered.filter fun answer => answer.2 ≠ .rejected).map Prod.fst

end FileBackedRegistry

end Orqara.Registry
