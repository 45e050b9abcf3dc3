import Orqara.Labels.LabelService

/-!
# The sequence of label changes

The service numbers the changes that it publishes and keeps the last of them in a journal, from
which a client that was away is brought up to date. Where the journal does not reach back far
enough the client gets the whole catalog.
-/

namespace Orqara.Labels

/-! ## The journal -/

structure SequencedChange where
  seq : ℕ
  change : WorkspaceLabelChange
  deriving DecidableEq

structure WorkspaceLabelCursor where
  generation : String
  afterSeq : ℕ
  deriving DecidableEq

structure WorkspaceLabelSequence where
  generation : String
  journalLimit : ℕ
  headSeq : ℕ
  journal : List SequencedChange
  deriving DecidableEq

/-- The sequence of a service that has just started. -/
def WorkspaceLabelSequence.start (generation : String) (journalLimit : ℕ) :
    WorkspaceLabelSequence where
  generation := generation
  journalLimit := journalLimit
  headSeq := 0
  journal := []

inductive SyncMode
  | snapshot | changes
  deriving DecidableEq, Repr

structure LabelRemoval where
  name : String
  seq : ℕ
  deriving DecidableEq

structure WorkspaceLabelSync where
  labels : List WorkspaceLabelDefinition
  mode : SyncMode
  generation : String
  headSeq : ℕ
  removals : List LabelRemoval
  deriving DecidableEq

/-- The changes that a client has missed, as labels to set and labels to remove. -/
structure MissedChanges where
  upserts : OrderedMap String WorkspaceLabelDefinition
  removals : OrderedMap String LabelRemoval

namespace MissedChanges

def empty : MissedChanges where
  upserts := ∅
  removals := ∅

/-- A label that is gone: one that was upserted meanwhile is taken to have been created
meanwhile, and is not reported. -/
def drop (changes : MissedChanges) (key : String) (removal : LabelRemoval) : MissedChanges where
  upserts := changes.upserts.delete key
  removals :=
    if (changes.upserts.get key).isSome then changes.removals
    else changes.removals.set key removal

def put (changes : MissedChanges) (key : String) (label : WorkspaceLabelDefinition) :
    MissedChanges where
  upserts := changes.upserts.set key label
  removals := changes.removals.delete key

variable (toLowerCase : String → String)

def add (changes : MissedChanges) (entry : SequencedChange) : MissedChanges :=
  match entry.change with
  | .remove name => changes.drop (toLowerCase name) { name, seq := entry.seq }
  | .upsert label previousName =>
    ((previousName.filter (· ≠ "")).elim changes fun name =>
      changes.drop (toLowerCase name) { name, seq := entry.seq }).put
        (toLowerCase label.name) label

end MissedChanges

namespace WorkspaceLabelSequence

def publish (sequence : WorkspaceLabelSequence) (change : WorkspaceLabelChange) :
    WorkspaceLabelSequence :=
  let journal := sequence.journal ++ [{ seq := sequence.headSeq + 1, change }]
  { sequence with
    headSeq := sequence.headSeq + 1
    journal := if journal.length > sequence.journalLimit then journal.tail else journal }

def oldestSeq (sequence : WorkspaceLabelSequence) : ℕ :=
  (sequence.journal.head?.map (·.seq)).getD (sequence.headSeq + 1)

/-- Whether the journal has every change after a cursor. -/
def canCatchUp (sequence : WorkspaceLabelSequence) (cursor : Option WorkspaceLabelCursor) : Bool :=
  cursor.any fun cursor =>
    cursor.generation = sequence.generation && cursor.afterSeq ≤ sequence.headSeq &&
      sequence.oldestSeq ≤ cursor.afterSeq + 1

variable (toLowerCase : String → String)

def synchronize (sequence : WorkspaceLabelSequence) (catalog : List WorkspaceLabelDefinition)
    (cursor : Option WorkspaceLabelCursor) : WorkspaceLabelSync :=
  if sequence.canCatchUp cursor then
    let missed := (sequence.journal.filter fun entry =>
      cursor.any fun cursor => entry.seq > cursor.afterSeq).foldl
        (MissedChanges.add toLowerCase) .empty
    { labels := missed.upserts.entries.map Prod.snd
      mode := .changes
      generation := sequence.generation
      headSeq := sequence.headSeq
      removals := missed.removals.entries.map Prod.snd }
  else
    { labels := catalog
      mode := .snapshot
      generation := sequence.generation
      headSeq := sequence.headSeq
      removals := [] }

end WorkspaceLabelSequence

/-! ## A client's copy -/

/-- The update that a subscriber gets for a change. -/
structure WorkspaceLabelUpdate where
  change : WorkspaceLabelChange
  generation : String
  seq : ℕ
  deriving DecidableEq

structure HostWorkspaceLabelReplica where
  labels : OrderedMap String WorkspaceLabelDefinition
  cursor : Option WorkspaceLabelCursor

namespace HostWorkspaceLabelReplica

variable (toLowerCase : String → String)

def setLabel (labels : OrderedMap String WorkspaceLabelDefinition)
    (label : WorkspaceLabelDefinition) : OrderedMap String WorkspaceLabelDefinition :=
  labels.set (workspaceLabelKey toLowerCase label.name) label

def deleteLabel (labels : OrderedMap String WorkspaceLabelDefinition) (name : String) :
    OrderedMap String WorkspaceLabelDefinition :=
  labels.delete (workspaceLabelKey toLowerCase name)

def applyList (replica : HostWorkspaceLabelReplica) (payload : WorkspaceLabelSync) :
    HostWorkspaceLabelReplica where
  labels :=
    payload.labels.foldl (setLabel toLowerCase)
      ((payload.removals.map (·.name)).foldl (deleteLabel toLowerCase)
        (if payload.mode = .snapshot then ∅ else replica.labels))
  cursor := some { generation := payload.generation, afterSeq := payload.headSeq }

def applyChange (labels : OrderedMap String WorkspaceLabelDefinition) :
    WorkspaceLabelChange → OrderedMap String WorkspaceLabelDefinition
  | .remove name => deleteLabel toLowerCase labels name
  | .upsert label previousName =>
    setLabel toLowerCase
      ((previousName.filter (· ≠ "")).elim labels (deleteLabel toLowerCase labels)) label

/-- The new copy, and whether the update was the next one. -/
def applyUpdate (replica : HostWorkspaceLabelReplica) (update : WorkspaceLabelUpdate) :
    HostWorkspaceLabelReplica × Bool :=
  if replica.cursor.any fun cursor =>
      update.generation = cursor.generation && update.seq = cursor.afterSeq + 1 then
    ({ labels := applyChange toLowerCase replica.labels update.change
       cursor := some { generation := update.generation, afterSeq := update.seq } }, true)
  else (replica, false)

end HostWorkspaceLabelReplica

/-! ## The service with its sequence -/

structure WorkspaceLabelService (ρ : Type) where
  state : LabelState ρ
  sequence : WorkspaceLabelSequence

/-- The change that an operation publishes. -/
def LabelAnswer.published : LabelAnswer → Option WorkspaceLabelChange
  | .done change => change
  | .refused _ | .failed => none

namespace WorkspaceLabelService

variable {ρ : Type} (toLowerCase : String → String)

/-- An operation, and the update that the subscribers get. -/
def step (service : WorkspaceLabelService ρ) (op : LabelOp ρ) :
    WorkspaceLabelService ρ × Option WorkspaceLabelUpdate :=
  let stepped := service.state.step toLowerCase op
  ({ state := stepped.1
     sequence := stepped.2.published.elim service.sequence service.sequence.publish },
   stepped.2.published.map fun change =>
    { change, generation := service.sequence.generation, seq := service.sequence.headSeq + 1 })

/-- A run of operations, with the updates that the subscribers get. -/
def run (service : WorkspaceLabelService ρ) :
    List (LabelOp ρ) → WorkspaceLabelService ρ × List WorkspaceLabelUpdate
  | [] => (service, [])
  | op :: ops =>
    let stepped := service.step toLowerCase op
    let rest := run stepped.1 ops
    (rest.1, stepped.2.toList ++ rest.2)

/-- The answer to a client that subscribes with a cursor. -/
def subscribe (service : WorkspaceLabelService ρ) (cursor : Option WorkspaceLabelCursor) :
    WorkspaceLabelSync :=
  service.sequence.synchronize toLowerCase service.state.catalog cursor

end WorkspaceLabelService

end Orqara.Labels
