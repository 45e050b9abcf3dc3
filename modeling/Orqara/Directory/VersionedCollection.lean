import Orqara.Library.OrderedMap

/-!
# The versioned collection

The latest value of every entity of a directory with the sequence number of its last change,
the tombstones of removed ones, and what a client that is behind is sent.
-/

namespace Orqara.Directory

structure VersionedValue (α : Type*) where
  seq : ℕ
  value : α

structure VersionedRemoval where
  id : String
  seq : ℕ
  deriving DecidableEq

inductive ReadMode
  | changes | snapshot
  deriving DecidableEq, Repr

inductive ReadReason
  | noCursor | generationChanged | cursorExpired
  deriving DecidableEq, Repr

structure CollectionRead (α : Type*) where
  mode : ReadMode
  reason : Option ReadReason
  headSeq : ℕ
  values : List (VersionedValue α)
  removals : List VersionedRemoval

inductive PublishedChange (α : Type*)
  | upsert (seq : ℕ) (value : α)
  | remove (seq : ℕ) (id : String)

def PublishedChange.seq {α : Type*} : PublishedChange α → ℕ
  | .upsert seq _ => seq
  | .remove seq _ => seq

structure StoredValue (α : Type*) where
  seq : ℕ
  fingerprint : String
  value : α

/-- A collection, with the changes that it published and the tombstones that it dropped. -/
structure VersionedCollection (α : Type*) where
  valuesById : OrderedMap String (StoredValue α)
  tombstonesById : OrderedMap String ℕ
  maxTombstones : ℕ
  expiredThroughSeq : ℕ
  nextSeq : ℕ
  published : List (PublishedChange α)
  dropped : List VersionedRemoval

inductive CollectionOp (α : Type*)
  | replace (value : α)
  | remove (id : String)
  | replaceAll (values : List α)

namespace VersionedCollection

variable {α : Type*} (getId fingerprint : α → String)

def start (maxTombstones : ℕ) : VersionedCollection α where
  valuesById := ∅
  tombstonesById := ∅
  maxTombstones := maxTombstones
  expiredThroughSeq := 0
  nextSeq := 0
  published := []
  dropped := []

def headSeq (c : VersionedCollection α) : ℕ := c.nextSeq

def replace (c : VersionedCollection α) (value : α) : VersionedCollection α :=
  let id := getId value
  if (c.valuesById.get id).map (·.fingerprint) = some (fingerprint value) then c
  else
    let seq := c.nextSeq + 1
    { c with
      nextSeq := seq
      valuesById := c.valuesById.set id { seq, fingerprint := fingerprint value, value }
      tombstonesById := c.tombstonesById.delete id
      published := c.published ++ [PublishedChange.upsert seq value] }

/-- The tombstones in insertion order are those of ascending age. -/
def dropOldest (c : VersionedCollection α) : VersionedCollection α :=
  match c.tombstonesById.entries with
  | [] => c
  | (id, seq) :: _ =>
    { c with
      tombstonesById := c.tombstonesById.delete id
      expiredThroughSeq := max c.expiredThroughSeq seq
      dropped := c.dropped ++ [{ id, seq }] }

/-- The loop of `trimTombstones`, of at most as many turns as there are tombstones. -/
def trimLoop : ℕ → VersionedCollection α → VersionedCollection α
  | 0, c => c
  | fuel + 1, c =>
    if c.maxTombstones < c.tombstonesById.size then trimLoop fuel c.dropOldest else c

def trimTombstones (c : VersionedCollection α) : VersionedCollection α :=
  trimLoop c.tombstonesById.size c

def remove (c : VersionedCollection α) (id : String) : VersionedCollection α :=
  let hasValue := (c.valuesById.get id).isSome
  let hasTombstone := (c.tombstonesById.get id).isSome
  if !hasValue && hasTombstone then c
  else if !hasValue && !hasTombstone then c
  else
    let seq := c.nextSeq + 1
    { c with
      nextSeq := seq
      valuesById := c.valuesById.delete id
      tombstonesById := (c.tombstonesById.delete id).set id seq
      published := c.published ++ [PublishedChange.remove seq id] }.trimTombstones

/-- Keys that are deleted in the loop over them are not visited again. -/
def replaceAll (c : VersionedCollection α) (values : List α) : VersionedCollection α :=
  let retainedIds := values.map getId
  let replaced := values.foldl (replace getId fingerprint) c
  replaced.valuesById.keys.foldl (fun c id => if id ∈ retainedIds then c else c.remove id) replaced

def apply (c : VersionedCollection α) : CollectionOp α → VersionedCollection α
  | .replace value => c.replace getId fingerprint value
  | .remove id => c.remove id
  | .replaceAll values => c.replaceAll getId fingerprint values

def run (c : VersionedCollection α) (ops : List (CollectionOp α)) : VersionedCollection α :=
  ops.foldl (apply getId fingerprint) c

/-- `localeLE` is the order of ids under `localeCompare`. -/
def sortedValues (c : VersionedCollection α) (localeLE : String → String → Bool) :
    List (VersionedValue α) :=
  (c.valuesById.entries.map fun entry => { seq := entry.2.seq, value := entry.2.value }).mergeSort
    fun left right =>
      left.seq < right.seq ||
        (left.seq = right.seq && localeLE (getId left.value) (getId right.value))

def readSnapshot (c : VersionedCollection α) (localeLE : String → String → Bool)
    (reason : ReadReason) : CollectionRead α where
  mode := .snapshot
  reason := some reason
  headSeq := c.headSeq
  values := c.sortedValues getId localeLE
  removals := []

def readAfter (c : VersionedCollection α) (localeLE : String → String → Bool) (afterSeq : ℕ) :
    CollectionRead α :=
  if afterSeq < c.expiredThroughSeq ∨ c.headSeq < afterSeq then
    c.readSnapshot getId localeLE .cursorExpired
  else
    { mode := .changes
      reason := none
      headSeq := c.headSeq
      values := (c.sortedValues getId localeLE).filter fun entry => afterSeq < entry.seq
      removals :=
        ((c.tombstonesById.entries.map fun entry => { id := entry.1, seq := entry.2 }).filter
          fun entry => afterSeq < entry.seq).mergeSort
          fun left right =>
            left.seq < right.seq || (left.seq = right.seq && localeLE left.id right.id) }

/-- The latest values by id. -/
def state (c : VersionedCollection α) : String → Option α :=
  fun id => (c.valuesById.get id).map (·.value)

end VersionedCollection

end Orqara.Directory
