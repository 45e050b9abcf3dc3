import Mathlib

/-!
# Transactions over a directory replica

A refresh of a directory replica fetches pages into a snapshot while live deltas keep coming in.
The owner of the transactions buffers the deltas of the connection that the current transaction
was begun on; whoever ends the transaction applies them.
-/

namespace Orqara.Directory

structure DirectorySourceToken where
  clientGeneration : ℕ
  connectionEpoch : ℕ
  deriving DecidableEq

/-- A transaction: objects are told apart by the number of transactions begun before them. -/
structure DirectoryTransaction (σ δ : Type*) where
  id : ℕ
  source : DirectorySourceToken
  snapshot : σ
  deltas : List δ

structure DirectoryTransactionOwner (σ δ : Type*) where
  current : Option (DirectoryTransaction σ δ)
  begun : ℕ

namespace DirectoryTransactionOwner

variable {σ δ : Type*} {owner owner' : DirectoryTransactionOwner σ δ}
  {source : DirectorySourceToken} {id : ℕ} {snapshot : σ} {deltas : List δ} {delta : δ}

def idle : DirectoryTransactionOwner σ δ := ⟨none, 0⟩

/-- The deltas that a transaction begun now takes over. -/
def carried (owner : DirectoryTransactionOwner σ δ) (source : DirectorySourceToken) : List δ :=
  match owner.current with
  | some current => if current.source = source then current.deltas else []
  | none => []

/-- The transaction begun has the number `begun` of the owner before. -/
def begin (owner : DirectoryTransactionOwner σ δ) (source : DirectorySourceToken) (snapshot : σ) :
    DirectoryTransactionOwner σ δ where
  current := some ⟨owner.begun, source, snapshot, owner.carried source⟩
  begun := owner.begun + 1

def record (owner : DirectoryTransactionOwner σ δ) (source : DirectorySourceToken) (delta : δ) :
    Option (DirectoryTransactionOwner σ δ) :=
  match owner.current with
  | some current =>
    if current.source = source then
      some { owner with current := some { current with deltas := current.deltas ++ [delta] } }
    else none
  | none => none

def isCurrent (owner : DirectoryTransactionOwner σ δ) (id : ℕ) : Bool :=
  owner.current.any fun current => current.id = id

/-- The snapshot and the deltas of a transaction that is current, none of one that is stale. -/
def complete (owner : DirectoryTransactionOwner σ δ) (id : ℕ) :
    Option (DirectoryTransactionOwner σ δ × σ × List δ) :=
  match owner.current with
  | some current =>
    if current.id = id then
      some ({ owner with current := none }, current.snapshot, current.deltas)
    else none
  | none => none

def fail (owner : DirectoryTransactionOwner σ δ) (id : ℕ) :
    Option (DirectoryTransactionOwner σ δ × List δ) :=
  (owner.complete id).map fun completion => (completion.1, completion.2.2)

def abort (owner : DirectoryTransactionOwner σ δ) : DirectoryTransactionOwner σ δ × List δ :=
  match owner.current with
  | none => (owner, [])
  | some current => ({ owner with current := none }, current.deltas)

/-- Writing to the snapshot of the current transaction. -/
def write (owner : DirectoryTransactionOwner σ δ) (f : σ → σ) : DirectoryTransactionOwner σ δ :=
  { owner with
    current := owner.current.map fun current => { current with snapshot := f current.snapshot } }

/-- The deltas that wait in the current transaction. -/
def buffered (owner : DirectoryTransactionOwner σ δ) : List δ :=
  match owner.current with
  | some current => current.deltas
  | none => []

/-- The current transaction was begun on a connection. -/
def On (owner : DirectoryTransactionOwner σ δ) (source : Option DirectorySourceToken) : Prop :=
  ∀ current ∈ owner.current, source = some current.source

theorem buffered_of_none (h : owner.current = none) : owner.buffered = [] := by
  simp only [buffered, h]

theorem carried_of_on (h : owner.On (some source)) : owner.carried source = owner.buffered := by
  unfold carried buffered
  cases hcurrent : owner.current with
  | none => rfl
  | some current => exact if_pos (Option.some.inj (h current hcurrent)).symm

theorem buffered_begin (h : owner.On (some source)) :
    (owner.begin source snapshot).buffered = owner.buffered := carried_of_on h

theorem on_begin : (owner.begin source snapshot).On (some source) := by
  intro current hcurrent
  rw [← Option.some.inj hcurrent]

theorem record_eq_some (h : owner.record source delta = some owner') :
    ∃ current, owner.current = some current ∧ current.source = source ∧
      owner' = { owner with
        current := some { current with deltas := current.deltas ++ [delta] } } := by
  unfold record at h
  split at h
  · next current hcurrent =>
    split at h
    · next hsource => exact ⟨current, hcurrent, hsource, (Option.some.inj h).symm⟩
    · cases h
  · cases h

/-- A delta that is not recorded finds no transaction of its connection. -/
theorem current_of_record_eq_none (hon : owner.On (some source))
    (h : owner.record source delta = none) : owner.current = none := by
  cases hcurrent : owner.current with
  | none => rfl
  | some current =>
    have hsource : current.source = source := (Option.some.inj (hon current hcurrent)).symm
    simp [record, hcurrent, hsource] at h

theorem complete_eq_some (h : owner.complete id = some (owner', snapshot, deltas)) :
    owner'.current = none ∧ deltas = owner.buffered := by
  unfold complete at h
  split at h
  · next current hcurrent =>
    split at h
    · injection h with h
      injection h with howner h
      injection h with _ hdeltas
      rw [← howner, ← hdeltas, buffered, hcurrent]
      exact ⟨rfl, rfl⟩
    · cases h
  · cases h

theorem complete_eq_none (h : owner.complete id = none) :
    ∀ current ∈ owner.current, current.id ≠ id := by
  intro current hcurrent hid
  have hcurrent : owner.current = some current := hcurrent
  simp [complete, hcurrent, hid] at h

theorem fail_eq_some (h : owner.fail id = some (owner', deltas)) :
    owner'.current = none ∧ deltas = owner.buffered := by
  obtain ⟨⟨other, snapshot, others⟩, hcomplete, heq⟩ := Option.map_eq_some_iff.mp h
  injection heq with howner hdeltas
  rw [← howner, ← hdeltas]
  exact complete_eq_some hcomplete

theorem fail_eq_none (h : owner.fail id = none) : ∀ current ∈ owner.current, current.id ≠ id :=
  complete_eq_none (Option.map_eq_none_iff.mp h)

theorem current_abort : owner.abort.1.current = none := by
  unfold abort
  split
  · next h => exact h
  · rfl

theorem snd_abort : owner.abort.2 = owner.buffered := by
  unfold abort buffered
  cases owner.current with
  | none => rfl
  | some current => rfl

theorem buffered_write (f : σ → σ) : (owner.write f).buffered = owner.buffered := by
  unfold write buffered
  cases owner.current with
  | none => rfl
  | some current => rfl

end DirectoryTransactionOwner

end Orqara.Directory
