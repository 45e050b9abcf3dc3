import Orqara.Labels.CatalogStore
import Orqara.Labels.LabelConsistency

/-!
# What a rollback makes of the records

A rollback gives the workspaces of a transaction their earlier labels and times back and leaves
the other fields alone. Two maps of records that differ in what the rollback overwrites become
equal by it.
-/

namespace Orqara.Labels

open OrderedMap

variable {ρ : Type} {transaction : WorkspaceLabelTransaction}
  {workspaces others : OrderedMap String (PersistedWorkspaceRecord ρ)} {workspaceId : String}
  {workspace record : PersistedWorkspaceRecord ρ} {state : LabelState ρ}

/-! ## Updates of records that are there -/

theorem keys_applyUpdates {updates : List (PersistedWorkspaceRecord ρ)}
    (h : ∀ update ∈ updates, update.workspaceId ∈ workspaces.keys) :
    (applyUpdates workspaces updates).keys = workspaces.keys := by
  unfold applyUpdates
  induction updates generalizing workspaces with
  | nil => rfl
  | cons update updates ih =>
    have hkeys : (workspaces.set update.workspaceId update).keys = workspaces.keys :=
      keys_set_of_mem (h update List.mem_cons_self)
    rw [List.foldl_cons, ih, hkeys]
    intro other hother
    rw [hkeys]
    exact h other (List.mem_cons_of_mem _ hother)

/-- A change of a record that is stored under its id keeps every record so. -/
theorem KeyedById.change (h : KeyedById workspaces) (change : WorkspaceChange ρ) :
    KeyedById (change.apply workspaces) := by
  cases change with
  | set record => exact h.set record
  | delete deleted =>
    intro workspaceId workspace hget
    simp only [WorkspaceChange.apply, get_delete] at hget
    split at hget
    · cases hget
    · exact h workspaceId workspace hget

/-! ## Restored records -/

/-- The state of a workspace that a transaction keeps. -/
def WorkspaceLabelTransaction.before (transaction : WorkspaceLabelTransaction)
    (workspaceId : String) : Option WorkspaceLabelWorkspaceState :=
  transaction.beforeWorkspaces.find? fun before => before.workspaceId = workspaceId

/-- A record as a rollback leaves it. -/
def restoreRecord (transaction : WorkspaceLabelTransaction)
    (workspace : PersistedWorkspaceRecord ρ) : PersistedWorkspaceRecord ρ :=
  match transaction.before workspace.workspaceId with
  | some before => { workspace with labels := before.labels, updatedAt := before.updatedAt }
  | none => workspace

/-- A transaction keeps one state of a workspace. -/
def Functional (transaction : WorkspaceLabelTransaction) : Prop :=
  ∀ a ∈ transaction.beforeWorkspaces, ∀ b ∈ transaction.beforeWorkspaces,
    a.workspaceId = b.workspaceId → a = b

theorem functional_transactionFor (h : KeyedById state.workspaces) (mutation : WorkspaceLabelMutation ρ) :
    Functional (transactionFor state mutation) := by
  intro a ha b hb hid
  obtain ⟨update, -, hupdate⟩ := List.mem_filterMap.mp ha
  obtain ⟨update', -, hupdate'⟩ := List.mem_filterMap.mp hb
  obtain ⟨old, hold, rfl⟩ := Option.map_eq_some_iff.mp hupdate
  obtain ⟨old', hold', rfl⟩ := Option.map_eq_some_iff.mp hupdate'
  have hsame : old.workspaceId = old'.workspaceId := hid
  rw [← h _ _ hold, hsame, h _ _ hold'] at hold
  rw [hold] at hold'
  rw [Option.some.inj hold']

theorem before_eq_some_iff (h : Functional transaction) {before : WorkspaceLabelWorkspaceState} :
    transaction.before workspaceId = some before ↔
      before ∈ transaction.beforeWorkspaces ∧ before.workspaceId = workspaceId := by
  unfold WorkspaceLabelTransaction.before
  constructor
  · intro hfind
    exact ⟨List.mem_of_find?_eq_some hfind, by simpa using List.find?_some hfind⟩
  · rintro ⟨hmem, hid⟩
    cases hfind : transaction.beforeWorkspaces.find? fun b => b.workspaceId = workspaceId with
    | none =>
      have hne := List.find?_eq_none.mp hfind before hmem
      simp [hid] at hne
    | some found =>
      have hfound : found.workspaceId = workspaceId := by simpa using List.find?_some hfind
      rw [h found (List.mem_of_find?_eq_some hfind) before hmem (hfound.trans hid.symm)]

namespace LabelState

variable {state : LabelState ρ}

theorem mem_keys_of_restored (h : KeyedById state.workspaces)
    (hrecord : record ∈ state.restored transaction) :
    record.workspaceId ∈ state.workspaces.keys := by
  obtain ⟨before, -, hmap⟩ := List.mem_filterMap.mp hrecord
  obtain ⟨current, hcurrent, rfl⟩ := Option.map_eq_some_iff.mp hmap
  show current.workspaceId ∈ _
  rw [h _ _ hcurrent]
  exact mem_keys_of_get hcurrent

theorem keys_recover (h : KeyedById state.workspaces) :
    (state.recover transaction).workspaces.keys = state.workspaces.keys :=
  keys_applyUpdates fun _ hrecord => mem_keys_of_restored h hrecord

/-- A rollback record by record. -/
theorem get_recover (hfun : Functional transaction) (h : KeyedById state.workspaces)
    (workspaceId : String) :
    (state.recover transaction).workspaces.get workspaceId =
      (state.workspaces.get workspaceId).map (restoreRecord transaction) := by
  rcases applyUpdates_get state.workspaces (state.restored transaction) workspaceId with
    ⟨record, hmem, hid, hget⟩ | ⟨hnone, hget⟩
  · rw [recover, hget]
    obtain ⟨before, hbefore, hmap⟩ := List.mem_filterMap.mp hmem
    obtain ⟨current, hcurrent, rfl⟩ := Option.map_eq_some_iff.mp hmap
    have hcurrentId : current.workspaceId = before.workspaceId := h _ _ hcurrent
    have hbeforeId : before.workspaceId = workspaceId := hcurrentId.symm.trans hid
    rw [← hbeforeId, hcurrent, Option.map_some, restoreRecord,
      (before_eq_some_iff hfun).mpr ⟨hbefore, hcurrentId.symm⟩]
  · rw [recover, hget]
    cases hcurrent : state.workspaces.get workspaceId with
    | none => rfl
    | some current =>
      have hcurrentId : current.workspaceId = workspaceId := h _ _ hcurrent
      rw [Option.map_some, restoreRecord]
      cases hbefore : transaction.before current.workspaceId with
      | none => rfl
      | some before =>
        obtain ⟨hmem, hid⟩ := (before_eq_some_iff hfun).mp hbefore
        have hrestored :
            { current with labels := before.labels, updatedAt := before.updatedAt } ∈
              state.restored transaction := by
          apply List.mem_filterMap.mpr
          refine ⟨before, hmem, ?_⟩
          rw [hid.trans hcurrentId, hcurrent]
          rfl
        exact (hnone _ hrestored hcurrentId).elim

end LabelState

/-! ## Records that are the same once rolled back -/

/-- Records that differ in what a rollback overwrites only. -/
structure SameRestored (transaction : WorkspaceLabelTransaction)
    (workspaces others : OrderedMap String (PersistedWorkspaceRecord ρ)) : Prop where
  keys : workspaces.keys = others.keys
  get : ∀ workspaceId, (workspaces.get workspaceId).map (restoreRecord transaction) =
    (others.get workspaceId).map (restoreRecord transaction)

theorem SameRestored.refl : SameRestored transaction workspaces workspaces := ⟨rfl, fun _ => rfl⟩

section

variable (h : SameRestored transaction workspaces others)
include h

theorem SameRestored.trans {third : OrderedMap String (PersistedWorkspaceRecord ρ)}
    (h' : SameRestored transaction others third) : SameRestored transaction workspaces third :=
  ⟨h.keys.trans h'.keys, fun workspaceId => (h.get workspaceId).trans (h'.get workspaceId)⟩

theorem SameRestored.symm :
    SameRestored transaction others workspaces :=
  ⟨h.keys.symm, fun workspaceId => (h.get workspaceId).symm⟩

omit h in
theorem keys_set_congr (h : workspaces.keys = others.keys) :
    (workspaces.set workspaceId record).keys = (others.set workspaceId record).keys := by
  by_cases hmem : workspaceId ∈ workspaces.keys
  · rw [keys_set_of_mem hmem, keys_set_of_mem (h ▸ hmem), h]
  · rw [keys_set_of_not_mem hmem, keys_set_of_not_mem (h ▸ hmem), h]

theorem SameRestored.change (change : WorkspaceChange ρ) :
    SameRestored transaction (change.apply workspaces) (change.apply others) := by
  cases change with
  | set record =>
    refine ⟨keys_set_congr h.keys, ?_⟩
    intro workspaceId
    simp only [WorkspaceChange.apply, get_set]
    split
    · rfl
    · exact h.get workspaceId
  | delete deleted =>
    constructor
    · simp only [WorkspaceChange.apply, keys_delete, h.keys]
    · intro workspaceId
      simp only [WorkspaceChange.apply, get_delete]
      split
      · rfl
      · exact h.get workspaceId

end

section

variable (hfun : Functional transaction)
include hfun

/-- Rolled back, they are equal. -/
theorem SameRestored.recover_eq {catalog catalog' : List WorkspaceLabelDefinition} (h : SameRestored transaction workspaces others)
    (hworkspaces : KeyedById workspaces) (hothers : KeyedById others) :
    (LabelState.recover ⟨catalog, workspaces⟩ transaction).workspaces =
      (LabelState.recover ⟨catalog', others⟩ transaction).workspaces := by
  apply ext_get
  · rw [LabelState.keys_recover hworkspaces, LabelState.keys_recover hothers]
    exact h.keys
  · intro workspaceId
    rw [LabelState.get_recover hfun hworkspaces, LabelState.get_recover hfun hothers]
    exact h.get workspaceId

/-- A rollback that has nothing to restore in one map finds it equal to the other. -/
theorem SameRestored.eq_of_restored_nil {catalog : List WorkspaceLabelDefinition} (h : SameRestored transaction workspaces others)
    (hworkspaces : KeyedById workspaces) (hothers : KeyedById others)
    (hnil : LabelState.restored ⟨catalog, others⟩ transaction = []) : workspaces = others := by
  have hrestore : ∀ workspaceId record, workspaceId ∈ others.keys →
      record.workspaceId = workspaceId → restoreRecord (ρ := ρ) transaction record = record := by
    intro workspaceId record hmem hid
    rw [restoreRecord]
    cases hbefore : transaction.before record.workspaceId with
    | none => rfl
    | some before =>
      obtain ⟨hmem', hid'⟩ := (before_eq_some_iff hfun).mp hbefore
      obtain ⟨current, hcurrent⟩ := get_of_mem_keys hmem
      have hnone := List.filterMap_eq_nil_iff.mp hnil before hmem'
      rw [hid', hid, hcurrent] at hnone
      cases hnone
  apply ext_get h.keys
  intro workspaceId
  have hget := h.get workspaceId
  cases hworkspace : workspaces.get workspaceId with
  | none =>
    rw [hworkspace, Option.map_none] at hget
    rw [Option.map_eq_none_iff.mp hget.symm]
  | some workspace =>
    have hmem : workspaceId ∈ others.keys := h.keys ▸ mem_keys_of_get hworkspace
    obtain ⟨other, hother⟩ := get_of_mem_keys hmem
    rw [hworkspace, hother, Option.map_some, Option.map_some, Option.some.injEq,
      hrestore workspaceId workspace hmem (hworkspaces _ _ hworkspace),
      hrestore workspaceId other hmem (hothers _ _ hother)] at hget
    rw [hother, hget]

omit hfun in
/-- What is rolled back stays as it is when it is rolled back again. -/
theorem restoreRecord_restoreRecord (record : PersistedWorkspaceRecord ρ) :
    restoreRecord transaction (restoreRecord transaction record) =
      restoreRecord transaction record := by
  unfold restoreRecord
  cases hbefore : transaction.before record.workspaceId with
  | none => simp only [hbefore]
  | some before => simp only [hbefore]

theorem sameRestored_recover (h : KeyedById state.workspaces) :
    SameRestored transaction (state.recover transaction).workspaces state.workspaces := by
  refine ⟨LabelState.keys_recover h, ?_⟩
  intro workspaceId
  rw [LabelState.get_recover hfun h, Option.map_map]
  congr 1
  funext record
  exact restoreRecord_restoreRecord record

end

end Orqara.Labels
