import Orqara.Labels.RestoredLabels

/-!
# Histories of label commits

A history lists the commits that have happened, the rollbacks, and the other mutations of the
registry. A rollback leads back to the catalog and the labels before its commit, and neither
commits nor rollbacks touch the other fields of the workspaces.
-/

namespace Orqara.Labels

open List Option

variable {ρ : Type} {toLowerCase : String → String} {state : LabelState ρ}
  {mutation : WorkspaceLabelMutation ρ}

/-! ## Planned updates -/

/-- An update of a record that is there, in its labels and its time. -/
def Relabels (workspaces : OrderedMap String (PersistedWorkspaceRecord ρ))
    (update : PersistedWorkspaceRecord ρ) : Prop :=
  ∃ workspace labels updatedAt, workspaces.get update.workspaceId = some workspace ∧
    update = { workspace with labels := labels, updatedAt := updatedAt }

theorem relabels_rewriteAssignments
    {workspaces : OrderedMap String (PersistedWorkspaceRecord ρ)} {fromKey now : String}
    {target : Option String} (h : KeyedById workspaces) :
    ∀ update ∈ rewriteAssignments toLowerCase workspaces fromKey target now,
      Relabels workspaces update := by
  intro update hupdate
  obtain ⟨entry, hentry, rfl⟩ := List.mem_map.mp hupdate
  have hget : workspaces.get entry.1 = some entry.2 :=
    OrderedMap.get_eq_some_iff.mpr (mem_filter.mp hentry).1
  refine ⟨entry.2, _, _, ?_, rfl⟩
  show workspaces.get entry.2.workspaceId = some entry.2
  rw [h _ _ hget]
  exact hget

theorem relabels_plan {now : String} {request : LabelRequest} (h : KeyedById state.workspaces)
    (hplan : plan toLowerCase state now request = .ok mutation) :
    ∀ update ∈ mutation.workspaceUpdates, Relabels state.workspaces update := by
  intro update hupdate
  cases request with
  | setAssignment input =>
    obtain ⟨name, -, hplan⟩ := bind_eq_ok.mp hplan
    obtain ⟨workspace, definition, hget, -, -, hnil | ⟨labels, -, hupdates⟩⟩ :=
      planAssignment_eq_ok hplan
    · rw [hnil] at hupdate
      cases hupdate
    · rw [hupdates, mem_singleton] at hupdate
      refine ⟨workspace, _, _, ?_, hupdate⟩
      rw [hupdate]
      show state.workspaces.get workspace.workspaceId = some workspace
      rw [h _ _ hget]
      exact hget
  | update input =>
    obtain ⟨name, -, hplan⟩ := bind_eq_ok.mp hplan
    obtain ⟨newName, -, hplan⟩ := bind_eq_ok.mp hplan
    obtain ⟨existing, index, -, rfl | ⟨color, -, hnil, -⟩ | ⟨name, color, -, -, -, hupdates, -⟩⟩ :=
      planUpdate_eq_ok hplan
    · cases hupdate
    · rw [hnil] at hupdate
      cases hupdate
    · rw [hupdates] at hupdate
      exact relabels_rewriteAssignments h update hupdate
  | delete nameInput =>
    obtain ⟨name, -, hplan⟩ := bind_eq_ok.mp hplan
    unfold planDelete at hplan
    split at hplan
    · rw [← Except.ok.inj hplan] at hupdate
      cases hupdate
    · rw [← Except.ok.inj hplan] at hupdate
      exact relabels_rewriteAssignments h update hupdate

/-- A commit only changes what its rollback restores. -/
theorem sameRestored_updates (h : KeyedById state.workspaces)
    (hupdates : ∀ update ∈ mutation.workspaceUpdates, Relabels state.workspaces update) :
    SameRestored (transactionFor state mutation)
      (applyUpdates state.workspaces mutation.workspaceUpdates) state.workspaces := by
  constructor
  · apply keys_applyUpdates
    intro update hupdate
    obtain ⟨workspace, -, -, hget, -⟩ := hupdates update hupdate
    exact OrderedMap.mem_keys_of_get hget
  · intro workspaceId
    rcases applyUpdates_get state.workspaces mutation.workspaceUpdates workspaceId with
      ⟨update, hupdate, hid, hget⟩ | ⟨-, hget⟩
    · obtain ⟨workspace, labels, updatedAt, hworkspace, heq⟩ := hupdates update hupdate
      have hworkspaceId : workspace.workspaceId = update.workspaceId := h _ _ hworkspace
      have hbefore : (transactionFor state mutation).before update.workspaceId =
          some (workspaceState workspace) := by
        apply (before_eq_some_iff (functional_transactionFor h mutation)).mpr
        refine ⟨mem_filterMap.mpr ⟨update, hupdate, ?_⟩, hworkspaceId⟩
        rw [hworkspace]
        rfl
      rw [hget, ← hid, hworkspace, map_some, map_some, restoreRecord, restoreRecord,
        hworkspaceId, hbefore, heq]
    · rw [hget]

/-! ## Histories -/

namespace HistoryEntry

/-- What an entry makes of the catalog and the workspaces. -/
def apply (state : LabelState ρ) : HistoryEntry ρ → LabelState ρ
  | .mutated change => { state with workspaces := change.apply state.workspaces }
  | .committed _ mutation => state.commit mutation
  | .rolledBack transaction => state.recover transaction

end HistoryEntry

/-- The state that a history leads to. -/
def replay (base : LabelState ρ) (history : List (HistoryEntry ρ)) : LabelState ρ :=
  history.foldl HistoryEntry.apply base

theorem replay_append (base : LabelState ρ) (history later : List (HistoryEntry ρ)) :
    replay base (history ++ later) = replay (replay base history) later := List.foldl_append

theorem replay_snoc (base : LabelState ρ) (history : List (HistoryEntry ρ))
    (entry : HistoryEntry ρ) :
    replay base (history ++ [entry]) = entry.apply (replay base history) := replay_append _ _ _

theorem keyedById_replay {base : LabelState ρ} (h : KeyedById base.workspaces)
    (history : List (HistoryEntry ρ)) : KeyedById (replay base history).workspaces := by
  unfold replay
  induction history generalizing base with
  | nil => exact h
  | cons entry history ih =>
    apply ih
    cases entry with
    | mutated change => exact h.change change
    | committed number mutation => exact LabelState.commit_keyedById h mutation
    | rolledBack transaction => exact LabelState.recover_keyedById h transaction

/-- Entries of other mutations of the registry. -/
def OnlyMutated (history : List (HistoryEntry ρ)) : Prop :=
  ∀ entry ∈ history, ∃ change, entry = .mutated change

/-- A transaction as a commit plans it after a history. -/
def PlannedAfter (toLowerCase : String → String) (base : LabelState ρ)
    (history : List (HistoryEntry ρ)) (mutation : WorkspaceLabelMutation ρ)
    (transaction : WorkspaceLabelTransaction) : Prop :=
  (∃ now request, plan toLowerCase (replay base history) now request = .ok mutation) ∧
    transaction = transactionFor (replay base history) mutation

/-- A history of whole commits, and of rollbacks of commits that were planned when only other
mutations had to follow. -/
inductive AtomicHistory (toLowerCase : String → String) (base : LabelState ρ) :
    List (HistoryEntry ρ) → Prop
  | start : AtomicHistory toLowerCase base []
  | mutated {history : List (HistoryEntry ρ)} (change : WorkspaceChange ρ) :
    AtomicHistory toLowerCase base history →
      AtomicHistory toLowerCase base (history ++ [.mutated change])
  | committed {history : List (HistoryEntry ρ)} {mutation : WorkspaceLabelMutation ρ}
    {transaction : WorkspaceLabelTransaction} (number : ℕ)
    (hplanned : PlannedAfter toLowerCase base history mutation transaction) :
    AtomicHistory toLowerCase base history →
      AtomicHistory toLowerCase base (history ++ [.committed number mutation])
  | rolledBack {history meanwhile : List (HistoryEntry ρ)} {mutation : WorkspaceLabelMutation ρ}
    {transaction : WorkspaceLabelTransaction}
    (hplanned : PlannedAfter toLowerCase base history mutation transaction)
    (hmeanwhile : OnlyMutated meanwhile) :
    AtomicHistory toLowerCase base (history ++ meanwhile) →
      AtomicHistory toLowerCase base (history ++ meanwhile ++ [.rolledBack transaction])

/-! ## What a history shows -/

section History

variable {base : LabelState ρ} {history : List (HistoryEntry ρ)}
  {transaction : WorkspaceLabelTransaction} {mutation : WorkspaceLabelMutation ρ}

/-- What comes before an entry of the history accounts for it. -/
def Justified (toLowerCase : String → String) (base : LabelState ρ)
    (before : List (HistoryEntry ρ)) : HistoryEntry ρ → Prop
  | .mutated _ => True
  | .committed _ mutation =>
    ∃ now request, plan toLowerCase (replay base before) now request = .ok mutation
  | .rolledBack transaction =>
    ∃ earlier meanwhile mutation, before = earlier ++ meanwhile ∧ OnlyMutated meanwhile ∧
      PlannedAfter toLowerCase base earlier mutation transaction

/-- An entry of an extended list is the last one, or one of those that were there. -/
theorem split_snoc {α : Type} {l before after : List α} {last entry : α}
    (h : l ++ [last] = before ++ entry :: after) :
    l = before ∧ last = entry ∨ ∃ rest, l = before ++ entry :: rest := by
  rcases eq_nil_or_concat after with rfl | ⟨rest, other, rfl⟩
  · obtain ⟨hbefore, hlast⟩ := append_inj' h rfl
    exact .inl ⟨hbefore, singleton_inj.mp hlast⟩
  · rw [concat_eq_append, ← cons_append, ← append_assoc] at h
    exact .inr ⟨rest, (append_inj' h rfl).1⟩

theorem AtomicHistory.justified (h : AtomicHistory toLowerCase base history)
    {before after : List (HistoryEntry ρ)} {entry : HistoryEntry ρ}
    (hsplit : history = before ++ entry :: after) : Justified toLowerCase base before entry := by
  induction h generalizing after with
  | start => cases before <;> cases hsplit
  | mutated change _ ih =>
    rcases split_snoc hsplit with ⟨-, rfl⟩ | ⟨rest, hrest⟩
    · trivial
    · exact ih hrest
  | committed number hplanned _ ih =>
    rcases split_snoc hsplit with ⟨rfl, rfl⟩ | ⟨rest, hrest⟩
    · exact hplanned.1
    · exact ih hrest
  | rolledBack hplanned hmeanwhile _ ih =>
    rcases split_snoc hsplit with ⟨rfl, rfl⟩ | ⟨rest, hrest⟩
    · exact ⟨_, _, _, rfl, hmeanwhile, hplanned⟩
    · exact ih hrest

/-- The catalog is what it was before the commit; a record is as other mutations have left it, or
with the labels and the time that it had before the commit. -/
structure ShowsBefore (before current after : LabelState ρ) : Prop where
  catalog : after.catalog = before.catalog
  keys : after.workspaces.keys = current.workspaces.keys
  records : ∀ workspaceId record, after.workspaces.get workspaceId = some record →
    ∃ present, current.workspaces.get workspaceId = some present ∧
      (record = present ∨ ∃ old, before.workspaces.get workspaceId = some old ∧
        record = { present with labels := old.labels, updatedAt := old.updatedAt })

theorem showsBefore_rolledBack {earlier meanwhile : List (HistoryEntry ρ)}
    (hbase : KeyedById base.workspaces) (hmeanwhile : OnlyMutated meanwhile)
    (hplanned : PlannedAfter toLowerCase base earlier mutation transaction) :
    ShowsBefore (replay base earlier) (replay base (earlier ++ meanwhile))
      (replay base (earlier ++ meanwhile ++ [.rolledBack transaction])) := by
  have hkeyed := keyedById_replay hbase (earlier ++ meanwhile)
  obtain ⟨-, rfl⟩ := hplanned
  have hfun := functional_transactionFor (keyedById_replay hbase earlier) mutation
  rw [replay_snoc]
  refine ⟨rfl, LabelState.keys_recover hkeyed, ?_⟩
  intro workspaceId record hget
  rw [HistoryEntry.apply, LabelState.get_recover hfun hkeyed] at hget
  obtain ⟨present, hpresent, hrecord⟩ := map_eq_some_iff.mp hget
  refine ⟨present, hpresent, ?_⟩
  rw [restoreRecord] at hrecord
  split at hrecord
  · next before hbefore =>
    obtain ⟨hmem, hid⟩ := (before_eq_some_iff hfun).mp hbefore
    obtain ⟨update, -, hupdate⟩ := mem_filterMap.mp hmem
    obtain ⟨old, hold, rfl⟩ := map_eq_some_iff.mp hupdate
    have holdId := keyedById_replay hbase earlier _ _ hold
    have hpresentId := hkeyed _ _ hpresent
    right
    refine ⟨old, ?_, hrecord.symm⟩
    rw [← hpresentId, ← hid]
    show (replay base earlier).workspaces.get old.workspaceId = some old
    rw [holdId]
    exact hold
  · exact Or.inl hrecord.symm

/-- Without other mutations in between the state is the one before the commit. -/
theorem replay_rolledBack_same {earlier : List (HistoryEntry ρ)} (hbase : KeyedById base.workspaces)
    (hplanned : PlannedAfter toLowerCase base earlier mutation transaction) :
    replay base (earlier ++ [.rolledBack transaction]) = replay base earlier := by
  have hshows : ShowsBefore (replay base earlier) (replay base (earlier ++ []))
      (replay base (earlier ++ [] ++ [.rolledBack transaction])) :=
    showsBefore_rolledBack hbase nofun hplanned
  rw [append_nil] at hshows
  have hworkspaces : (replay base (earlier ++ [.rolledBack transaction])).workspaces =
      (replay base earlier).workspaces := by
    apply OrderedMap.ext_get hshows.keys
    intro workspaceId
    cases hget : (replay base (earlier ++ [.rolledBack transaction])).workspaces.get workspaceId with
    | none =>
      have hmem := OrderedMap.get_eq_none_iff.mp hget
      rw [hshows.keys] at hmem
      exact (OrderedMap.get_eq_none_iff.mpr hmem).symm
    | some record =>
      obtain ⟨present, hpresent, rfl | ⟨old, hold, rfl⟩⟩ := hshows.records workspaceId record hget
      · exact hpresent.symm
      · rw [hpresent] at hold
        rw [hpresent, ← some.inj hold]
  calc
    replay base (earlier ++ [.rolledBack transaction]) =
        ⟨(replay base (earlier ++ [.rolledBack transaction])).catalog,
          (replay base (earlier ++ [.rolledBack transaction])).workspaces⟩ := rfl
    _ = ⟨(replay base earlier).catalog, (replay base earlier).workspaces⟩ := by
      rw [hshows.catalog, hworkspaces]

/-! ## The other fields -/

/-- The fields of a record besides its labels and its time. -/
def PersistedWorkspaceRecord.otherFields (record : PersistedWorkspaceRecord ρ) :
    String × Option String × ρ :=
  (record.workspaceId, record.archivedAt, record.details)

/-- The same workspaces with the same fields besides labels and times. -/
def SameOtherFields (workspaces others : OrderedMap String (PersistedWorkspaceRecord ρ)) : Prop :=
  ∀ workspaceId, (workspaces.get workspaceId).map (·.otherFields) =
    (others.get workspaceId).map (·.otherFields)

theorem otherFields_restoreRecord (transaction : WorkspaceLabelTransaction)
    (record : PersistedWorkspaceRecord ρ) :
    (restoreRecord transaction record).otherFields = record.otherFields := by
  unfold restoreRecord
  split
  · rfl
  · rfl

theorem SameRestored.otherFields {workspaces others : OrderedMap String (PersistedWorkspaceRecord ρ)}
    (h : SameRestored transaction workspaces others) : SameOtherFields workspaces others := by
  intro workspaceId
  have hget := congrArg (Option.map (·.otherFields)) (h.get workspaceId)
  rw [Option.map_map, Option.map_map] at hget
  have hcomp : (fun record : PersistedWorkspaceRecord ρ => record.otherFields) ∘
      restoreRecord transaction = fun record => record.otherFields := by
    funext record
    exact otherFields_restoreRecord transaction record
  rw [hcomp] at hget
  exact hget

theorem SameOtherFields.change
    {workspaces others : OrderedMap String (PersistedWorkspaceRecord ρ)}
    (h : SameOtherFields workspaces others) (change : WorkspaceChange ρ) :
    SameOtherFields (change.apply workspaces) (change.apply others) := by
  intro workspaceId
  cases change with
  | set record =>
    simp only [WorkspaceChange.apply, OrderedMap.get_set]
    split
    · rfl
    · exact h workspaceId
  | delete deleted =>
    simp only [WorkspaceChange.apply, OrderedMap.get_delete]
    split
    · rfl
    · exact h workspaceId

/-- The other mutations of a history. -/
def mutationsOf (history : List (HistoryEntry ρ)) : List (HistoryEntry ρ) :=
  history.filter fun entry =>
    match entry with
    | .mutated _ => true
    | _ => false

/-- Commits and rollbacks leave the other fields to the other mutations. -/
theorem AtomicHistory.otherFields (hbase : KeyedById base.workspaces)
    (h : AtomicHistory toLowerCase base history) :
    SameOtherFields (replay base history).workspaces
      (replay base (mutationsOf history)).workspaces := by
  induction h with
  | start => exact fun _ => rfl
  | mutated change _ ih =>
    rw [mutationsOf, filter_append, filter_singleton, replay_snoc]
    show SameOtherFields _ (replay base (mutationsOf _ ++ [_])).workspaces
    rw [replay_snoc]
    exact ih.change change
  | @committed history mutation transaction number hplanned _ ih =>
    obtain ⟨⟨now, request, hplan⟩, -⟩ := hplanned
    have hkeyed := keyedById_replay hbase history
    have hsame := (sameRestored_updates hkeyed (relabels_plan hkeyed hplan)).otherFields
    rw [mutationsOf, filter_append, filter_singleton, replay_snoc]
    show SameOtherFields _ (replay base (mutationsOf _ ++ [])).workspaces
    rw [append_nil]
    exact fun workspaceId => (hsame workspaceId).trans (ih workspaceId)
  | @rolledBack history meanwhile mutation transaction hplanned _ _ ih =>
    obtain ⟨-, rfl⟩ := hplanned
    have hfun := functional_transactionFor (keyedById_replay hbase history) mutation
    have hsame := (sameRestored_recover hfun
      (keyedById_replay hbase (history ++ meanwhile))).otherFields
    rw [mutationsOf, filter_append, filter_singleton, replay_snoc]
    show SameOtherFields _ (replay base (mutationsOf _ ++ [])).workspaces
    rw [append_nil]
    exact fun workspaceId => (hsame workspaceId).trans (ih workspaceId)

end History

end Orqara.Labels
