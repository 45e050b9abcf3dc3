import Orqara.Labels.CommitHistory

/-!
# Label commits are atomic

Whatever crashes and whichever file operations fail, once the store has been loaded and is idle
the files and the memory show a history in which every commit happens as a whole or is rolled
back.
-/

namespace Orqara.Labels

open List Option

variable {ρ : Type} {toLowerCase : String → String}

/-! ## Files between two commits, and within one -/

section Files

variable {base : LabelState ρ} {files : LabelFiles ρ} {history : List (HistoryEntry ρ)}
  {transaction : WorkspaceLabelTransaction} {memory : StoreMemory ρ} {operation : Activity ρ}
  {cause : RecoveryCause}

/-- No transaction is prepared, and the data files show the history. -/
structure Clean (base : LabelState ρ) (files : LabelFiles ρ) (history : List (HistoryEntry ρ)) :
    Prop where
  notPrepared : ∀ transaction, files.transaction ≠ some (.prepared, transaction)
  catalog : files.catalog = (replay base history).catalog
  workspaces : files.workspaces = (replay base history).workspaces

/-- A transaction is prepared, and its rollback leads from the files to what it leads to from
the history. -/
structure Dirty (toLowerCase : String → String) (base : LabelState ρ) (files : LabelFiles ρ)
    (history : List (HistoryEntry ρ)) (transaction : WorkspaceLabelTransaction) : Prop where
  prepared : files.transaction = some (.prepared, transaction)
  same : SameRestored transaction files.workspaces (replay base history).workspaces
  origin : ∃ earlier meanwhile mutation, history = earlier ++ meanwhile ∧
    OnlyMutated meanwhile ∧ PlannedAfter toLowerCase base earlier mutation transaction

theorem Dirty.functional (hbase : KeyedById base.workspaces)
    (h : Dirty toLowerCase base files history transaction) : Functional transaction := by
  obtain ⟨earlier, meanwhile, mutation, -, -, -, rfl⟩ := h.origin
  exact functional_transactionFor (keyedById_replay hbase earlier) mutation

theorem clean_mutated (change : WorkspaceChange ρ) (h : Clean base files history) :
    Clean base
      { files with workspaces := change.apply (replay base history).workspaces }
      (history ++ [.mutated change]) where
  notPrepared := h.notPrepared
  catalog := by
    rw [replay_snoc]
    exact h.catalog
  workspaces := by
    rw [replay_snoc]
    rfl

theorem dirty_mutated {cache : OrderedMap String (PersistedWorkspaceRecord ρ)}
    (change : WorkspaceChange ρ) (h : Dirty toLowerCase base files history transaction)
    (hcache : SameRestored transaction cache (replay base history).workspaces) :
    Dirty toLowerCase base { files with workspaces := change.apply cache }
      (history ++ [.mutated change]) transaction where
  prepared := h.prepared
  same := by
    rw [replay_snoc]
    exact hcache.change change
  origin := by
    obtain ⟨earlier, meanwhile, mutation, rfl, hmeanwhile, hplanned⟩ := h.origin
    refine ⟨earlier, meanwhile ++ [.mutated change], mutation, append_assoc _ _ _, ?_,
      hplanned⟩
    intro entry hentry
    rcases mem_append.mp hentry with hold | hnew
    · exact hmeanwhile entry hold
    · exact ⟨change, mem_singleton.mp hnew⟩

/-! ## Memory -/

/-- A store that has been loaded and shows the history. -/
structure Live (base : LabelState ρ) (history : List (HistoryEntry ρ)) (memory : StoreMemory ρ) :
    Prop where
  loaded : memory.loaded = true
  notBlocked : memory.blocked = false
  labels : memory.labels = (replay base history).catalog
  cache : memory.cache = (replay base history).workspaces

/-- A store that has not been loaded since the restart. -/
structure Fresh (toLowerCase : String → String) (base : LabelState ρ) (files : LabelFiles ρ)
    (history : List (HistoryEntry ρ)) (memory : StoreMemory ρ) : Prop where
  notLoaded : memory.loaded = false
  notBlocked : memory.blocked = false
  cache : Clean base files history ∧ memory.cache = (replay base history).workspaces ∨
    ∃ transaction, Dirty toLowerCase base files history transaction ∧
      SameRestored transaction memory.cache (replay base history).workspaces

/-- A store that is about to roll back. -/
structure Recovering (toLowerCase : String → String) (base : LabelState ρ) (files : LabelFiles ρ)
    (history : List (HistoryEntry ρ)) (memory : StoreMemory ρ)
    (transaction : WorkspaceLabelTransaction) (cause : RecoveryCause) : Prop where
  dirty : Dirty toLowerCase base files history transaction
  same : SameRestored transaction memory.cache (replay base history).workspaces
  notBlocked : memory.blocked = false
  loaded : memory.loaded = true ↔ cause ≠ .restart
  live : memory.loaded = true → Live base history memory

/-- A commit as it was staged. -/
def Staged (toLowerCase : String → String) (base : LabelState ρ) (history : List (HistoryEntry ρ))
    (commit : StagedCommit ρ) : Prop :=
  PlannedAfter toLowerCase base history commit.mutation commit.transaction ∧
    commit.staged = ((replay base history).commit commit.mutation).workspaces

/-- A rollback as it was staged. -/
def StagedRollback (memory : StoreMemory ρ) (recovery : StagedRecovery ρ) : Prop :=
  recovery.updates = memory.state.restored recovery.transaction ∧
    recovery.staged = (memory.state.recover recovery.transaction).workspaces

/-- What holds at each file operation. -/
def AtOperation (toLowerCase : String → String) (base : LabelState ρ) (files : LabelFiles ρ)
    (history : List (HistoryEntry ρ)) (memory : StoreMemory ρ) : Activity ρ → Prop
  | .idle => memory.blocked = true ∧ memory.loaded = true ∨
      Live base history memory ∧ Clean base files history ∨ Fresh toLowerCase base files history memory
  | .writePrepared commit => Live base history memory ∧ Clean base files history ∧
      Staged toLowerCase base history commit
  | .writeCatalog commit => Live base history memory ∧ Staged toLowerCase base history commit ∧
      Dirty toLowerCase base files history commit.transaction ∧
      files.workspaces = (replay base history).workspaces
  | .writeWorkspaces commit => Live base history memory ∧ Staged toLowerCase base history commit ∧
      Dirty toLowerCase base files history commit.transaction ∧
      files.catalog = commit.mutation.labels
  | .writeCommitted commit => Live base history memory ∧ Staged toLowerCase base history commit ∧
      Dirty toLowerCase base files history commit.transaction ∧
      files.catalog = commit.mutation.labels ∧ files.workspaces = commit.staged
  | .cleanUp _ _ => Live base history memory ∧ Clean base files history
  | .readFailed _ => Live base history memory ∧ (Clean base files history ∨
      ∃ transaction, Dirty toLowerCase base files history transaction)
  | .awaitRecovery transaction cause =>
      Recovering toLowerCase base files history memory transaction cause
  | .restoreCatalog recovery =>
      Recovering toLowerCase base files history memory recovery.transaction recovery.cause ∧
      StagedRollback memory recovery
  | .restoreWorkspaces recovery =>
      Recovering toLowerCase base files history memory recovery.transaction recovery.cause ∧
      StagedRollback memory recovery ∧ files.catalog = recovery.transaction.beforeLabels
  | .removePrepared recovery =>
      Recovering toLowerCase base files history memory recovery.transaction recovery.cause ∧
      StagedRollback memory recovery ∧ files.catalog = recovery.transaction.beforeLabels ∧
      files.workspaces = recovery.staged
  | .readTransaction => Fresh toLowerCase base files history memory
  | .readCatalog => Fresh toLowerCase base files history memory ∧ Clean base files history
  | .readCommittedCatalog => Fresh toLowerCase base files history memory ∧ Clean base files history
  | .removeCommitted => Fresh toLowerCase base files history memory ∧ Clean base files history ∧
      memory.labels = (replay base history).catalog

/-- What holds in every state of a run. -/
structure StoreInv (toLowerCase : String → String) (base : LabelState ρ) (s : CatalogStore ρ) :
    Prop where
  history : AtomicHistory toLowerCase base s.history
  keyed : KeyedById s.files.workspaces
  files : Clean base s.files s.history ∨
    ∃ transaction, Dirty toLowerCase base s.files s.history transaction
  memoryKeyed : ∀ memory ∈ s.memory, KeyedById memory.cache
  memory : ∀ memory ∈ s.memory,
    AtOperation toLowerCase base s.files s.history memory memory.activity

theorem Live.at (h : Live base history memory) (activity : Activity ρ) :
    Live base history { memory with activity } := ⟨h.loaded, h.notBlocked, h.labels, h.cache⟩

theorem Live.state_eq (h : Live base history memory) : memory.state = replay base history := by
  rw [StoreMemory.state, h.labels, h.cache]

theorem Fresh.at (h : Fresh toLowerCase base files history memory) (activity : Activity ρ) :
    Fresh toLowerCase base files history { memory with activity } :=
  ⟨h.notLoaded, h.notBlocked, h.cache⟩

theorem Recovering.at (h : Recovering toLowerCase base files history memory transaction cause)
    (activity : Activity ρ) :
    Recovering toLowerCase base files history { memory with activity } transaction cause :=
  { h with
    live := fun hloaded => (h.live hloaded).at activity }

/-- The operation that the memory says the store is at plays no part. -/
theorem AtOperation.at (h : AtOperation toLowerCase base files history memory operation)
    (activity : Activity ρ) :
    AtOperation toLowerCase base files history { memory with activity } operation := by
  cases operation with
  | idle =>
    rcases h with hblocked | ⟨hlive, hclean⟩ | hfresh
    · exact .inl hblocked
    · exact .inr (.inl ⟨hlive.at activity, hclean⟩)
    · exact .inr (.inr (hfresh.at activity))
  | writePrepared commit => exact ⟨h.1.at activity, h.2⟩
  | writeCatalog commit => exact ⟨h.1.at activity, h.2⟩
  | writeWorkspaces commit => exact ⟨h.1.at activity, h.2⟩
  | writeCommitted commit => exact ⟨h.1.at activity, h.2⟩
  | cleanUp number mutation => exact ⟨h.1.at activity, h.2⟩
  | readFailed number => exact ⟨h.1.at activity, h.2⟩
  | awaitRecovery transaction cause => exact Recovering.at h activity
  | restoreCatalog recovery => exact ⟨h.1.at activity, h.2⟩
  | restoreWorkspaces recovery => exact ⟨h.1.at activity, h.2⟩
  | removePrepared recovery => exact ⟨h.1.at activity, h.2⟩
  | readTransaction => exact Fresh.at h activity
  | readCatalog => exact ⟨h.1.at activity, h.2⟩
  | readCommittedCatalog => exact ⟨h.1.at activity, h.2⟩
  | removeCommitted => exact ⟨h.1.at activity, h.2⟩

/-! ## Other mutations -/

theorem Live.mutated (h : Live base history memory) (change : WorkspaceChange ρ) :
    Live base (history ++ [.mutated change])
      { memory with cache := change.apply memory.cache } where
  loaded := h.loaded
  notBlocked := h.notBlocked
  labels := by
    rw [replay_snoc]
    exact h.labels
  cache := by
    rw [replay_snoc, h.cache]
    rfl

theorem SameRestored.mutated
    (h : SameRestored transaction memory.cache (replay base history).workspaces)
    (change : WorkspaceChange ρ) :
    SameRestored transaction (change.apply memory.cache)
      (replay base (history ++ [.mutated change])).workspaces := by
  rw [replay_snoc]
  exact h.change change

theorem Clean.mutated (h : Clean base files history)
    (hcache : memory.cache = (replay base history).workspaces) (change : WorkspaceChange ρ) :
    Clean base { files with workspaces := change.apply memory.cache }
      (history ++ [.mutated change]) := by
  rw [hcache]
  exact clean_mutated change h

theorem Fresh.mutated (h : Fresh toLowerCase base files history memory)
    (change : WorkspaceChange ρ) :
    Fresh toLowerCase base { files with workspaces := change.apply memory.cache }
      (history ++ [.mutated change]) { memory with cache := change.apply memory.cache } where
  notLoaded := h.notLoaded
  notBlocked := h.notBlocked
  cache := by
    rcases h.cache with ⟨hclean, hcache⟩ | ⟨transaction, hdirty, hsame⟩
    · refine .inl ⟨hclean.mutated hcache change, ?_⟩
      rw [replay_snoc]
      show change.apply memory.cache = _
      rw [hcache]
      rfl
    · exact .inr ⟨transaction, dirty_mutated change hdirty hsame, hsame.mutated change⟩

theorem Recovering.mutated (h : Recovering toLowerCase base files history memory transaction cause)
    (change : WorkspaceChange ρ) :
    Recovering toLowerCase base { files with workspaces := change.apply memory.cache }
      (history ++ [.mutated change]) { memory with cache := change.apply memory.cache }
      transaction cause where
  dirty := dirty_mutated change h.dirty h.same
  same := h.same.mutated change
  notBlocked := h.notBlocked
  loaded := h.loaded
  live := fun hloaded => (h.live hloaded).mutated change

/-- A store that has not been loaded over clean files shows them. -/
theorem Fresh.cache_eq (h : Fresh toLowerCase base files history memory)
    (hclean : Clean base files history) :
    memory.cache = (replay base history).workspaces := by
  rcases h.cache with ⟨-, hcache⟩ | ⟨transaction, hdirty, -⟩
  · exact hcache
  · exact absurd hdirty.prepared (hclean.notPrepared transaction)

/-- Another mutation leaves every operation outside the queue what it needs. -/
theorem atOperation_mutated (change : WorkspaceChange ρ) (hfree : operation.inQueue = false)
    (hblocked : memory.blocked = false)
    (hat : AtOperation toLowerCase base files history memory operation) :
    AtOperation toLowerCase base { files with workspaces := change.apply memory.cache }
      (history ++ [.mutated change]) { memory with cache := change.apply memory.cache }
      operation := by
  cases operation with
  | idle =>
    rcases hat with htrue | ⟨hlive, hclean⟩ | hfresh
    · exact absurd (hblocked.symm.trans htrue.1) (by decide)
    · exact Or.inr (Or.inl ⟨hlive.mutated change, hclean.mutated hlive.cache change⟩)
    · exact Or.inr (Or.inr (hfresh.mutated change))
  | cleanUp number mutation =>
    exact ⟨hat.1.mutated change, hat.2.mutated hat.1.cache change⟩
  | readFailed number =>
    obtain ⟨hlive, hclean | ⟨transaction, hdirty⟩⟩ := hat
    · exact ⟨hlive.mutated change, .inl (hclean.mutated hlive.cache change)⟩
    · refine ⟨hlive.mutated change, .inr ⟨transaction, dirty_mutated change hdirty ?_⟩⟩
      rw [hlive.cache]
      exact SameRestored.refl
  | awaitRecovery transaction cause =>
    exact Recovering.mutated hat change
  | readTransaction =>
    exact Fresh.mutated hat change
  | readCatalog =>
    exact ⟨hat.1.mutated change, hat.2.mutated (hat.1.cache_eq hat.2) change⟩
  | readCommittedCatalog =>
    exact ⟨hat.1.mutated change, hat.2.mutated (hat.1.cache_eq hat.2) change⟩
  | removeCommitted =>
    obtain ⟨hfresh, hclean, hlabels⟩ := hat
    refine ⟨hfresh.mutated change, hclean.mutated (hfresh.cache_eq hclean) change, ?_⟩
    rw [replay_snoc]
    exact hlabels
  | writePrepared commit => cases hfree
  | writeCatalog commit => cases hfree
  | writeWorkspaces commit => cases hfree
  | writeCommitted commit => cases hfree
  | restoreCatalog recovery => cases hfree
  | restoreWorkspaces recovery => cases hfree
  | removePrepared recovery => cases hfree

/-- Two transactions cannot be prepared at once. -/
theorem Dirty.unique {other : WorkspaceLabelTransaction}
    (h : Dirty toLowerCase base files history transaction)
    (h' : Dirty toLowerCase base files history other) : transaction = other := by
  have heq := h.prepared
  rw [h'.prepared] at heq
  injection heq with heq
  injection heq with _ heq
  exact heq.symm

/-- Outside the queue the records in memory show the history, or would once rolled back. -/
theorem AtOperation.cache (hfree : operation.inQueue = false) (hblocked : memory.blocked = false)
    (hat : AtOperation toLowerCase base files history memory operation) :
    (Clean base files history → memory.cache = (replay base history).workspaces) ∧
      ∀ transaction, Dirty toLowerCase base files history transaction →
        SameRestored transaction memory.cache (replay base history).workspaces := by
  have hlive : Live base history memory →
      (Clean base files history → memory.cache = (replay base history).workspaces) ∧
      ∀ transaction, Dirty toLowerCase base files history transaction →
        SameRestored transaction memory.cache (replay base history).workspaces := by
    intro hlive
    refine ⟨fun _ => hlive.cache, fun transaction _ => ?_⟩
    rw [hlive.cache]
    exact SameRestored.refl
  have hfresh : Fresh toLowerCase base files history memory →
      (Clean base files history → memory.cache = (replay base history).workspaces) ∧
      ∀ transaction, Dirty toLowerCase base files history transaction →
        SameRestored transaction memory.cache (replay base history).workspaces := by
    intro hfresh
    refine ⟨hfresh.cache_eq, fun transaction hdirty => ?_⟩
    rcases hfresh.cache with ⟨hclean, -⟩ | ⟨other, hother, hsame⟩
    · exact absurd hdirty.prepared (hclean.notPrepared transaction)
    · rw [hdirty.unique hother]
      exact hsame
  cases operation with
  | idle =>
    rcases hat with htrue | ⟨h, -⟩ | h
    · exact absurd (hblocked.symm.trans htrue.1) (by decide)
    · exact hlive h
    · exact hfresh h
  | cleanUp number mutation =>
    exact hlive hat.1
  | readFailed number =>
    exact hlive hat.1
  | awaitRecovery prepared cause =>
    have hdirty : Dirty toLowerCase base files history prepared := Recovering.dirty hat
    refine ⟨fun hclean => absurd hdirty.prepared (hclean.notPrepared prepared), ?_⟩
    intro transaction h
    rw [h.unique hdirty]
    exact Recovering.same hat
  | readTransaction =>
    exact hfresh hat
  | readCatalog =>
    exact hfresh hat.1
  | readCommittedCatalog =>
    exact hfresh hat.1
  | removeCommitted =>
    exact hfresh hat.1
  | writePrepared commit => cases hfree
  | writeCatalog commit => cases hfree
  | writeWorkspaces commit => cases hfree
  | writeCommitted commit => cases hfree
  | restoreCatalog recovery => cases hfree
  | restoreWorkspaces recovery => cases hfree
  | removePrepared recovery => cases hfree

end Files

/-! ## Steps -/

namespace CatalogStore

variable {base : LabelState ρ} {s s' : CatalogStore ρ} {memory : StoreMemory ρ} {commit : StagedCommit ρ}
  {transaction : WorkspaceLabelTransaction} {recovery : StagedRecovery ρ}

section

variable (h : StoreInv toLowerCase base s)
include h

theorem inv_answer (number : ℕ) (answer : CommitAnswer ρ) :
    StoreInv toLowerCase base (s.answer number answer) :=
  ⟨h.history, h.keyed, h.files, h.memoryKeyed, h.memory⟩

omit h in
/-- A process is up over files that show the history, or hold a transaction to roll back. -/
theorem inv_up (hhistory : AtomicHistory toLowerCase base s.history)
    (hkeyed : KeyedById s.files.workspaces)
    (hfiles : Clean base s.files s.history ∨
      ∃ transaction, Dirty toLowerCase base s.files s.history transaction)
    (hmemory : KeyedById memory.cache)
    (hat : AtOperation toLowerCase base s.files s.history memory memory.activity) :
    StoreInv toLowerCase base (s.withMemory memory) where
  history := hhistory
  keyed := hkeyed
  files := hfiles
  memoryKeyed := fun other hother => by
    rw [← Option.some.inj hother]
    exact hmemory
  memory := fun other hother => by
    rw [← Option.some.inj hother]
    exact hat

section

variable (hkeyed : KeyedById memory.cache)
include hkeyed

/-- The memory goes over to another one. -/
theorem inv_withMemory (hat : AtOperation toLowerCase base s.files s.history memory memory.activity) :
    StoreInv toLowerCase base (s.withMemory memory) :=
  inv_up h.history h.keyed h.files hkeyed hat

theorem inv_goTo {activity : Activity ρ}
    (hat : AtOperation toLowerCase base s.files s.history memory activity) :
    StoreInv toLowerCase base (s.goTo memory activity) :=
  inv_withMemory h hkeyed (hat.at activity)

theorem inv_blockUntilRestart (hloaded : memory.loaded = true) (number : ℕ) :
    StoreInv toLowerCase base (s.blockUntilRestart memory number) := by
  apply inv_answer
  apply inv_withMemory h
  · exact hkeyed
  · exact Or.inl ⟨rfl, hloaded⟩

end

/-! ### Commits -/

omit h in
/-- The prepared transaction is written. -/
theorem dirty_of_prepared (hclean : Clean base s.files s.history)
    (hstaged : Staged toLowerCase base s.history commit) :
    Dirty toLowerCase base
      { s.files with transaction := some (.prepared, commit.transaction) } s.history
      commit.transaction where
  prepared := rfl
  same := by
    show SameRestored commit.transaction s.files.workspaces _
    rw [hclean.workspaces]
    exact SameRestored.refl
  origin := by
    refine ⟨s.history, [], commit.mutation, (append_nil _).symm, ?_, hstaged.1⟩
    intro entry hentry
    cases hentry

omit h in
/-- The workspaces are written with the updates of the commit. -/
theorem dirty_of_workspaces (hbase : KeyedById base.workspaces)
    (hdirty : Dirty toLowerCase base s.files s.history commit.transaction)
    (hstaged : Staged toLowerCase base s.history commit) :
    Dirty toLowerCase base { s.files with workspaces := commit.staged } s.history
      commit.transaction where
  prepared := hdirty.prepared
  same := by
    have hkeyed := keyedById_replay hbase s.history
    obtain ⟨⟨⟨now, request, hplan⟩, htransaction⟩, hworkspaces⟩ := hstaged
    show SameRestored commit.transaction commit.staged _
    rw [hworkspaces, htransaction]
    exact sameRestored_updates hkeyed (relabels_plan hkeyed hplan)
  origin := hdirty.origin

omit h in
/-- The committed transaction is written. -/
theorem clean_of_committed (hstaged : Staged toLowerCase base s.history commit)
    (hcatalog : s.files.catalog = commit.mutation.labels)
    (hworkspaces : s.files.workspaces = commit.staged) :
    Clean base { s.files with transaction := some (.committed, commit.transaction) }
      (s.history ++ [.committed commit.number commit.mutation]) where
  notPrepared := fun transaction h => by
    injection h with h
    injection h with hphase
    cases hphase
  catalog := by
    rw [replay_snoc]
    exact hcatalog
  workspaces := by
    rw [replay_snoc]
    show s.files.workspaces = _
    rw [hworkspaces, hstaged.2]
    rfl

omit h in
theorem keyed_staged (hbase : KeyedById base.workspaces)
    (hstaged : Staged toLowerCase base s.history commit) : KeyedById commit.staged := by
  rw [hstaged.2]
  exact LabelState.commit_keyedById (keyedById_replay hbase s.history) _

omit h in
/-- The transaction is removed or not when the data files show the history. -/
theorem clean_cleanUp (succeeds : Bool) (hclean : Clean base s.files s.history) :
    Clean base { s.files with transaction := if succeeds then none else s.files.transaction }
      s.history where
  notPrepared := fun transaction h => by
    cases succeeds with
    | true => cases h
    | false => exact hclean.notPrepared transaction h
  catalog := hclean.catalog
  workspaces := hclean.workspaces

section

variable (hmemory : s.memory = some memory) {mutation : WorkspaceLabelMutation ρ}
include hmemory

/-- Files are written and the store goes on to its next operation. -/
theorem inv_written {files : LabelFiles ρ} {activity : Activity ρ} (hkeyed : KeyedById files.workspaces)
    (hfiles : Clean base files s.history ∨
      ∃ transaction, Dirty toLowerCase base files s.history transaction)
    (hat : AtOperation toLowerCase base files s.history memory activity) :
    StoreInv toLowerCase base (goTo { s with files } memory activity) where
  history := h.history
  keyed := hkeyed
  files := hfiles
  memoryKeyed := fun other hother => by
    rw [← Option.some.inj hother]
    exact h.memoryKeyed memory hmemory
  memory := fun other hother => by
    rw [← Option.some.inj hother]
    exact hat.at activity

theorem inv_writePrepared
    (hat : AtOperation toLowerCase base s.files s.history memory (.writePrepared commit)) :
    StoreInv toLowerCase base
      (goTo { s with files.transaction := some (.prepared, commit.transaction) } memory
        (.writeCatalog commit)) := by
  obtain ⟨hlive, hclean, hstaged⟩ := hat
  have hdirty := dirty_of_prepared hclean hstaged
  exact inv_written h hmemory h.keyed (.inr ⟨_, hdirty⟩)
    ⟨hlive, hstaged, hdirty, hclean.workspaces⟩

theorem inv_writeCatalog
    (hat : AtOperation toLowerCase base s.files s.history memory (.writeCatalog commit)) :
    StoreInv toLowerCase base
      (goTo { s with files.catalog := commit.mutation.labels } memory
        (if commit.mutation.workspaceUpdates.isEmpty then .writeCommitted commit
          else .writeWorkspaces commit)) := by
  obtain ⟨hlive, hstaged, hdirty, hworkspaces⟩ := hat
  have hdirty' : Dirty toLowerCase base { s.files with catalog := commit.mutation.labels }
      s.history commit.transaction := ⟨hdirty.prepared, hdirty.same, hdirty.origin⟩
  apply inv_written h hmemory
  · exact h.keyed
  · exact .inr ⟨_, hdirty'⟩
  by_cases hempty : commit.mutation.workspaceUpdates.isEmpty = true
  · -- without an update the workspaces are as they were staged
    rw [if_pos hempty]
    refine ⟨hlive, hstaged, hdirty', rfl, ?_⟩
    show s.files.workspaces = commit.staged
    rw [hworkspaces, hstaged.2, LabelState.commit, List.isEmpty_iff.mp hempty]
    rfl
  · rw [if_neg hempty]
    exact ⟨hlive, hstaged, hdirty', rfl⟩

section

variable (hbase : KeyedById base.workspaces)
include hbase

omit h hmemory in
theorem inv_writeWorkspaces (h : StoreInv toLowerCase base s) (hmemory : s.memory = some memory)
    (hat : AtOperation toLowerCase base s.files s.history memory (.writeWorkspaces commit)) :
    StoreInv toLowerCase base
      (goTo { s with files.workspaces := commit.staged } memory (.writeCommitted commit)) := by
  obtain ⟨hlive, hstaged, hdirty, hcatalog⟩ := hat
  have hdirty' := dirty_of_workspaces hbase hdirty hstaged
  exact inv_written h hmemory (keyed_staged hbase hstaged) (.inr ⟨_, hdirty'⟩)
    ⟨hlive, hstaged, hdirty', hcatalog, rfl⟩

omit h hmemory in
theorem inv_writeCommitted (h : StoreInv toLowerCase base s)
    (hat : AtOperation toLowerCase base s.files s.history memory (.writeCommitted commit)) :
    StoreInv toLowerCase base <| record
      { s with
        files.transaction := some (.committed, commit.transaction)
        memory := some
          { memory with
            cache := commit.staged
            labels := commit.mutation.labels
            activity := .cleanUp commit.number commit.mutation } }
      (.committed commit.number commit.mutation) := by
  obtain ⟨hlive, hstaged, -, hcatalog, hworkspaces⟩ := hat
  have hclean := clean_of_committed hstaged hcatalog hworkspaces
  exact
    { history := .committed commit.number hstaged.1 h.history
      keyed := h.keyed
      files := .inl hclean
      memoryKeyed := fun other hother => by
        rw [← some.inj hother]
        exact keyed_staged hbase hstaged
      memory := fun other hother => by
        rw [← some.inj hother]
        refine ⟨⟨hlive.loaded, hlive.notBlocked, ?_, ?_⟩, hclean⟩
        · show commit.mutation.labels = (replay base (s.history ++ [_])).catalog
          rw [replay_snoc]
          rfl
        · show commit.staged = (replay base (s.history ++ [_])).workspaces
          rw [replay_snoc, hstaged.2]
          rfl }

omit hbase in
/-- An operation of a commit fails. -/
theorem inv_commitFailed {number : ℕ} (hlive : Live base s.history memory) :
    StoreInv toLowerCase base (s.goTo memory (.readFailed number)) :=
  inv_goTo h (h.memoryKeyed memory hmemory) ⟨hlive, h.files⟩

omit hbase in
theorem inv_cleanUp (hlive : Live base s.history memory) (hclean : Clean base s.files s.history)
    (succeeds : Bool) :
    StoreInv toLowerCase base
      (goTo { s with files.transaction := if succeeds then none else s.files.transaction } memory
        .idle) := by
  have hclean' := clean_cleanUp succeeds hclean
  exact inv_written h hmemory h.keyed (.inl hclean') (.inr (.inl ⟨hlive, hclean'⟩))

omit h hmemory in
theorem inv_commitStep {succeeds : Bool} (h : StoreInv toLowerCase base s)
    (hmemory : s.memory = some memory) (hstep : s.commitStep memory succeeds = some s') :
    StoreInv toLowerCase base s' := by
  have hat := h.memory memory hmemory
  unfold commitStep at hstep
  split at hstep
  · next commit hactivity =>
    rw [hactivity] at hat
    split at hstep
    · rw [← some.inj hstep]
      exact inv_writePrepared h hmemory hat
    · rw [← some.inj hstep]
      exact inv_commitFailed h hmemory hat.1
  · next commit hactivity =>
    rw [hactivity] at hat
    split at hstep
    · rw [← some.inj hstep]
      exact inv_writeCatalog h hmemory hat
    · rw [← some.inj hstep]
      exact inv_commitFailed h hmemory hat.1
  · next commit hactivity =>
    rw [hactivity] at hat
    split at hstep
    · rw [← some.inj hstep]
      exact inv_writeWorkspaces hbase h hmemory hat
    · rw [← some.inj hstep]
      exact inv_commitFailed h hmemory hat.1
  · next commit hactivity =>
    rw [hactivity] at hat
    split at hstep
    · rw [← some.inj hstep]
      exact inv_writeCommitted hbase h hat
    · rw [← some.inj hstep]
      exact inv_commitFailed h hmemory hat.1
  · next number mutation hactivity =>
    rw [hactivity] at hat
    rw [← some.inj hstep]
    exact inv_answer (inv_cleanUp h hmemory hat.1 hat.2 succeeds) number _
  · cases hstep

/-! ### Recovery -/

omit hmemory hbase in
/-- A clean store and a prepared transaction exclude each other. -/
theorem clean_of_files (htransaction : ∀ transaction, s.files.transaction ≠ some (.prepared, transaction)) :
    Clean base s.files s.history := by
  rcases h.files with hclean | ⟨transaction, hdirty⟩
  · exact hclean
  · exact absurd hdirty.prepared (htransaction transaction)

omit hmemory hbase in
theorem dirty_of_files (htransaction : s.files.transaction = some (.prepared, transaction)) :
    Dirty toLowerCase base s.files s.history transaction := by
  rcases h.files with hclean | ⟨other, hdirty⟩
  · exact absurd htransaction (hclean.notPrepared transaction)
  · have hsame := hdirty.prepared
    rw [htransaction] at hsame
    injection hsame with hsame
    injection hsame with _ hsame
    rw [hsame]
    exact hdirty

omit hbase in
theorem inv_resolveFailedCommit (hlive : Live base s.history memory) (number : ℕ) (succeeds : Bool) :
    StoreInv toLowerCase base (s.resolveFailedCommit memory number succeeds) := by
  have hkeyed := h.memoryKeyed memory hmemory
  unfold resolveFailedCommit
  split
  · split
    · next hnone =>
      have hclean : Clean base s.files s.history := clean_of_files h (by simp [hnone])
      apply inv_answer
      apply inv_goTo h hkeyed
      exact Or.inr (Or.inl ⟨hlive, hclean⟩)
    · exact inv_blockUntilRestart h hkeyed hlive.loaded number
    · next transaction htransaction =>
      have hdirty := dirty_of_files h htransaction
      apply inv_goTo h hkeyed
      exact
        { dirty := hdirty
          same := by
            rw [hlive.cache]
            exact SameRestored.refl
          notBlocked := hlive.notBlocked
          loaded := ⟨fun _ => by simp, fun _ => hlive.loaded⟩
          live := fun _ => hlive }
  · exact inv_blockUntilRestart h hkeyed hlive.loaded number

omit hbase in
theorem inv_recoveryFailed {cause : RecoveryCause}
    (hrecovering : Recovering toLowerCase base s.files s.history memory transaction cause) :
    StoreInv toLowerCase base (s.recoveryFailed memory cause) := by
  have hkeyed := h.memoryKeyed memory hmemory
  cases cause with
  | failedCommit number =>
    exact inv_blockUntilRestart h hkeyed (hrecovering.loaded.mpr nofun) number
  | restart =>
    have hnotLoaded : memory.loaded = false := by
      by_contra hloaded
      exact hrecovering.loaded.mp (by simpa using hloaded) rfl
    apply inv_goTo h hkeyed
    exact Or.inr (Or.inr ⟨hnotLoaded, hrecovering.notBlocked,
      .inr ⟨transaction, hrecovering.dirty, hrecovering.same⟩⟩)

omit h hmemory in
/-- The catalog is written as it was. -/
theorem inv_restoreCatalog (h : StoreInv toLowerCase base s) (hmemory : s.memory = some memory)
    (hat : AtOperation toLowerCase base s.files s.history memory (.restoreCatalog recovery)) :
    StoreInv toLowerCase base
      (goTo { s with files.catalog := recovery.transaction.beforeLabels } memory
        (if recovery.updates.isEmpty then .removePrepared recovery
          else .restoreWorkspaces recovery)) := by
  obtain ⟨hrecovering, hstaged⟩ := hat
  have hdirty := hrecovering.dirty
  have hrecovering' : Recovering toLowerCase base
      { s.files with catalog := recovery.transaction.beforeLabels } s.history memory
      recovery.transaction recovery.cause :=
    ⟨⟨hdirty.prepared, hdirty.same, hdirty.origin⟩, hrecovering.same, hrecovering.notBlocked,
      hrecovering.loaded, hrecovering.live⟩
  apply inv_written h hmemory
  · exact h.keyed
  · exact .inr ⟨_, hrecovering'.dirty⟩
  by_cases hempty : recovery.updates.isEmpty = true
  · -- with nothing to restore in the records, the file is as the records are
    rw [if_pos hempty]
    refine ⟨hrecovering', hstaged, rfl, ?_⟩
    have hnil : LabelState.restored ⟨memory.labels, memory.cache⟩ recovery.transaction = [] := by
      show memory.state.restored recovery.transaction = []
      rw [← hstaged.1]
      exact List.isEmpty_iff.mp hempty
    have hsame : s.files.workspaces = memory.cache :=
      (hdirty.same.trans hrecovering.same.symm).eq_of_restored_nil
        (hdirty.functional hbase) h.keyed (h.memoryKeyed memory hmemory) hnil
    show s.files.workspaces = recovery.staged
    rw [hsame, hstaged.2, LabelState.recover, StoreMemory.state, hnil]
    rfl
  · rw [if_neg hempty]
    exact ⟨hrecovering', hstaged, rfl⟩

omit h hmemory in
/-- What the rollback has staged is what it makes of the history. -/
theorem staged_eq_recover (hkeyed : KeyedById memory.cache)
    (hrecovering : Recovering toLowerCase base s.files s.history memory recovery.transaction
      recovery.cause) (hstaged : StagedRollback memory recovery) :
    recovery.staged = ((replay base s.history).recover recovery.transaction).workspaces := by
  rw [hstaged.2]
  exact hrecovering.same.recover_eq (hrecovering.dirty.functional hbase) hkeyed
    (keyedById_replay hbase s.history)

omit h hmemory in
theorem inv_restoreWorkspaces (h : StoreInv toLowerCase base s) (hmemory : s.memory = some memory)
    (hat : AtOperation toLowerCase base s.files s.history memory (.restoreWorkspaces recovery)) :
    StoreInv toLowerCase base
      (goTo { s with files.workspaces := recovery.staged } memory (.removePrepared recovery)) := by
  obtain ⟨hrecovering, hstaged, hcatalog⟩ := hat
  have hdirty := hrecovering.dirty
  have hkeyed := h.memoryKeyed memory hmemory
  have hT := keyedById_replay hbase s.history
  have heq := staged_eq_recover hbase hkeyed hrecovering hstaged
  have hsame : SameRestored recovery.transaction recovery.staged
      (replay base s.history).workspaces := by
    rw [heq]
    exact sameRestored_recover (hdirty.functional hbase) hT
  have hrecovering' : Recovering toLowerCase base
      { s.files with workspaces := recovery.staged } s.history memory
      recovery.transaction recovery.cause :=
    ⟨⟨hdirty.prepared, hsame, hdirty.origin⟩, hrecovering.same, hrecovering.notBlocked,
      hrecovering.loaded, hrecovering.live⟩
  apply inv_written h hmemory
  · show KeyedById recovery.staged
    rw [heq]
    exact LabelState.recover_keyedById hT _
  · exact .inr ⟨_, hrecovering'.dirty⟩
  · exact ⟨hrecovering', hstaged, hcatalog, rfl⟩

omit h hmemory in
/-- The transaction is removed, and the history goes on with the rollback. -/
theorem inv_recovered (h : StoreInv toLowerCase base s) (hmemory : s.memory = some memory)
    (hat : AtOperation toLowerCase base s.files s.history memory (.removePrepared recovery)) :
    StoreInv toLowerCase base (s.recovered memory recovery) := by
  obtain ⟨hrecovering, hstaged, hcatalog, hworkspaces⟩ := hat
  have hdirty := hrecovering.dirty
  have heq := staged_eq_recover hbase (h.memoryKeyed memory hmemory) hrecovering hstaged
  have hT : (replay base (s.history ++ [.rolledBack recovery.transaction])) =
      (replay base s.history).recover recovery.transaction := replay_snoc _ _ _
  have hclean : Clean base { s.files with transaction := none }
      (s.history ++ [.rolledBack recovery.transaction]) := by
    constructor
    · intro transaction htransaction
      cases htransaction
    · rw [hT]
      exact hcatalog
    · rw [hT, ← heq]
      exact hworkspaces
  have hhistory : AtomicHistory toLowerCase base
      (s.history ++ [.rolledBack recovery.transaction]) := by
    obtain ⟨earlier, meanwhile, mutation, hsplit, hmeanwhile, hplanned⟩ := hdirty.origin
    have hstart := h.history
    rw [hsplit] at hstart ⊢
    exact .rolledBack hplanned hmeanwhile hstart
  have hlive : Live base (s.history ++ [.rolledBack recovery.transaction])
      { memory with
        cache := recovery.staged
        labels := recovery.transaction.beforeLabels
        activity := .idle
        loaded := true } := by
    refine ⟨rfl, hrecovering.notBlocked, ?_, ?_⟩
    · rw [hT]
      rfl
    · rw [hT, ← heq]
  have hkeyed : KeyedById recovery.staged := by
    rw [← hworkspaces]
    exact h.keyed
  unfold recovered
  cases hcause : recovery.cause with
  | failedCommit number =>
    have hloaded : memory.loaded = true := hrecovering.loaded.mpr (by simp [hcause])
    apply inv_answer
    apply inv_up
    · exact hhistory
    · exact h.keyed
    · exact .inl hclean
    · exact hkeyed
    · exact Or.inr (Or.inl ⟨⟨hloaded, hlive.notBlocked, hlive.labels, hlive.cache⟩, hclean⟩)
  | restart =>
    apply inv_up
    · exact hhistory
    · exact h.keyed
    · exact .inl hclean
    · exact hkeyed
    · exact Or.inr (Or.inl ⟨hlive, hclean⟩)

omit h hmemory in
theorem inv_recoverStep {succeeds : Bool} (h : StoreInv toLowerCase base s)
    (hmemory : s.memory = some memory) (hstep : s.recoverStep memory succeeds = some s') :
    StoreInv toLowerCase base s' := by
  have hat := h.memory memory hmemory
  have hkeyed := h.memoryKeyed memory hmemory
  unfold recoverStep at hstep
  split at hstep
  · next number hactivity =>
    rw [hactivity] at hat
    rw [← some.inj hstep]
    exact inv_resolveFailedCommit h hmemory hat.1 number succeeds
  · next transaction cause hactivity =>
    rw [hactivity] at hat
    rw [← some.inj hstep]
    apply inv_goTo h hkeyed
    exact ⟨hat, rfl, rfl⟩
  · next recovery hactivity =>
    rw [hactivity] at hat
    split at hstep
    · rw [← some.inj hstep]
      exact inv_restoreCatalog hbase h hmemory hat
    · rw [← some.inj hstep]
      exact inv_recoveryFailed h hmemory hat.1
  · next recovery hactivity =>
    rw [hactivity] at hat
    split at hstep
    · rw [← some.inj hstep]
      exact inv_restoreWorkspaces hbase h hmemory hat
    · rw [← some.inj hstep]
      exact inv_recoveryFailed h hmemory hat.1
  · next recovery hactivity =>
    rw [hactivity] at hat
    split at hstep
    · rw [← some.inj hstep]
      exact inv_recovered hbase h hmemory hat
    · rw [← some.inj hstep]
      exact inv_recoveryFailed h hmemory hat.1
  · cases hstep

end

/-! ### Loading -/

omit h hmemory in
theorem Fresh.recovering (hfresh : Fresh toLowerCase base s.files s.history memory)
    (htransaction : s.files.transaction = some (.prepared, transaction)) :
    Recovering toLowerCase base s.files s.history memory transaction .restart := by
  rcases hfresh.cache with ⟨hclean, -⟩ | ⟨other, hdirty, hsame⟩
  · exact absurd htransaction (hclean.notPrepared transaction)
  · have heq := hdirty.prepared
    rw [htransaction] at heq
    injection heq with heq
    injection heq with _ heq
    subst heq
    have hloaded := hfresh.notLoaded
    exact ⟨hdirty, hsame, hfresh.notBlocked, by simp [hloaded], by simp [hloaded]⟩

omit h hmemory in
/-- A store that has been loaded over clean files. -/
theorem Fresh.live (hfresh : Fresh toLowerCase base s.files s.history memory)
    (hclean : Clean base s.files s.history) {labels : List WorkspaceLabelDefinition}
    (hlabels : labels = (replay base s.history).catalog) :
    Live base s.history { memory with labels := labels, loaded := true, activity := .idle } := by
  refine ⟨rfl, hfresh.notBlocked, hlabels, ?_⟩
  rcases hfresh.cache with ⟨-, hcache⟩ | ⟨transaction, hdirty, -⟩
  · exact hcache
  · exact absurd hdirty.prepared (hclean.notPrepared transaction)

theorem inv_loadStep {succeeds : Bool} (hstep : s.loadStep memory succeeds = some s') :
    StoreInv toLowerCase base s' := by
  have hat := h.memory memory hmemory
  have hkeyed := h.memoryKeyed memory hmemory
  unfold loadStep at hstep
  split at hstep
  · next hactivity =>
    rw [hactivity] at hat
    split at hstep
    · split at hstep
      · next hnone =>
        rw [← some.inj hstep]
        apply inv_goTo h hkeyed
        exact ⟨hat, clean_of_files h (by simp [hnone])⟩
      · next transaction hcommitted =>
        rw [← some.inj hstep]
        apply inv_goTo h hkeyed
        exact ⟨hat, clean_of_files h (by simp [hcommitted])⟩
      · next transaction hprepared =>
        rw [← some.inj hstep]
        apply inv_goTo h hkeyed
        exact Fresh.recovering hat hprepared
    · rw [← some.inj hstep]
      apply inv_goTo h hkeyed
      exact Or.inr (Or.inr hat)
  · next hactivity =>
    rw [hactivity] at hat
    split at hstep
    · rw [← some.inj hstep]
      apply inv_withMemory h
      · exact hkeyed
      · exact Or.inr (Or.inl ⟨Fresh.live hat.1 hat.2 hat.2.catalog, hat.2⟩)
    · rw [← some.inj hstep]
      apply inv_goTo h hkeyed
      exact Or.inr (Or.inr hat.1)
  · next hactivity =>
    rw [hactivity] at hat
    split at hstep
    · rw [← some.inj hstep]
      apply inv_withMemory h
      · exact hkeyed
      · exact ⟨⟨hat.1.notLoaded, hat.1.notBlocked, hat.1.cache⟩, hat.2, hat.2.catalog⟩
    · rw [← some.inj hstep]
      apply inv_goTo h hkeyed
      exact Or.inr (Or.inr hat.1)
  · next hactivity =>
    rw [hactivity] at hat
    obtain ⟨hfresh, hclean, hlabels⟩ := hat
    have hclean' := clean_cleanUp succeeds hclean
    rw [← some.inj hstep]
    apply inv_up
    · exact h.history
    · exact h.keyed
    · exact .inl hclean'
    · exact hkeyed
    · exact Or.inr (Or.inl ⟨Fresh.live hfresh hclean hlabels, hclean'⟩)
  · cases hstep

/-! ### Other mutations -/

theorem inv_mutate {mutation : RegistryMutation ρ} {written : Bool}
    (hstep : s.mutate memory mutation written = some s') : StoreInv toLowerCase base s' := by
  have hat := h.memory memory hmemory
  have hkeyed := h.memoryKeyed memory hmemory
  unfold mutate at hstep
  split at hstep
  · cases hstep
  · next hfree =>
    split at hstep
    · rw [← some.inj hstep]
      exact h
    · next hblocked =>
      have hfree : memory.activity.inQueue = false := by simpa using hfree
      have hblocked : memory.blocked = false := by simpa using hblocked
      split at hstep
      · rw [← some.inj hstep]
        exact h
      · next change hchange =>
        split at hstep
        · rw [← some.inj hstep]
          have hat' := atOperation_mutated change hfree hblocked hat
          exact
            { history := .mutated change h.history
              keyed := hkeyed.change change
              files := by
                rcases h.files with hclean | ⟨transaction, hdirty⟩
                · exact .inl (hclean.mutated ((hat.cache hfree hblocked).1 hclean) change)
                · exact .inr ⟨transaction, dirty_mutated change hdirty
                    ((hat.cache hfree hblocked).2 transaction hdirty)⟩
              memoryKeyed := fun other hother => by
                rw [← some.inj hother]
                exact hkeyed.change change
              memory := fun other hother => by
                rw [← some.inj hother]
                exact hat' }
        · rw [← some.inj hstep]
          exact h

/-! ### Starting a commit -/

omit h hmemory in
/-- A mutation that is not written changes nothing. -/
theorem commit_of_not_forcePersist {state : LabelState ρ} (h : mutation.forcePersist state = false) :
    state.commit mutation = state := by
  simp only [WorkspaceLabelMutation.forcePersist, Bool.or_eq_false_iff, decide_eq_false_iff_not,
    not_lt, nonpos_iff_eq_zero, length_eq_zero_iff, ne_eq, not_not] at h
  rw [LabelState.commit, h.1, h.2]
  rfl

omit h hmemory in
theorem clean_unchanged {number : ℕ} (hclean : Clean base s.files s.history)
    (hsame : (replay base s.history).commit mutation = replay base s.history) :
    Clean base s.files (s.history ++ [.committed number mutation]) where
  notPrepared := hclean.notPrepared
  catalog := by
    rw [replay_snoc, HistoryEntry.apply, hsame]
    exact hclean.catalog
  workspaces := by
    rw [replay_snoc, HistoryEntry.apply, hsame]
    exact hclean.workspaces

omit hmemory in
theorem inv_numbered (started : ℕ) :
    StoreInv toLowerCase base { s with started } :=
  ⟨h.history, h.keyed, h.files, h.memoryKeyed, h.memory⟩

/-- A commit runs on a store that has been loaded. -/
theorem live_of_idle (hidle : memory.activity = .idle) (hloaded : memory.loaded = true)
    (hblocked : memory.blocked = false) :
    Live base s.history memory ∧ Clean base s.files s.history := by
  have hat := h.memory memory hmemory
  rw [hidle] at hat
  rcases hat with htrue | hlive | hfresh
  · exact absurd (hblocked.symm.trans htrue.1) (by decide)
  · exact hlive
  · exact absurd (hfresh.notLoaded.symm.trans hloaded) (by decide)

theorem inv_commit {request : LabelRequest} {now : String}
    (hstep : s.commit toLowerCase memory request now = some s') : StoreInv toLowerCase base s' := by
  have hkeyed := h.memoryKeyed memory hmemory
  have hnumbered := inv_numbered h (s.started + 1)
  unfold commit at hstep
  split at hstep
  · next hidle =>
    split at hstep
    · cases hstep
    · next hloaded =>
      split at hstep
      · rw [← some.inj hstep]
        exact inv_answer hnumbered _ _
      · next hblocked =>
        obtain ⟨hlive, hclean⟩ :=
          live_of_idle h hmemory hidle (by simpa using hloaded) (by simpa using hblocked)
        split at hstep
        · rw [← some.inj hstep]
          apply inv_goTo hnumbered hkeyed
          exact ⟨hlive, .inl hclean⟩
        · next mutation hplan =>
          rw [hlive.state_eq] at hplan hstep
          have hplanned : PlannedAfter toLowerCase base s.history mutation
              (transactionFor (replay base s.history) mutation) := ⟨⟨now, request, hplan⟩, rfl⟩
          split at hstep
          · rw [← some.inj hstep]
            apply inv_goTo hnumbered hkeyed
            refine ⟨hlive, hclean, hplanned, ?_⟩
            show applyUpdates memory.cache mutation.workspaceUpdates = _
            rw [hlive.cache]
            rfl
          · next hforce =>
            have hsame := commit_of_not_forcePersist (by simpa using hforce)
            have hclean' : Clean base s.files (s.history ++ [.committed s.started mutation]) :=
              clean_unchanged hclean hsame
            rw [← some.inj hstep]
            exact
              { history := .committed s.started hplanned h.history
                keyed := h.keyed
                files := .inl hclean'
                memoryKeyed := fun other hother => by
                  rw [← some.inj hother]
                  exact hkeyed
                memory := fun other hother => by
                  rw [← some.inj hother]
                  refine ⟨⟨hlive.loaded, hlive.notBlocked, ?_, ?_⟩, hclean'⟩
                  · show memory.labels = (replay base (s.history ++ [_])).catalog
                    rw [replay_snoc, HistoryEntry.apply, hsame]
                    exact hlive.labels
                  · show memory.cache = (replay base (s.history ++ [_])).workspaces
                    rw [replay_snoc, HistoryEntry.apply, hsame]
                    exact hlive.cache }
  · cases hstep

/-! ### Runs -/

theorem inv_load (hstep : s.load memory = some s') : StoreInv toLowerCase base s' := by
  have hat := h.memory memory hmemory
  unfold load at hstep
  split at hstep
  · next hidle =>
    split at hstep
    · rw [← some.inj hstep]
      exact h
    · next hloaded =>
      rw [← some.inj hstep]
      apply inv_goTo h (h.memoryKeyed memory hmemory)
      rw [hidle] at hat
      rcases hat with hblocked | ⟨hlive, -⟩ | hfresh
      · exact absurd hblocked.2 hloaded
      · exact absurd hlive.loaded hloaded
      · exact hfresh
  · cases hstep

end

theorem inv_crash :
    StoreInv toLowerCase base { s with memory := none } :=
  { h with
    memoryKeyed := fun memory hmemory => by cases hmemory
    memory := fun memory hmemory => by cases hmemory }

theorem inv_restart : StoreInv toLowerCase base s.restart := by
  apply inv_withMemory h
  · exact h.keyed
  · refine Or.inr (Or.inr ⟨rfl, rfl, ?_⟩)
    rcases h.files with hclean | ⟨transaction, hdirty⟩
    · exact .inl ⟨hclean, hclean.workspaces⟩
    · exact .inr ⟨transaction, hdirty, hdirty.same⟩

end

theorem inv_step {event : StoreEvent ρ} (hbase : KeyedById base.workspaces)
    (h : StoreInv toLowerCase base s) (hstep : s.step toLowerCase event = some s') :
    StoreInv toLowerCase base s' := by
  cases event with
  | mutate mutation written =>
    obtain ⟨memory, hmemory, hstep⟩ := bind_eq_some_iff.mp hstep
    exact inv_mutate h hmemory hstep
  | commit request now =>
    obtain ⟨memory, hmemory, hstep⟩ := bind_eq_some_iff.mp hstep
    exact inv_commit h hmemory hstep
  | load =>
    obtain ⟨memory, hmemory, hstep⟩ := bind_eq_some_iff.mp hstep
    exact inv_load h hmemory hstep
  | proceed succeeds =>
    obtain ⟨memory, hmemory, hstep⟩ := bind_eq_some_iff.mp hstep
    rcases or_eq_some_iff.mp hstep with hfirst | ⟨-, hload⟩
    · rcases or_eq_some_iff.mp hfirst with hcommit | ⟨-, hrecover⟩
      · exact inv_commitStep hbase h hmemory hcommit
      · exact inv_recoverStep hbase h hmemory hrecover
    · exact inv_loadStep h hmemory hload
  | crash =>
    rw [← some.inj hstep]
    exact inv_crash h
  | restart =>
    simp only [step] at hstep
    split at hstep
    · rw [← some.inj hstep]
      exact inv_restart h
    · cases hstep

theorem inv_run {events : List (StoreEvent ρ)} (hbase : KeyedById base.workspaces)
    (h : StoreInv toLowerCase base s) (hrun : s.run toLowerCase events = some s') :
    StoreInv toLowerCase base s' := by
  induction events generalizing s with
  | nil =>
    rw [← some.inj hrun]
    exact h
  | cons event events ih =>
    obtain ⟨middle, hstep, hrest⟩ := bind_eq_some_iff.mp hrun
    exact ih (inv_step hbase h hstep) hrest

theorem inv_down {catalog : List WorkspaceLabelDefinition}
    {workspaces : OrderedMap String (PersistedWorkspaceRecord ρ)} (h : KeyedById workspaces) :
    StoreInv toLowerCase ⟨catalog, workspaces⟩ (down catalog workspaces) where
  history := .start
  keyed := h
  files := .inl ⟨fun _ hnone => (by cases hnone), rfl, rfl⟩
  memoryKeyed := fun memory hmemory => by cases hmemory
  memory := fun memory hmemory => by cases hmemory

end CatalogStore

end Orqara.Labels
