import Orqara.Labels.CrashAtomicity

/-!
# The answers of label commits

A commit that has returned is in the history, one that was rejected is not. Together with the
invariant of the files this says what a commit and a crash can leave behind.
-/

namespace Orqara.Labels

open List Option

variable {ρ : Type} {toLowerCase : String → String}

/-! ## Answers and the history -/

/-- The commit that a recovery is made for. -/
def RecoveryCause.number : RecoveryCause → Option ℕ
  | .failedCommit number => some number
  | .restart => none

/-- The commit that an operation belongs to as long as it may still be rejected. -/
def Activity.undecided : Activity ρ → Option ℕ
  | .writePrepared commit => some commit.number
  | .writeCatalog commit => some commit.number
  | .writeWorkspaces commit => some commit.number
  | .writeCommitted commit => some commit.number
  | .readFailed number => some number
  | .awaitRecovery _ cause => cause.number
  | .restoreCatalog recovery => recovery.cause.number
  | .restoreWorkspaces recovery => recovery.cause.number
  | .removePrepared recovery => recovery.cause.number
  | _ => none

/-- The commit whose transaction is being removed. -/
def Activity.decided : Activity ρ → Option (ℕ × WorkspaceLabelMutation ρ)
  | .cleanUp number mutation => some (number, mutation)
  | _ => none

/-- A commit that has neither been rejected nor entered the history. -/
structure Undecided (s : CatalogStore ρ) (number : ℕ) : Prop where
  started : number < s.started
  notCommitted : ∀ mutation, .committed number mutation ∉ s.history
  notRejected : (number, .rejected) ∉ s.answers

/-- The answers so far agree with the history. -/
structure AnswersInv (s : CatalogStore ρ) : Prop where
  answered : ∀ number answer, (number, answer) ∈ s.answers → number < s.started
  recorded : ∀ number mutation, .committed number mutation ∈ s.history → number < s.started
  done : ∀ number mutation, (number, .done mutation) ∈ s.answers →
    .committed number mutation ∈ s.history
  rejected : ∀ number, (number, .rejected) ∈ s.answers →
    ∀ mutation, .committed number mutation ∉ s.history
  undecided : ∀ memory ∈ s.memory, ∀ number ∈ memory.activity.undecided, Undecided s number
  decided : ∀ memory ∈ s.memory, ∀ commit ∈ memory.activity.decided,
    .committed commit.1 commit.2 ∈ s.history

namespace CatalogStore

variable {s s' : CatalogStore ρ} {memory : StoreMemory ρ} {files : LabelFiles ρ} {other : StoreMemory ρ}
  {succeeds : Bool} {event : StoreEvent ρ}

/-- Commits neither enter the history nor get answers, and the store goes on with none but the given
one. -/
structure Moves (s : CatalogStore ρ) (memory : StoreMemory ρ) (undecided : Option ℕ)
    (s' : CatalogStore ρ) : Prop where
  answers : s'.answers = s.answers
  started : s'.started = s.started
  history : ∀ number mutation, .committed number mutation ∈ s'.history ↔
    .committed number mutation ∈ s.history
  undecided : ∀ other ∈ s'.memory, ∀ number ∈ other.activity.undecided, number ∈ undecided
  decided : ∀ other ∈ s'.memory, ∀ commit ∈ other.activity.decided, commit ∈ memory.activity.decided

variable {undecided : Option ℕ}

theorem moves_to (hundecided : ∀ number ∈ other.activity.undecided, number ∈ undecided)
    (hdecided : other.activity.decided = none) :
    Moves s memory undecided { s with files, memory := some other } where
  answers := rfl
  started := rfl
  history _ _ := Iff.rfl
  undecided memory hmemory := by
    rw [← some.inj hmemory]
    exact hundecided
  decided memory hmemory := by
    rw [← some.inj hmemory, hdecided]
    exact nofun

theorem moves_same (hmemory : s.memory = some memory) :
    Moves s memory memory.activity.undecided s := by
  refine ⟨rfl, rfl, fun _ _ => Iff.rfl, ?_, ?_⟩
  all_goals
    rw [hmemory]
    intro other hother
    rw [← some.inj hother]
    exact fun _ h => h

/-- Another entry of the history says nothing of commits. -/
theorem Moves.record {entry : HistoryEntry ρ} (h : Moves s memory undecided s')
    (hentry : ∀ number mutation, entry ≠ .committed number mutation) :
    Moves s memory undecided (s'.record entry) where
  answers := h.answers
  started := h.started
  history number mutation := by
    rw [← h.history, CatalogStore.record, mem_append, mem_singleton]
    exact or_iff_left (hentry number mutation).symm
  undecided := h.undecided
  decided := h.decided

theorem Moves.answersInv (hmoves : Moves s memory undecided s') (h : AnswersInv s)
    (hundecided : ∀ number ∈ undecided, Undecided s number)
    (hdecided : ∀ commit ∈ memory.activity.decided, .committed commit.1 commit.2 ∈ s.history) :
    AnswersInv s' where
  answered number answer hmem := by
    rw [hmoves.answers] at hmem
    exact (h.answered number answer hmem).trans_eq hmoves.started.symm
  recorded number mutation hmem :=
    (h.recorded number mutation ((hmoves.history number mutation).mp hmem)).trans_eq hmoves.started.symm
  done number mutation hmem := by
    rw [hmoves.answers] at hmem
    exact (hmoves.history number mutation).mpr (h.done number mutation hmem)
  rejected number hmem mutation := by
    rw [hmoves.answers] at hmem
    exact mt (hmoves.history number mutation).mp (h.rejected number hmem mutation)
  undecided other hother number hnumber := by
    have hpending := hundecided number (hmoves.undecided other hother number hnumber)
    refine ⟨hpending.started.trans_eq hmoves.started.symm, fun mutation => ?_, ?_⟩
    · exact mt (hmoves.history number mutation).mp (hpending.notCommitted mutation)
    · rw [hmoves.answers]
      exact hpending.notRejected
  decided other hother commit hcommit :=
    (hmoves.history _ _).mpr (hdecided commit (hmoves.decided other hother commit hcommit))

section

variable (h : AnswersInv s)
include h

/-- A commit is answered. -/
theorem answers_answer {number : ℕ} {answer : CommitAnswer ρ}
    (hstarted : number < s.started)
    (hfree : ∀ memory ∈ s.memory, memory.activity.undecided = none)
    (hdone : ∀ mutation, answer = .done mutation → .committed number mutation ∈ s.history)
    (hrejected : answer = .rejected → ∀ mutation, .committed number mutation ∉ s.history) :
    AnswersInv (s.answer number answer) where
  answered := fun other otherAnswer hmem => by
    rcases List.mem_append.mp hmem with hold | hnew
    · exact h.answered other otherAnswer hold
    · injection List.mem_singleton.mp hnew with hnumber
      rw [hnumber]
      exact hstarted
  recorded := h.recorded
  done := fun other mutation hmem => by
    rcases List.mem_append.mp hmem with hold | hnew
    · exact h.done other mutation hold
    · injection List.mem_singleton.mp hnew with hnumber hanswer
      rw [hnumber]
      exact hdone mutation hanswer.symm
  rejected := fun other hmem => by
    rcases List.mem_append.mp hmem with hold | hnew
    · exact h.rejected other hold
    · injection List.mem_singleton.mp hnew with hnumber hanswer
      rw [hnumber]
      exact hrejected hanswer.symm
  undecided := fun memory hmemory other hother => by
    rw [hfree memory hmemory] at hother
    cases hother
  decided := h.decided

/-- A commit enters the history. -/
theorem answers_committed {number : ℕ} {mutation : WorkspaceLabelMutation ρ}
    (hpending : Undecided s number) (hactivity : other.activity = .cleanUp number mutation) :
    AnswersInv (record { s with files, memory := some other } (.committed number mutation)) where
  answered := h.answered
  recorded := fun n m hmem => by
    rcases List.mem_append.mp hmem with hold | hnew
    · exact h.recorded n m hold
    · injection List.mem_singleton.mp hnew with hnumber
      rw [hnumber]
      exact hpending.started
  done := fun n m hmem => List.mem_append_left _ (h.done n m hmem)
  rejected := fun n hmem m hcommitted => by
    rcases List.mem_append.mp hcommitted with hold | hnew
    · exact h.rejected n hmem m hold
    · injection List.mem_singleton.mp hnew with hnumber
      rw [hnumber] at hmem
      exact hpending.notRejected hmem
  undecided := fun memory hmemory n hn => by
    rw [← Option.some.inj hmemory, hactivity] at hn
    cases hn
  decided := fun memory hmemory commit hcommit => by
    rw [← Option.some.inj hmemory, hactivity] at hcommit
    rw [← Option.some.inj hcommit]
    exact List.mem_append_right _ List.mem_cons_self

theorem answers_numbered : AnswersInv { s with started := s.started + 1 } :=
  { h with
    answered := fun number answer hmem => (h.answered number answer hmem).trans (Nat.lt_succ_self _)
    recorded := fun number mutation hmem =>
      (h.recorded number mutation hmem).trans (Nat.lt_succ_self _)
    undecided := fun memory hmemory number hnumber =>
      have hpending := h.undecided memory hmemory number hnumber
      ⟨hpending.started.trans (Nat.lt_succ_self _), hpending.notCommitted, hpending.notRejected⟩ }

/-- A commit that starts is undecided. -/
theorem undecided_started :
    Undecided { s with started := s.started + 1 } s.started where
  started := Nat.lt_succ_self _
  notCommitted := fun mutation hmem => lt_irrefl _ (h.recorded s.started mutation hmem)
  notRejected := fun hmem => lt_irrefl _ (h.answered s.started .rejected hmem)

end

/-! ## Steps -/

/-- What a step makes of the commit at work, if it has one. -/
inductive Outcome (s : CatalogStore ρ) (memory : StoreMemory ρ) (undecided : Option ℕ) :
    CatalogStore ρ → Prop
  | moves {s' : CatalogStore ρ} (h : Moves s memory undecided s') : Outcome s memory undecided s'
  | commits {files : LabelFiles ρ} {other : StoreMemory ρ} {number : ℕ} {mutation : WorkspaceLabelMutation ρ}
      (hnumber : number ∈ undecided) (hactivity : other.activity = .cleanUp number mutation) :
      Outcome s memory undecided
        (record { s with files, memory := some other } (.committed number mutation))
  | done {s' : CatalogStore ρ} {number : ℕ} {mutation : WorkspaceLabelMutation ρ}
      (h : Moves s memory undecided s') (hidle : ∀ other ∈ s'.memory, other.activity = .idle)
      (hdecided : (number, mutation) ∈ memory.activity.decided) :
      Outcome s memory undecided (s'.answer number (.done mutation))
  | uncertain {s' : CatalogStore ρ} {number : ℕ} (h : Moves s memory undecided s')
      (hidle : ∀ other ∈ s'.memory, other.activity = .idle) (hnumber : number ∈ undecided) :
      Outcome s memory undecided (s'.answer number .uncertain)
  | rejected {s' : CatalogStore ρ} {other : StoreMemory ρ} {number : ℕ} (h : Moves s memory undecided s')
      (hother : s'.memory = some other) (hidle : other.activity = .idle)
      (hready : other.loaded = memory.loaded ∧ other.blocked = memory.blocked)
      (hnumber : number ∈ undecided) (hwork : number ∈ memory.activity.undecided) :
      Outcome s memory undecided (s'.answer number .rejected)

theorem Outcome.answersInv (ho : Outcome s memory undecided s') (h : AnswersInv s)
    (hundecided : ∀ number ∈ undecided, Undecided s number)
    (hdecided : ∀ commit ∈ memory.activity.decided, .committed commit.1 commit.2 ∈ s.history) :
    AnswersInv s' := by
  have hfree {s' : CatalogStore ρ} (hidle : ∀ other ∈ s'.memory, other.activity = .idle) :
      ∀ other ∈ s'.memory, other.activity.undecided = none := by
    intro other hother
    rw [hidle other hother]
    rfl
  cases ho with
  | moves hmoves => exact hmoves.answersInv h hundecided hdecided
  | commits hnumber hactivity => exact answers_committed h (hundecided _ hnumber) hactivity
  | @done s' number mutation hmoves hidle hcommit =>
    have hcommitted := hdecided _ hcommit
    apply answers_answer (hmoves.answersInv h hundecided hdecided)
    · exact (h.recorded number mutation hcommitted).trans_eq hmoves.started.symm
    · exact hfree hidle
    · intro other hdone
      injection hdone with hdone
      rw [← hdone]
      exact (hmoves.history number mutation).mpr hcommitted
    · exact nofun
  | uncertain hmoves hidle hnumber =>
    apply answers_answer (hmoves.answersInv h hundecided hdecided)
    · exact (hundecided _ hnumber).started.trans_eq hmoves.started.symm
    · exact hfree hidle
    · exact nofun
    · exact nofun
  | @rejected s' other number hmoves hother hidle hready hnumber hwork =>
    have hpending := hundecided number hnumber
    apply answers_answer (hmoves.answersInv h hundecided hdecided)
    · exact hpending.started.trans_eq hmoves.started.symm
    · apply hfree
      rw [hother]
      intro memory hmemory
      rw [← some.inj hmemory, hidle]
    · exact nofun
    · exact fun _ mutation => mt (hmoves.history number mutation).mp (hpending.notCommitted mutation)

theorem outcome_blockUntilRestart {number : ℕ} (hnumber : number ∈ undecided) :
    Outcome s memory undecided (s.blockUntilRestart memory number) := by
  refine .uncertain ?_ ?_ hnumber
  · exact moves_to nofun rfl
  · intro other hother
    rw [← some.inj hother]

theorem outcome_commit {request : LabelRequest} {now : String} (hmemory : s.memory = some memory)
    (hstep : s.commit toLowerCase memory request now = some s') :
    Outcome { s with started := s.started + 1 } memory (some s.started) s' := by
  unfold commit at hstep
  split at hstep
  · next hidle =>
    have hat : ∀ other ∈ s.memory, other = memory := by
      rw [hmemory]
      exact fun _ hother => (some.inj hother).symm
    split at hstep
    · cases hstep
    · split at hstep
      · rw [← some.inj hstep]
        refine .uncertain ⟨rfl, rfl, fun _ _ => Iff.rfl, ?_, ?_⟩ ?_ rfl
        all_goals
          intro other hother
          rw [hat other hother, hidle]
        · exact nofun
        · exact nofun
      · split at hstep
        · rw [← some.inj hstep]
          exact .moves (moves_to (fun _ h => h) rfl)
        · split at hstep
          · rw [← some.inj hstep]
            exact .moves (moves_to (fun _ h => h) rfl)
          · rw [← some.inj hstep]
            exact .commits rfl rfl
  · cases hstep

theorem outcome_commitStep (hstep : s.commitStep memory succeeds = some s') :
    Outcome s memory memory.activity.undecided s' := by
  unfold commitStep at hstep
  split at hstep
  · next commit hactivity =>
    rw [hactivity]
    split at hstep
    · rw [← some.inj hstep]
      exact .moves (moves_to (fun _ h => h) rfl)
    · rw [← some.inj hstep]
      exact .moves (moves_to (fun _ h => h) rfl)
  · next commit hactivity =>
    rw [hactivity]
    split at hstep
    · rw [← some.inj hstep]
      split_ifs
      · exact .moves (moves_to (fun _ h => h) rfl)
      · exact .moves (moves_to (fun _ h => h) rfl)
    · rw [← some.inj hstep]
      exact .moves (moves_to (fun _ h => h) rfl)
  · next commit hactivity =>
    rw [hactivity]
    split at hstep
    · rw [← some.inj hstep]
      exact .moves (moves_to (fun _ h => h) rfl)
    · rw [← some.inj hstep]
      exact .moves (moves_to (fun _ h => h) rfl)
  · next commit hactivity =>
    rw [hactivity]
    split at hstep
    · rw [← some.inj hstep]
      exact .commits rfl rfl
    · rw [← some.inj hstep]
      exact .moves (moves_to (fun _ h => h) rfl)
  · next number mutation hactivity =>
    rw [← some.inj hstep]
    apply Outcome.done
    · exact moves_to nofun rfl
    · intro other hother
      rw [← some.inj hother]
    · rw [hactivity]
      rfl
  · cases hstep

theorem outcome_recoveryFailed {cause : RecoveryCause} (hcause : cause.number = undecided) :
    Outcome s memory undecided (s.recoveryFailed memory cause) := by
  cases cause with
  | failedCommit number => exact outcome_blockUntilRestart hcause.symm
  | restart => exact .moves (moves_to nofun rfl)

theorem outcome_resolveFailedCommit {number : ℕ} (hwork : memory.activity.undecided = some number) :
    Outcome s memory memory.activity.undecided (s.resolveFailedCommit memory number succeeds) := by
  unfold resolveFailedCommit
  split
  · split
    · exact .rejected (moves_to nofun rfl) rfl rfl ⟨rfl, rfl⟩ hwork hwork
    · exact outcome_blockUntilRestart hwork
    · rw [hwork]
      exact .moves (moves_to (fun _ h => h) rfl)
  · exact outcome_blockUntilRestart hwork

theorem outcome_recovered {recovery : StagedRecovery ρ}
    (hwork : memory.activity.undecided = recovery.cause.number) :
    Outcome s memory memory.activity.undecided (s.recovered memory recovery) := by
  have hmoves (other : StoreMemory ρ) (hnone : other.activity.undecided = none)
      (hdecided : other.activity.decided = none) : Moves s memory memory.activity.undecided
        (withMemory (record { s with files.transaction := none } (.rolledBack recovery.transaction)) other) := by
    apply Moves.record (moves_to (by simp [hnone]) hdecided)
    intro number mutation hsame
    contradiction
  unfold recovered
  cases hcause : recovery.cause with
  | failedCommit number =>
    have hnumber : memory.activity.undecided = some number := by rw [hwork, hcause]; rfl
    exact .rejected (hmoves _ rfl rfl) rfl rfl ⟨rfl, rfl⟩ hnumber hnumber
  | restart => exact .moves (hmoves _ rfl rfl)

theorem outcome_recoverStep (hstep : s.recoverStep memory succeeds = some s') :
    Outcome s memory memory.activity.undecided s' := by
  unfold recoverStep at hstep
  split at hstep
  · next number hactivity =>
    rw [← some.inj hstep]
    exact outcome_resolveFailedCommit (by rw [hactivity]; rfl)
  · next transaction cause hactivity =>
    rw [← some.inj hstep, hactivity]
    exact .moves (moves_to (fun _ h => h) rfl)
  · next recovery hactivity =>
    rw [hactivity]
    split at hstep
    · rw [← some.inj hstep]
      split_ifs
      · exact .moves (moves_to (fun _ h => h) rfl)
      · exact .moves (moves_to (fun _ h => h) rfl)
    · rw [← some.inj hstep]
      exact outcome_recoveryFailed rfl
  · next recovery hactivity =>
    rw [hactivity]
    split at hstep
    · rw [← some.inj hstep]
      exact .moves (moves_to (fun _ h => h) rfl)
    · rw [← some.inj hstep]
      exact outcome_recoveryFailed rfl
  · next recovery hactivity =>
    have hwork : memory.activity.undecided = recovery.cause.number := by rw [hactivity]; rfl
    split at hstep
    · rw [← some.inj hstep]
      exact outcome_recovered hwork
    · rw [← some.inj hstep]
      exact outcome_recoveryFailed hwork.symm
  · cases hstep

theorem moves_loadStep (hstep : s.loadStep memory succeeds = some s') : Moves s memory undecided s' := by
  unfold loadStep at hstep
  split at hstep
  · split at hstep
    · split at hstep
      all_goals
        rw [← some.inj hstep]
        exact moves_to nofun rfl
    · rw [← some.inj hstep]
      exact moves_to nofun rfl
  · split at hstep
    all_goals
      rw [← some.inj hstep]
      exact moves_to nofun rfl
  · split at hstep
    all_goals
      rw [← some.inj hstep]
      exact moves_to nofun rfl
  · rw [← some.inj hstep]
    exact moves_to nofun rfl
  · cases hstep

theorem moves_mutate {mutation : RegistryMutation ρ} {written : Bool} (hmemory : s.memory = some memory)
    (hstep : s.mutate memory mutation written = some s') :
    Moves s memory memory.activity.undecided s' := by
  unfold mutate at hstep
  split at hstep
  · cases hstep
  · split at hstep
    · rw [← some.inj hstep]
      exact moves_same hmemory
    · split at hstep
      · rw [← some.inj hstep]
        exact moves_same hmemory
      · split at hstep
        · rw [← some.inj hstep]
          apply Moves.record
          · refine ⟨rfl, rfl, fun _ _ => Iff.rfl, ?_, ?_⟩
            all_goals
              intro other hother
              rw [← some.inj hother]
              exact fun _ h => h
          · intro number entry hsame
            contradiction
        · rw [← some.inj hstep]
          exact moves_same hmemory

theorem moves_load (hmemory : s.memory = some memory) (hstep : s.load memory = some s') :
    Moves s memory memory.activity.undecided s' := by
  unfold load at hstep
  split at hstep
  · split at hstep
    · rw [← some.inj hstep]
      exact moves_same hmemory
    · rw [← some.inj hstep]
      exact moves_to nofun rfl
  · cases hstep

/-- Every step but a crash, a restart and the start of a commit. -/
theorem step_outcome (hstep : s.step toLowerCase event = some s') :
    (∃ memory, s.memory = some memory ∧ (Outcome s memory memory.activity.undecided s' ∨
      Outcome { s with started := s.started + 1 } memory (some s.started) s')) ∨
    s' = { s with memory := none } ∨ s' = s.restart := by
  cases event with
  | mutate mutation written =>
    obtain ⟨memory, hmemory, hstep⟩ := bind_eq_some_iff.mp hstep
    exact .inl ⟨memory, hmemory, .inl (.moves (moves_mutate hmemory hstep))⟩
  | commit request now =>
    obtain ⟨memory, hmemory, hstep⟩ := bind_eq_some_iff.mp hstep
    exact .inl ⟨memory, hmemory, .inr (outcome_commit hmemory hstep)⟩
  | load =>
    obtain ⟨memory, hmemory, hstep⟩ := bind_eq_some_iff.mp hstep
    exact .inl ⟨memory, hmemory, .inl (.moves (moves_load hmemory hstep))⟩
  | proceed succeeds =>
    obtain ⟨memory, hmemory, hstep⟩ := bind_eq_some_iff.mp hstep
    refine .inl ⟨memory, hmemory, .inl ?_⟩
    rcases or_eq_some_iff.mp hstep with hfirst | ⟨-, hload⟩
    · rcases or_eq_some_iff.mp hfirst with hcommit | ⟨-, hrecover⟩
      · exact outcome_commitStep hcommit
      · exact outcome_recoverStep hrecover
    · exact .moves (moves_loadStep hload)
  | crash => exact .inr (.inl (some.inj hstep).symm)
  | restart =>
    simp only [step] at hstep
    split at hstep
    · exact .inr (.inr (some.inj hstep).symm)
    · cases hstep

theorem answers_step (h : AnswersInv s) (hstep : s.step toLowerCase event = some s') : AnswersInv s' := by
  rcases step_outcome hstep with ⟨memory, hmemory, hgoes | hstarts⟩ | rfl | rfl
  · exact hgoes.answersInv h (h.undecided memory hmemory) (h.decided memory hmemory)
  · apply hstarts.answersInv (answers_numbered h)
    · intro number hnumber
      rw [← some.inj hnumber]
      exact undecided_started h
    · exact h.decided memory hmemory
  · exact ⟨h.answered, h.recorded, h.done, h.rejected, nofun, nofun⟩
  · refine ⟨h.answered, h.recorded, h.done, h.rejected, ?_, ?_⟩
    all_goals
      intro other hother
      rw [← some.inj hother]
      exact nofun

theorem answers_run {events : List (StoreEvent ρ)} (h : AnswersInv s)
    (hrun : s.run toLowerCase events = some s') : AnswersInv s' := by
  induction events generalizing s with
  | nil =>
    rw [← some.inj hrun]
    exact h
  | cons event events ih =>
    obtain ⟨middle, hstep, hrest⟩ := bind_eq_some_iff.mp hrun
    exact ih (answers_step h hstep) hrest

theorem answers_down (catalog : List WorkspaceLabelDefinition)
    (workspaces : OrderedMap String (PersistedWorkspaceRecord ρ)) :
    AnswersInv (down catalog workspaces) := ⟨nofun, nofun, nofun, nofun, nofun, nofun⟩

end CatalogStore

/-! ## Rejections -/

section Rejections

variable {base : LabelState ρ} {s s' : CatalogStore ρ} {memory : StoreMemory ρ} {middle : CatalogStore ρ}

/-- The store is idle, has been loaded and is not blocked. -/
structure Ready (memory : StoreMemory ρ) : Prop where
  idle : memory.activity = .idle
  loaded : memory.loaded = true
  notBlocked : memory.blocked = false

/-- A commit that a step rejects was the one at work, and the store is idle after it. -/
def RejectsAtWork (s s' : CatalogStore ρ) (memory : StoreMemory ρ) : Prop :=
  ∀ number, (number, .rejected) ∈ s'.answers → (number, .rejected) ∈ s.answers ∨
    number ∈ memory.activity.undecided ∧ ∃ other ∈ s'.memory, other.activity = .idle ∧
      other.loaded = memory.loaded ∧ other.blocked = memory.blocked

theorem rejectsAtWork_answer {number : ℕ} {answer : CommitAnswer ρ}
    (hanswers : middle.answers = s.answers) (hanswer : answer ≠ .rejected) :
    RejectsAtWork s (middle.answer number answer) memory := by
  intro other hmem
  rcases mem_append.mp hmem with hold | hnew
  · exact .inl (hanswers ▸ hold)
  · injection mem_singleton.mp hnew with _ hrejected
    exact absurd hrejected.symm hanswer

theorem rejectsAtWork_rejected {number : ℕ} {other : StoreMemory ρ}
    (hanswers : middle.answers = s.answers) (hnumber : number ∈ memory.activity.undecided)
    (hmemory : middle.memory = some other) (hidle : other.activity = .idle)
    (hloaded : other.loaded = memory.loaded) (hblocked : other.blocked = memory.blocked) :
    RejectsAtWork s (middle.answer number .rejected) memory := by
  intro rejected hmem
  rcases mem_append.mp hmem with hold | hnew
  · exact .inl (hanswers ▸ hold)
  · injection mem_singleton.mp hnew with hsame
    rw [hsame]
    exact .inr ⟨hnumber, other, hmemory, hidle, hloaded, hblocked⟩

namespace CatalogStore

theorem Outcome.rejects {store : CatalogStore ρ} {undecided : Option ℕ}
    (h : Outcome store memory undecided s') (hanswers : store.answers = s.answers) :
    RejectsAtWork s s' memory := by
  cases h with
  | moves hmoves =>
    intro number hmem
    left
    rwa [hmoves.answers, hanswers] at hmem
  | commits _ _ => exact fun number hmem => .inl (hanswers ▸ hmem)
  | done hmoves _ _ => exact rejectsAtWork_answer (hmoves.answers.trans hanswers) nofun
  | uncertain hmoves _ _ => exact rejectsAtWork_answer (hmoves.answers.trans hanswers) nofun
  | rejected hmoves hother hidle hready _ hwork =>
    exact rejectsAtWork_rejected (hmoves.answers.trans hanswers) hwork hother hidle hready.1 hready.2

/-- A commit that may be rejected runs on a store that has been loaded. -/
theorem ready_of_undecided {operation : Activity ρ} {number : ℕ}
    (hat : AtOperation toLowerCase base s.files s.history memory operation)
    (hnumber : number ∈ operation.undecided) :
    memory.loaded = true ∧ memory.blocked = false := by
  have hrecovering : ∀ {transaction : WorkspaceLabelTransaction} {cause : RecoveryCause},
      number ∈ cause.number →
      Recovering toLowerCase base s.files s.history memory transaction cause →
      memory.loaded = true ∧ memory.blocked = false := by
    intro transaction cause hcause h
    refine ⟨h.loaded.mpr ?_, h.notBlocked⟩
    rintro rfl
    cases hcause
  cases operation with
  | writePrepared commit => exact ⟨hat.1.loaded, hat.1.notBlocked⟩
  | writeCatalog commit => exact ⟨hat.1.loaded, hat.1.notBlocked⟩
  | writeWorkspaces commit => exact ⟨hat.1.loaded, hat.1.notBlocked⟩
  | writeCommitted commit => exact ⟨hat.1.loaded, hat.1.notBlocked⟩
  | readFailed failed => exact ⟨hat.1.loaded, hat.1.notBlocked⟩
  | awaitRecovery transaction cause => exact hrecovering hnumber hat
  | restoreCatalog recovery => exact hrecovering hnumber hat.1
  | restoreWorkspaces recovery => exact hrecovering hnumber hat.1
  | removePrepared recovery => exact hrecovering hnumber hat.1
  | _ => cases hnumber

/-- After a step that rejects a commit the store is ready. -/
theorem ready_of_rejected {event : StoreEvent ρ} {number : ℕ} (h : StoreInv toLowerCase base s)
    (hstep : s.step toLowerCase event = some s') (hrejected : (number, .rejected) ∈ s'.answers)
    (hnew : (number, .rejected) ∉ s.answers) : ∃ memory ∈ s'.memory, Ready memory := by
  rcases step_outcome hstep with ⟨memory, hmemory, houtcome⟩ | rfl | rfl
  · have hrejects : RejectsAtWork s s' memory := by
      rcases houtcome with hgoes | hstarts
      · exact hgoes.rejects rfl
      · exact hstarts.rejects rfl
    rcases hrejects number hrejected with hold | ⟨hnumber, other, hother, hidle, hloaded, hblocked⟩
    · exact absurd hold hnew
    · have hat := ready_of_undecided (h.memory memory hmemory) hnumber
      exact ⟨other, hother, hidle, hloaded.trans hat.1, hblocked.trans hat.2⟩
  · exact absurd hrejected hnew
  · exact absurd hrejected hnew

end CatalogStore

end Rejections

/-! ## Crash atomicity -/

/-- The files and the memory show a state. -/
structure Shows (files : LabelFiles ρ) (memory : StoreMemory ρ) (state : LabelState ρ) : Prop where
  catalog : files.catalog = state.catalog
  workspaces : files.workspaces = state.workspaces
  labels : memory.labels = state.catalog
  cache : memory.cache = state.workspaces

/-- A commit in a history was planned on the state before it; a rollback leads back to the state
before its commit, in which nothing but other mutations has changed since. -/
def AllOrNothing (toLowerCase : String → String) (base : LabelState ρ)
    (before : List (HistoryEntry ρ)) : HistoryEntry ρ → Prop
  | .mutated _ => True
  | .committed _ mutation =>
    ∃ now request, plan toLowerCase (replay base before) now request = .ok mutation
  | .rolledBack transaction =>
    ∃ earlier meanwhile, before = earlier ++ meanwhile ∧ OnlyMutated meanwhile ∧
      ShowsBefore (replay base earlier) (replay base before)
        (replay base (before ++ [.rolledBack transaction])) ∧
      (meanwhile = [] → replay base (before ++ [.rolledBack transaction]) = replay base earlier)

/-- What a run from the state `base` can leave behind. -/
structure CrashAtomic (toLowerCase : String → String) (base : LabelState ρ) (s : CatalogStore ρ) :
    Prop where
  shows : ∀ memory ∈ s.memory, Ready memory → Shows s.files memory (replay base s.history)
  allOrNothing : ∀ before entry after, s.history = before ++ entry :: after →
    AllOrNothing toLowerCase base before entry
  otherFields : SameOtherFields (replay base s.history).workspaces
    (replay base (mutationsOf s.history)).workspaces
  done : ∀ number mutation, (number, .done mutation) ∈ s.answers →
    .committed number mutation ∈ s.history
  rejected : ∀ number, (number, .rejected) ∈ s.answers →
    ∀ mutation, .committed number mutation ∉ s.history
  rejects : ∀ event s', s.step toLowerCase event = some s' → ∀ number,
    (number, .rejected) ∈ s'.answers → (number, .rejected) ∉ s.answers →
    ∃ memory ∈ s'.memory, Ready memory ∧ Shows s'.files memory (replay base s'.history)

section Atomic

variable {base : LabelState ρ} {s : CatalogStore ρ} {memory : StoreMemory ρ}

theorem shows_of_ready (h : StoreInv toLowerCase base s) (hmemory : s.memory = some memory)
    (hready : Ready memory) : Shows s.files memory (replay base s.history) := by
  obtain ⟨hlive, hclean⟩ :=
    CatalogStore.live_of_idle h hmemory hready.idle hready.loaded hready.notBlocked
  exact ⟨hclean.catalog, hclean.workspaces, hlive.labels, hlive.cache⟩

theorem allOrNothing_of_atomic {history before after : List (HistoryEntry ρ)}
    {entry : HistoryEntry ρ} (hbase : KeyedById base.workspaces)
    (h : AtomicHistory toLowerCase base history) (hsplit : history = before ++ entry :: after) :
    AllOrNothing toLowerCase base before entry := by
  have hjustified := h.justified hsplit
  cases entry with
  | mutated change => trivial
  | committed number mutation => exact hjustified
  | rolledBack transaction =>
    obtain ⟨earlier, meanwhile, mutation, rfl, hmeanwhile, hplanned⟩ := hjustified
    refine ⟨earlier, meanwhile, rfl, hmeanwhile,
      showsBefore_rolledBack hbase hmeanwhile hplanned, ?_⟩
    rintro rfl
    rw [append_nil]
    exact replay_rolledBack_same hbase hplanned

end Atomic

/-- A workspace without labels. -/
def unlabelled : PersistedWorkspaceRecord Unit :=
  { workspaceId := "w", labels := none, archivedAt := none, updatedAt := "t0", details := () }

def oneWorkspace : OrderedMap String (PersistedWorkspaceRecord Unit) :=
  OrderedMap.set ∅ unlabelled.workspaceId unlabelled

/-- A label is assigned, the process crashes after the workspaces are written, and the store is
loaded again. -/
def crashedCommit : List (StoreEvent Unit) :=
  [.restart, .load, .proceed true, .proceed true,
    .commit (.setAssignment ⟨"w", ⟨"Urgent", .red⟩, true⟩) "t1",
    .proceed true, .proceed true, .proceed true, .crash,
    .restart, .load, .proceed true, .proceed true, .proceed true, .proceed true, .proceed true]

end Orqara.Labels
