import Orqara.Tasks.TaskReceipts

/-!
# What a status promises

A review-ready task should have passing evidence, and an accepted or cancelled
task should stay as it is. The command path keeps both. A verification writes
the status of its task without looking at it, twice, so that both hold only of
runs in which verifications keep out of each other's way.
-/

namespace Orqara.Tasks

open TaskRow

variable {env : TaskServiceEnv} {service : TaskService}
  {outcome : Except (Option String) VerificationEvidence} {event : TaskEvent} {pending : TaskEvidence}

/-- The statuses that a task never leaves. -/
def TaskStatus.Settled (status : TaskStatus) : Prop := status = .completed ∨ status = .cancelled

instance (status : TaskStatus) : Decidable status.Settled := inferInstanceAs (Decidable (_ ∨ _))

/-- The evidence of a verification that has finished and passed. -/
def Passed (evidence : Option TaskEvidence) : Prop :=
  ∃ e, evidence = some e ∧ e.operationState = .finished ∧ e.status = .passed

/-- Whatever is ready for review has passing evidence. -/
def ReviewBacked (db : TaskDb) : Prop :=
  ∀ key row, db.tasks.get? key = some row → (project db row).status = .reviewReady →
    Passed (project db row).latestEvidence

/-- Settled tasks keep their status. -/
def SettledKept (db db' : TaskDb) : Prop :=
  ∀ key row, db.tasks.get? key = some row → row.status.Settled →
    ∃ row', db'.tasks.get? key = some row' ∧ row'.status = row.status

/-- Every active verification has its task and its evidence row. -/
def Claimed (service : TaskService) : Prop :=
  ∀ v ∈ service.activeVerifications,
    (∃ row, service.db.tasks.get? (v.input.workspaceId, v.input.taskId) = some row) ∧
    ∃ row, service.db.taskEvidence.get? (v.input.workspaceId, v.input.commandId) = some row ∧
      row.taskId = v.input.taskId

/-- The verification owns the last evidence row of its task. -/
def IsLatest (db : TaskDb) (input : VerifyInput) : Prop :=
  (evidenceRows db input.workspaceId input.taskId).getLast?.map (·.commandId) =
    some input.commandId

/-- A verification starts and ends on a task that is not settled, and one that
passes is the latest of its task, unless that one has passed already. -/
def InOrder (env : TaskServiceEnv) (service : TaskService) : TaskEvent → Prop
  | .verify input _ =>
    (env.workspaceRegistry input.workspaceId).isSome →
    service.db.taskEvidence.get? (input.workspaceId, input.commandId) = none →
    ∀ row, service.db.tasks.get? (input.workspaceId, input.taskId) = some row →
      ¬ row.status.Settled
  | .complete index outcome =>
    ∀ v, service.activeVerifications[index]? = some v →
    ∀ row, service.db.tasks.get? (v.input.workspaceId, v.input.taskId) = some row →
      ¬ row.status.Settled ∧
      ((∃ result, outcome = .ok result ∧ result.status = .passed) →
        IsLatest service.db v.input ∨
          Passed (latestEvidence service.db v.input.workspaceId v.input.taskId))
  | _ => True

/-! ## Active verifications -/

theorem Claimed.extend (h : Claimed service) {db : TaskDb} (hext : service.db.Extends db)
    {active : List ActiveVerification} (hsub : ∀ v ∈ active, v ∈ service.activeVerifications) :
    Claimed ⟨db, active⟩ := by
  intro v hv
  obtain ⟨⟨row, hrow⟩, evidence, hevidence, htask⟩ := h v (hsub v hv)
  obtain ⟨row', hrow', -⟩ := hext.tasks _ row hrow
  obtain ⟨evidence', hevidence', hsame⟩ := hext.taskEvidence _ evidence hevidence
  exact ⟨⟨row', hrow'⟩, evidence', hevidence', Eq.trans hsame htask⟩

theorem Transition.claimed_next {next : TaskService} {duplicate : Bool}
    (h : Transition env service event next duplicate) (hclaimed : Claimed service) : Claimed next := by
  have hext := h.extends
  cases h with
  | @claimed input now workspace task taskEvidence registered found inserted =>
    intro v hv
    rcases List.mem_append.mp hv with hold | hnew
    · exact (hclaimed.extend hext fun v hv => hv) v hold
    · rw [List.mem_singleton] at hnew
      subst hnew
      exact ⟨⟨_, Table.get?_update_self verifying_key found⟩,
        input.row task.checkDefinition now, Table.get?_insert?_self inserted, rfl⟩
  | completed => exact hclaimed.extend hext fun v hv => List.mem_of_mem_eraseIdx hv
  | _ => exact hclaimed.extend hext fun v hv => hv

/-! ## The evidence of a task -/

theorem evidenceRows_insert {db : TaskDb} {row : EvidenceRow} {taskEvidence : Table EvidenceRow.key}
    (h : db.taskEvidence.insert? row = some taskEvidence) {tasks : Table key}
    {workspaceId taskId : String} (hother : (row.workspaceId, row.taskId) ≠ (workspaceId, taskId)) :
    latestEvidence { db with taskEvidence := taskEvidence, tasks := tasks } workspaceId taskId =
      latestEvidence db workspaceId taskId := by
  have hskip : ¬ (row.workspaceId = workspaceId ∧ row.taskId = taskId) := by
    rintro ⟨rfl, rfl⟩
    exact hother rfl
  unfold latestEvidence evidenceRows
  dsimp only
  rw [Table.insert?_rows h, List.filter_append]
  simp [hskip]

/-- Completing a verification rewrites the evidence of its own row only. -/
theorem latestEvidence_complete (verification : ActiveVerification)
    (outcome : Except (Option String) VerificationEvidence) (db : TaskDb)
    (workspaceId taskId : String) :
    latestEvidence (completeVerification verification outcome db) workspaceId taskId =
      (evidenceRows db workspaceId taskId).getLast?.map fun row =>
        if row.key = (verification.input.workspaceId, verification.input.commandId) then
          finishEvidence verification.pending outcome
        else row.payload := by
  unfold latestEvidence evidenceRows completeVerification
  dsimp only
  rw [Table.update, List.filter_map, List.getLast?_map, Option.map_map]
  congr 1
  · funext row
    by_cases hkey : row.key = (verification.input.workspaceId, verification.input.commandId)
    · simp [hkey, EvidenceRow.finished]
    · simp [hkey]
  · congr 2
    funext row
    -- The rewritten row still belongs to its task.
    by_cases hkey : row.key = (verification.input.workspaceId, verification.input.commandId)
    · simp [hkey, EvidenceRow.finished]
    · simp [hkey]

theorem passed_finishEvidence_iff :
    (finishEvidence pending outcome).status = .passed ↔
      ∃ result, outcome = .ok result ∧ result.status = .passed := by
  cases outcome with
  | ok result => simp [finishEvidence]
  | error message => simp [finishEvidence]

theorem passed_finishEvidence (h : (finishEvidence pending outcome).status = .passed) :
    Passed (some (finishEvidence pending outcome)) := by
  refine ⟨_, rfl, ?_, h⟩
  cases outcome with
  | ok result => rfl
  | error message => rfl

section Complete

variable {service : TaskService} (hclaimed : Claimed service) {verification : ActiveVerification}
  (hactive : verification ∈ service.activeVerifications)

include hclaimed hactive

/-- The rows with the key of an active verification are evidence of its task. -/
theorem key_of_evidence {row : EvidenceRow} (hrow : row ∈ service.db.taskEvidence.rows)
    (hkey : row.key = (verification.input.workspaceId, verification.input.commandId)) :
    row.workspaceId = verification.input.workspaceId ∧ row.taskId = verification.input.taskId := by
  obtain ⟨-, found, hfound, htask⟩ := hclaimed verification hactive
  have hget := Table.get?_of_mem hrow
  rw [hkey, hfound] at hget
  obtain rfl := Option.some.inj hget
  exact ⟨(Prod.mk.inj hkey).1, htask⟩

/-- The evidence of the other tasks does not change. -/
theorem latestEvidence_complete_other (outcome : Except (Option String) VerificationEvidence)
    {workspaceId taskId : String} (hother : (workspaceId, taskId) ≠
      (verification.input.workspaceId, verification.input.taskId)) :
    latestEvidence (completeVerification verification outcome service.db) workspaceId taskId =
      latestEvidence service.db workspaceId taskId := by
  rw [latestEvidence_complete, latestEvidence]
  cases hlast : (evidenceRows service.db workspaceId taskId).getLast? with
  | none => rfl
  | some row =>
    have hmem := List.mem_filter.mp (List.mem_of_mem_getLast? hlast)
    have howner := of_decide_eq_true hmem.2
    have hkey : row.key ≠ (verification.input.workspaceId, verification.input.commandId) := by
      intro hkey
      obtain ⟨hworkspace, htask⟩ := key_of_evidence hclaimed hactive hmem.1 hkey
      apply hother
      rw [← howner.1, ← howner.2, hworkspace, htask]
    simp [hkey]

end Complete

/-- A verification that passes leaves its task with passing evidence exactly
when it is the latest, or the latest has passed. -/
theorem passed_complete_iff {verification : ActiveVerification}
    (hpassed : (finishEvidence verification.pending outcome).status = .passed) :
    Passed (latestEvidence (completeVerification verification outcome service.db)
        verification.input.workspaceId verification.input.taskId) ↔
      IsLatest service.db verification.input ∨
        Passed (latestEvidence service.db verification.input.workspaceId
          verification.input.taskId) := by
  rw [latestEvidence_complete, latestEvidence, IsLatest]
  cases hlast : (evidenceRows service.db verification.input.workspaceId
      verification.input.taskId).getLast? with
  | none => simp [Passed]
  | some row =>
    have hmem := List.mem_filter.mp (List.mem_of_mem_getLast? hlast)
    have howner := of_decide_eq_true hmem.2
    by_cases hkey : row.key = (verification.input.workspaceId, verification.input.commandId)
    · have hcommand : row.commandId = verification.input.commandId := (Prod.mk.inj hkey).2
      simp [hkey, hcommand, passed_finishEvidence hpassed]
    · have hcommand : row.commandId ≠ verification.input.commandId := by
        intro hcommand
        apply hkey
        rw [EvidenceRow.key, howner.1, hcommand]
      simp [hkey, hcommand]

/-! ## One event -/

theorem nextStatus_spec {action : TaskAction} {current status : TaskStatus}
    {agentId : Option String} (h : nextStatus action current agentId = .ok status) :
    status ≠ .reviewReady ∧ ¬ current.Settled := by
  unfold nextStatus at h
  cases action with
  | start =>
    dsimp only at h
    split_ifs at h with hcurrent hagent
    cases h
    rw [not_not.mp hcurrent]
    decide
  | accept =>
    dsimp only at h
    split_ifs at h with hcurrent
    cases h
    rw [not_not.mp hcurrent]
    decide
  | retry =>
    dsimp only at h
    split_ifs at h with hcurrent
    cases h
    rw [not_not.mp hcurrent]
    decide
  | cancel =>
    dsimp only at h
    split_ifs at h with hcurrent
    cases h
    refine ⟨by decide, ?_⟩
    rintro (rfl | rfl)
    · simp at hcurrent
    · simp at hcurrent

section Update

variable {db db' : TaskDb} (key : String × String) {f : TaskRow → TaskRow}
  (hf : ∀ row, (f row).key = row.key)

/-- Rewriting one task keeps the others backed, if it keeps their evidence. -/
theorem reviewBacked_update_iff (htasks : db'.tasks = db.tasks.update key f hf)
    (hbacked : ReviewBacked db)
    (hothers : ∀ workspaceId taskId, (workspaceId, taskId) ≠ key →
      latestEvidence db' workspaceId taskId = latestEvidence db workspaceId taskId) :
    ReviewBacked db' ↔ ∀ row, db.tasks.get? key = some row → (f row).status = .reviewReady →
      Passed (latestEvidence db' key.1 key.2) := by
  constructor
  · intro h row hrow hstatus
    have hget : db'.tasks.get? key = some (f row) := by
      rw [htasks]
      exact Table.get?_update_self hf hrow
    have hpassed := h key (f row) hget hstatus
    have hkey := Table.key_of_get? hget
    rwa [← hkey]
  · intro h key' row' hget hstatus
    have hkey' := Table.key_of_get? hget
    rw [htasks, Table.get?_update] at hget
    by_cases hkey : key' = key
    · subst hkey
      rw [if_pos rfl] at hget
      obtain ⟨row, hrow, rfl⟩ := Option.map_eq_some_iff.mp hget
      have hpassed := h row hrow hstatus
      rwa [← hkey'] at hpassed
    · rw [if_neg hkey] at hget
      have hpassed := hbacked key' row' hget hstatus
      rw [← hkey'] at hkey
      exact (congrArg Passed (hothers _ _ hkey)).mpr hpassed

theorem settledKept_update_iff (htasks : db'.tasks = db.tasks.update key f hf) :
    SettledKept db db' ↔ ∀ row, db.tasks.get? key = some row → row.status.Settled →
      (f row).status = row.status := by
  constructor
  · intro h row hrow hsettled
    obtain ⟨row', hrow', hstatus⟩ := h key row hrow hsettled
    rw [htasks, Table.get?_update_self hf hrow] at hrow'
    rw [Option.some.inj hrow', hstatus]
  · intro h key' row hrow hsettled
    rw [htasks]
    by_cases hkey : key' = key
    · subst hkey
      exact ⟨f row, Table.get?_update_self hf hrow, h row hrow hsettled⟩
    · exact ⟨row, (Table.get?_update_ne hf hkey).trans hrow, rfl⟩

end Update

theorem settledKept_refl (db : TaskDb) : SettledKept db db :=
  fun _ row hrow _ => ⟨row, hrow, rfl⟩

/-- A transition keeps what the statuses promise exactly when its event is in
order. -/
theorem Transition.safe_iff {next : TaskService} {duplicate : Bool}
    (h : Transition env service event next duplicate) (hclaimed : Claimed service)
    (hbacked : ReviewBacked service.db) :
    (ReviewBacked next.db ∧ SettledKept service.db next.db) ↔ InOrder env service event := by
  have hrefl := settledKept_refl service.db
  cases h with
  | createdBefore => exact iff_of_true ⟨hbacked, hrefl⟩ trivial
  | @created input now check tasks registered checked inserted =>
    refine iff_of_true ⟨?_, ?_⟩ trivial
    · intro key row hget hstatus
      dsimp only at hget
      rw [Table.get?_insert? inserted] at hget
      split_ifs at hget with hkey
      · cases hget
        cases hstatus
      · exact hbacked key row hget hstatus
    · intro key row hget hsettled
      exact ⟨row, Table.get?_mono_insert? inserted hget, rfl⟩
  | commandedBefore => exact iff_of_true ⟨hbacked, hrefl⟩ trivial
  | @commanded input task status taskCommands registered found current allowed inserted =>
    obtain ⟨hnotReady, hopen⟩ := nextStatus_spec allowed
    refine iff_of_true ⟨?_, ?_⟩ trivial
    · refine (reviewBacked_update_iff (input.workspaceId, input.taskId)
        (commanded_key input status) ?_ hbacked ?_).mpr ?_
      · rfl
      · intro _ _ _
        rfl
      intro row _ hstatus
      exact absurd hstatus hnotReady
    · apply (settledKept_update_iff _ (commanded_key input status) rfl).mpr
      intro row hrow hsettled
      rw [found] at hrow
      cases hrow
      exact absurd hsettled hopen
  | @verifiedBefore input now existing registered found same =>
    refine iff_of_true ⟨hbacked, hrefl⟩ ?_
    intro _ hnone
    rw [found] at hnone
    cases hnone
  | @claimed input now workspace task taskEvidence registered found inserted =>
    have hothers : ∀ workspaceId taskId, (workspaceId, taskId) ≠ (input.workspaceId, input.taskId) →
        latestEvidence { service.db with
            taskEvidence := taskEvidence
            tasks := service.db.tasks.update (input.workspaceId, input.taskId) verifying
              verifying_key } workspaceId taskId =
          latestEvidence service.db workspaceId taskId :=
      fun _ _ hother => evidenceRows_insert inserted (Ne.symm hother)
    refine (and_congr (reviewBacked_update_iff _ verifying_key rfl hbacked hothers)
      (settledKept_update_iff _ verifying_key rfl)).trans ?_
    constructor
    · rintro ⟨-, hkept⟩ _ _ row hrow hsettled
      have hverifying : TaskStatus.verifying = row.status := hkept row hrow hsettled
      rw [← hverifying] at hsettled
      revert hsettled
      decide
    · intro hopen
      constructor
      · intro row _ hstatus
        cases hstatus
      · intro row hrow hsettled
        exact absurd hsettled (hopen (by simp [registered])
          (Table.get?_none_of_insert? inserted) row hrow)
  | @completed index outcome verification active =>
    have hmem := List.mem_of_getElem? active
    have hothers : ∀ workspaceId taskId,
        (workspaceId, taskId) ≠ (verification.input.workspaceId, verification.input.taskId) →
        latestEvidence (completeVerification verification outcome service.db) workspaceId taskId =
          latestEvidence service.db workspaceId taskId :=
      fun _ _ hother => latestEvidence_complete_other hclaimed hmem outcome hother
    refine (and_congr (reviewBacked_update_iff _ (verified_key _) rfl hbacked hothers)
      (settledKept_update_iff _ (verified_key _) rfl)).trans ?_
    obtain ⟨⟨row, hrow⟩, -⟩ := hclaimed verification hmem
    constructor
    · rintro ⟨hready, hkept⟩ v hv row' hrow'
      rw [active] at hv
      cases hv
      constructor
      · intro hsettled
        have hstatus := hkept row' hrow' hsettled
        rw [← hstatus] at hsettled
        unfold verified at hsettled
        dsimp only at hsettled
        split_ifs at hsettled
        · revert hsettled
          decide
        · revert hsettled
          decide
      · intro hpassed
        have hpassed' : (finishEvidence verification.pending outcome).status = .passed :=
          passed_finishEvidence_iff.mpr hpassed
        apply (passed_complete_iff hpassed').mp
        apply hready row' hrow'
        simp [verified, hpassed']
    · intro horder
      obtain ⟨hopen, hlatest⟩ := horder verification active row hrow
      constructor
      · intro row' _ hstatus
        have hpassed : (finishEvidence verification.pending outcome).status = .passed := by
          unfold verified at hstatus
          dsimp only at hstatus
          split_ifs at hstatus with hpassed
          exact hpassed
        exact (passed_complete_iff hpassed).mpr (hlatest (passed_finishEvidence_iff.mp hpassed))
      · intro row' hrow' hsettled
        rw [hrow] at hrow'
        cases hrow'
        exact absurd hsettled hopen
  | @startFailed workspaceId taskId agentId registered =>
    refine iff_of_true ⟨?_, ?_⟩ trivial
    · refine (reviewBacked_update_iff (workspaceId, taskId) (failStart_key agentId) ?_
        hbacked ?_).mpr ?_
      · rfl
      · intro _ _ _
        rfl
      intro row hrow hstatus
      unfold TaskRow.failStart at hstatus
      split_ifs at hstatus with hrunning
      have hpassed := hbacked _ row hrow hstatus
      rw [← Table.key_of_get? hrow]
      exact hpassed
    · apply (settledKept_update_iff _ (failStart_key agentId) rfl).mpr
      intro row hrow hsettled
      unfold TaskRow.failStart
      split_ifs with hrunning
      · rw [hrunning.1] at hsettled
        exact absurd hsettled (by decide)
      · rfl

/-- An event that throws is in order. -/
theorem inOrder_of_error {message : String} (h : step env service event = .error message) :
    InOrder env service event := by
  cases event with
  | create input now => trivial
  | command input => trivial
  | verify input now =>
    intro hregistered hfresh row hrow
    obtain ⟨workspace, hworkspace⟩ := Option.isSome_iff_exists.mp hregistered
    obtain ⟨taskEvidence, hinserted⟩ :=
      Table.insert?_isSome (r := input.row row.checkDefinition now) hfresh
    simp [step, verify, hworkspace, hfresh, hrow, hinserted, Except.map] at h
  | complete index outcome =>
    intro v hv
    simp [step, hv] at h
  | failStart workspaceId taskId agentId => trivial

theorem after_safe_iff (env : TaskServiceEnv) (event : TaskEvent) (hclaimed : Claimed service)
    (hbacked : ReviewBacked service.db) :
    (ReviewBacked (after env service event).db ∧
      SettledKept service.db (after env service event).db) ↔ InOrder env service event := by
  unfold after
  cases hstep : step env service event with
  | error message =>
    exact iff_of_true ⟨hbacked, settledKept_refl service.db⟩ (inOrder_of_error hstep)
  | ok reply => exact (transition_of_step hstep).safe_iff hclaimed hbacked

/-! ## Runs -/

/-- The statuses keep their promise in every service that the run reaches. -/
def SafeRun (env : TaskServiceEnv) : TaskService → List TaskEvent → Prop
  | _, [] => True
  | service, event :: events =>
    (ReviewBacked (after env service event).db ∧
      SettledKept service.db (after env service event).db) ∧
    SafeRun env (after env service event) events

/-- Every event of the run is in order when it comes. -/
def OrderedRun (env : TaskServiceEnv) : TaskService → List TaskEvent → Prop
  | _, [] => True
  | service, event :: events =>
    InOrder env service event ∧ OrderedRun env (after env service event) events

theorem claimed_after (event : TaskEvent) (h : Claimed service) :
    Claimed (after env service event) := by
  rcases after_cases env service event with hsame | ⟨duplicate, htransition⟩
  · rw [hsame]
    exact h
  · exact htransition.claimed_next h

theorem safeRun_iff_orderedRun (events : List TaskEvent) (hclaimed : Claimed service)
    (hbacked : ReviewBacked service.db) :
    SafeRun env service events ↔ OrderedRun env service events := by
  induction events generalizing service with
  | nil => exact Iff.rfl
  | cons event events ih =>
    have hsafe := after_safe_iff env event hclaimed hbacked
    constructor
    · rintro ⟨hevent, hevents⟩
      exact ⟨hsafe.mp hevent, (ih (claimed_after event hclaimed) hevent.1).mp hevents⟩
    · rintro ⟨hevent, hevents⟩
      have hnext := hsafe.mpr hevent
      exact ⟨hnext, (ih (claimed_after event hclaimed) hnext.1).mpr hevents⟩

/-- From a new database: review-ready tasks always have passing evidence and
settled ones keep their status, exactly when no verification starts or ends on a
settled task and none but the latest of a task makes it review-ready. -/
theorem taskRuns_safe_iff (env : TaskServiceEnv) (events : List TaskEvent) :
    SafeRun env .init events ↔ OrderedRun env .init events := by
  apply safeRun_iff_orderedRun
  · intro v hv
    cases hv
  · intro key row hrow
    cases hrow

/-! ## Two verifications that get in the way -/

def samplePassed : VerificationEvidence where
  command := "true"
  startedAt := "t3"
  durationMs := 1
  status := .passed
  exitCode := some 0
  stdout := ""
  stderr := ""
  isolation := .disposableCheckout
  snapshot := ⟨"s", "base", "tracked", "untracked"⟩
  resultingSnapshotId := "s"

def sampleTask : String := "0a52ee3efa7e0686"

/-- Two overlapping verifications, of which the earlier one passes. -/
def overlappingEvents : List TaskEvent :=
  [.create (sampleInput "w") "t0", .verify ⟨"w", sampleTask, "c1", none⟩ "t1",
    .verify ⟨"w", sampleTask, "c2", none⟩ "t2", .complete 0 (.ok samplePassed)]

/-- A task that is accepted and then verified once more. -/
def acceptedEvents : List TaskEvent :=
  [.create (sampleInput "w") "t0", .verify ⟨"w", sampleTask, "c1", none⟩ "t1",
    .complete 0 (.ok samplePassed), .command ⟨"w", sampleTask, "a", 3, .accept, none⟩]

/-- The first task is review-ready while its latest evidence is pending, the
second one is completed no more. -/
theorem taskRuns_unsafe :
    ((run sampleEnv overlappingEvents).db.tasks.get? ("w", sampleTask)).map (·.status) =
        some .reviewReady ∧
      (latestEvidence (run sampleEnv overlappingEvents).db "w" sampleTask).map (·.status) =
        some .pending ∧
      ((run sampleEnv acceptedEvents).db.tasks.get? ("w", sampleTask)).map (·.status) =
        some .completed ∧
      ((after sampleEnv (run sampleEnv acceptedEvents)
        (.verify ⟨"w", sampleTask, "c2", none⟩ "t4")).db.tasks.get? ("w", sampleTask)).map
          (·.status) = some .verifying := by
  decide

end Orqara.Tasks
