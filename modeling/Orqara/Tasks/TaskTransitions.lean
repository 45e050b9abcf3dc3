import Orqara.Tasks.TaskService

/-!
# What one event of the task service does

Every property of a run is proved by cases on the transitions below, never by
unfolding the methods.
-/

namespace Orqara.Tasks

variable {env : TaskServiceEnv} {service : TaskService} {duplicate : Bool}

/-- The successful events, each with what it read and what it leaves. The flag
says whether the call reports a duplicate. -/
inductive Transition (env : TaskServiceEnv) (service : TaskService) :
    TaskEvent → TaskService → Bool → Prop
  | createdBefore {input : CreateInput} {now : String} {existing : TaskRow}
      (registered : (env.workspaceRegistry input.workspaceId).isSome)
      (found : service.db.tasks.get?
        (input.workspaceId, taskIdOf env input.workspaceId input.commandId) = some existing)
      (same : existing.createRequestHash = requestHash env input.request) :
      Transition env service (.create input now) service true
  | created {input : CreateInput} {now : String} {check : TaskCheck} {tasks : Table TaskRow.key}
      (registered : (env.workspaceRegistry input.workspaceId).isSome)
      (checked : input.checks.head? = some check)
      (inserted : service.db.tasks.insert? (input.row env check now) = some tasks) :
      Transition env service (.create input now)
        { service with db := { service.db with tasks := tasks } } false
  | commandedBefore {input : CommandInput} {task : TaskRow} {receipt : CommandRow}
      (registered : (env.workspaceRegistry input.workspaceId).isSome)
      (found : service.db.tasks.get? (input.workspaceId, input.taskId) = some task)
      (received : service.db.taskCommands.get? (input.workspaceId, input.commandId) = some receipt)
      (same : receipt.requestHash = requestHash env input.request) :
      Transition env service (.command input) service true
  | commanded {input : CommandInput} {task : TaskRow} {status : TaskStatus}
      {taskCommands : Table CommandRow.key}
      (registered : (env.workspaceRegistry input.workspaceId).isSome)
      (found : service.db.tasks.get? (input.workspaceId, input.taskId) = some task)
      (current : task.revision = input.expectedRevision)
      (allowed : nextStatus input.action task.status input.agentId = .ok status)
      (inserted : service.db.taskCommands.insert? (input.receipt env (task.revision + 1)) =
        some taskCommands) :
      Transition env service (.command input)
        { service with db := { service.db with
            tasks := service.db.tasks.update (input.workspaceId, input.taskId)
              (TaskRow.commanded input status) (TaskRow.commanded_key input status)
            taskCommands := taskCommands } } false
  | verifiedBefore {input : VerifyInput} {now : String} {existing : EvidenceRow}
      (registered : (env.workspaceRegistry input.workspaceId).isSome)
      (found : service.db.taskEvidence.get? (input.workspaceId, input.commandId) = some existing)
      (same : existing.taskId = input.taskId) :
      Transition env service (.verify input now) service true
  | claimed {input : VerifyInput} {now : String} {workspace : Workspace} {task : TaskRow}
      {taskEvidence : Table EvidenceRow.key}
      (registered : env.workspaceRegistry input.workspaceId = some workspace)
      (found : service.db.tasks.get? (input.workspaceId, input.taskId) = some task)
      (inserted : service.db.taskEvidence.insert? (input.row task.checkDefinition now) =
        some taskEvidence) :
      Transition env service (.verify input now)
        { db := { service.db with
            taskEvidence := taskEvidence
            tasks := service.db.tasks.update (input.workspaceId, input.taskId) TaskRow.verifying
              TaskRow.verifying_key }
          activeVerifications := service.activeVerifications ++
            [⟨input, input.cwd.getD workspace.cwd, task.checkDefinition,
              pendingEvidence input task.checkDefinition now⟩] } false
  | completed {index : ℕ} {outcome : Except (Option String) VerificationEvidence}
      {verification : ActiveVerification}
      (active : service.activeVerifications[index]? = some verification) :
      Transition env service (.complete index outcome)
        { db := completeVerification verification outcome service.db
          activeVerifications := service.activeVerifications.eraseIdx index } false
  | startFailed {workspaceId taskId agentId : String}
      (registered : (env.workspaceRegistry workspaceId).isSome) :
      Transition env service (.failStart workspaceId taskId agentId)
        { service with db := { service.db with
            tasks := service.db.tasks.update (workspaceId, taskId) (TaskRow.failStart agentId)
              (TaskRow.failStart_key agentId) } } false

/-! ## The methods take no other step -/

theorem create_cases {input : CreateInput} {now : String} {db : TaskDb}
    (h : create env input now service.db = .ok (db, duplicate)) :
    Transition env service (.create input now) { service with db := db } duplicate := by
  unfold create at h
  split at h
  · cases h
  rename_i workspace hworkspace
  dsimp only at h
  split at h
  · rename_i existing hexisting
    split_ifs at h with hhash
    cases h
    exact .createdBefore (by simp [hworkspace]) hexisting (not_not.mp hhash)
  · split at h
    · cases h
    rename_i check hcheck
    split at h
    · cases h
    rename_i tasks htasks
    cases h
    exact .created (by simp [hworkspace]) hcheck htasks

theorem command_cases {input : CommandInput} {db : TaskDb}
    (h : command env input service.db = .ok (db, duplicate)) :
    Transition env service (.command input) { service with db := db } duplicate := by
  unfold command at h
  split at h
  · cases h
  rename_i workspace hworkspace
  dsimp only at h
  split at h
  · cases h
  rename_i task htask
  split at h
  · rename_i receipt hreceipt
    split_ifs at h with hhash
    cases h
    exact .commandedBefore (by simp [hworkspace]) htask hreceipt (not_not.mp hhash)
  · split_ifs at h with hrevision
    split at h
    · cases h
    rename_i status hstatus
    split at h
    · cases h
    rename_i taskCommands hinserted
    cases h
    exact .commanded (by simp [hworkspace]) htask (not_not.mp hrevision) hstatus hinserted

theorem verify_cases {next : TaskService} {input : VerifyInput} {now : String}
    {evidence : Option TaskEvidence} (h : verify env input now service = .ok (next, evidence)) :
    Transition env service (.verify input now) next evidence.isSome := by
  have hbefore : ∀ existing, (env.workspaceRegistry input.workspaceId).isSome →
      service.db.taskEvidence.get? (input.workspaceId, input.commandId) = some existing →
      verifyDuplicate input service existing = .ok (next, evidence) →
      Transition env service (.verify input now) next evidence.isSome := by
    intro existing hregistered hfound hduplicate
    unfold verifyDuplicate at hduplicate
    split_ifs at hduplicate with htask
    cases hduplicate
    exact .verifiedBefore hregistered hfound (not_not.mp htask)
  unfold verify at h
  dsimp only at h
  split at h
  · cases h
  rename_i workspace hworkspace
  split at h
  · rename_i existing hexisting
    exact hbefore existing (by simp [hworkspace]) hexisting h
  · split at h
    · cases h
    rename_i task htask
    split at h
    · split at h
      · cases h
      rename_i existing hexisting
      exact hbefore existing (by simp [hworkspace]) hexisting h
    · rename_i taskEvidence hinserted
      cases h
      exact .claimed hworkspace htask hinserted

theorem exists_of_map_eq_ok {α β : Type} {x : Except String α} {f : α → β} {b : β}
    (h : x.map f = .ok b) : ∃ a, x = .ok a ∧ f a = b := by
  cases x with
  | error message => cases h
  | ok a => exact ⟨a, rfl, Except.ok.inj h⟩

theorem transition_of_step {next : TaskService} {event : TaskEvent}
    (h : step env service event = .ok (next, duplicate)) :
    Transition env service event next duplicate := by
  cases event with
  | create input now =>
    obtain ⟨⟨db, flag⟩, hcreate, heq⟩ := exists_of_map_eq_ok h
    cases heq
    exact create_cases hcreate
  | command input =>
    obtain ⟨⟨db, flag⟩, hcommand, heq⟩ := exists_of_map_eq_ok h
    cases heq
    exact command_cases hcommand
  | verify input now =>
    obtain ⟨⟨db, evidence⟩, hverify, heq⟩ := exists_of_map_eq_ok h
    cases heq
    exact verify_cases hverify
  | complete index outcome =>
    unfold step at h
    dsimp only at h
    split at h
    · cases h
    rename_i verification hactive
    cases h
    exact .completed hactive
  | failStart workspaceId taskId agentId =>
    obtain ⟨db, hfail, heq⟩ := exists_of_map_eq_ok h
    cases heq
    unfold failStart at hfail
    split at hfail
    · cases hfail
    rename_i workspace hworkspace
    cases hfail
    exact .startFailed (by simp [hworkspace])

/-- An event either throws and changes nothing, or takes a transition. -/
theorem after_cases (env : TaskServiceEnv) (service : TaskService) (event : TaskEvent) :
    after env service event = service ∨
      ∃ duplicate, Transition env service event (after env service event) duplicate := by
  unfold after
  cases hstep : step env service event with
  | error message => exact .inl rfl
  | ok reply => exact .inr ⟨reply.2, transition_of_step hstep⟩

/-- What every event preserves holds of every service that a run reaches. -/
theorem run_induction (Inv : TaskService → Prop) (hinit : Inv service)
    (hstep : ∀ service event next duplicate, Inv service →
      Transition env service event next duplicate → Inv next) (events : List TaskEvent) :
    Inv (events.foldl (after env) service) := by
  induction events generalizing service with
  | nil => exact hinit
  | cons event events ih =>
    apply ih
    rcases after_cases env service event with hsame | ⟨duplicate, htransition⟩
    · rw [hsame]
      exact hinit
    · exact hstep service event _ duplicate hinit htransition

end Orqara.Tasks
