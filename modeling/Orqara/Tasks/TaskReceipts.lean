import Orqara.Tasks.TaskTransitions

/-!
# Receipts and revisions

Receipts are never lost and rows only move to higher revisions. From these two
facts: a repeated call finds its receipt and changes nothing, a reused command
id is refused, and a revision is spent once.
-/

namespace Orqara.Tasks

variable {env : TaskServiceEnv} {service : TaskService} {event : TaskEvent} {next : TaskService}
  {event' : TaskEvent}

/-- A row stays, or moves to a higher revision of the same task. -/
def TaskRow.Later (row row' : TaskRow) : Prop :=
  row' = row ∨ row.revision < row'.revision ∧ row'.createRequestHash = row.createRequestHash

theorem TaskRow.Later.refl (row : TaskRow) : row.Later row := .inl rfl

theorem TaskRow.Later.trans {a b c : TaskRow} (h : a.Later b) (h' : b.Later c) : a.Later c := by
  rcases h with rfl | ⟨hlt, hhash⟩
  · exact h'
  rcases h' with rfl | ⟨hlt', hhash'⟩
  · exact .inr ⟨hlt, hhash⟩
  · exact .inr ⟨hlt.trans hlt', hhash'.trans hhash⟩

theorem TaskRow.Later.hash_eq {a b : TaskRow} (h : a.Later b) :
    b.createRequestHash = a.createRequestHash := by
  rcases h with rfl | ⟨-, hhash⟩
  · rfl
  · exact hhash

theorem TaskRow.Later.revision_le {a b : TaskRow} (h : a.Later b) : a.revision ≤ b.revision := by
  rcases h with rfl | ⟨hlt, -⟩
  · exact le_rfl
  · exact hlt.le

/-- An evidence row may get a new payload, but it stays with its task. -/
def EvidenceRow.SameTask (row row' : EvidenceRow) : Prop := row'.taskId = row.taskId

theorem EvidenceRow.SameTask.refl (row : EvidenceRow) : row.SameTask row := rfl

/-- The database has kept every row of an earlier one. -/
structure TaskDb.Extends (db db' : TaskDb) : Prop where
  tasks : db.tasks.Grows TaskRow.Later db'.tasks
  taskCommands : db.taskCommands.Grows Eq db'.taskCommands
  taskEvidence : db.taskEvidence.Grows EvidenceRow.SameTask db'.taskEvidence

namespace TaskDb.Extends

theorem refl (db : TaskDb) : db.Extends db :=
  ⟨.refl TaskRow.Later.refl _, .refl Eq.refl _, .refl EvidenceRow.SameTask.refl _⟩

theorem trans {db db' db'' : TaskDb} (h : db.Extends db') (h' : db'.Extends db'') :
    db.Extends db'' :=
  ⟨h.tasks.trans TaskRow.Later.trans h'.tasks,
    h.taskCommands.trans Eq.trans h'.taskCommands,
    h.taskEvidence.trans (fun hab hbc => Eq.trans hbc hab) h'.taskEvidence⟩

end TaskDb.Extends

/-- Every transition keeps every row. -/
theorem Transition.extends {duplicate : Bool} (h : Transition env service event next duplicate) :
    service.db.Extends next.db := by
  have hrefl := TaskDb.Extends.refl service.db
  have hlater : ∀ row row' : TaskRow, row'.revision = row.revision + 1 →
      row'.createRequestHash = row.createRequestHash → row.Later row' := by
    intro row row' hrevision hhash
    exact .inr ⟨by omega, hhash⟩
  cases h with
  | createdBefore => exact hrefl
  | created _ _ inserted => exact ⟨.insert TaskRow.Later.refl inserted, hrefl.2, hrefl.3⟩
  | commandedBefore => exact hrefl
  | commanded _ _ _ _ inserted =>
    refine ⟨?_, .insert Eq.refl inserted, hrefl.3⟩
    apply Table.Grows.update TaskRow.Later.refl (TaskRow.commanded_key _ _)
    intro row _
    exact hlater _ _ rfl rfl
  | verifiedBefore => exact hrefl
  | claimed _ _ inserted =>
    refine ⟨?_, hrefl.2, .insert EvidenceRow.SameTask.refl inserted⟩
    apply Table.Grows.update TaskRow.Later.refl TaskRow.verifying_key
    intro row _
    exact hlater _ _ rfl rfl
  | completed =>
    refine ⟨?_, hrefl.2, ?_⟩
    · apply Table.Grows.update TaskRow.Later.refl (TaskRow.verified_key _)
      intro row _
      exact hlater _ _ rfl rfl
    · apply Table.Grows.update EvidenceRow.SameTask.refl (EvidenceRow.finished_key _)
      intro row _
      exact EvidenceRow.SameTask.refl row
  | startFailed =>
    refine ⟨?_, hrefl.2, hrefl.3⟩
    apply Table.Grows.update TaskRow.Later.refl (TaskRow.failStart_key _)
    intro row _
    -- Only the agent's own running task moves.
    unfold TaskRow.failStart
    split_ifs
    · exact hlater _ _ rfl rfl
    · exact .refl _

/-- A run keeps every row of the service it starts from. -/
theorem extends_run (env : TaskServiceEnv) (service : TaskService) (events : List TaskEvent) :
    service.db.Extends (events.foldl (after env) service).db := by
  apply run_induction (fun s => service.db.Extends s.db) (.refl _)
  intro s event next duplicate hinv htransition
  exact hinv.trans htransition.extends

/-! ## Requests

A request is told apart from another by what its receipt covers. -/

theorem TaskCheck.toJson_injective : Function.Injective TaskCheck.toJson := by
  rintro ⟨id, command, timeoutMs⟩ ⟨id', command', timeoutMs'⟩ h
  simpa [TaskCheck.toJson] using h

theorem CreateInput.request_injective : Function.Injective CreateInput.request := by
  have hstr : Function.Injective Json.str := fun _ _ h => Json.str.inj h
  rintro ⟨ws, title, prompt, provider, criteria, checks, cmd⟩
    ⟨ws', title', prompt', provider', criteria', checks', cmd'⟩ h
  simp only [CreateInput.request, Json.obj.injEq, List.cons.injEq, Prod.mk.injEq, Json.str.injEq,
    Json.arr.injEq, true_and, and_true, (List.map_injective_iff.mpr hstr).eq_iff,
    (List.map_injective_iff.mpr TaskCheck.toJson_injective).eq_iff] at h
  simpa using h

theorem TaskAction.text_injective : Function.Injective TaskAction.text := by
  intro a b h
  cases a <;> cases b <;> first | rfl | simp [TaskAction.text] at h

theorem CommandInput.request_inj {a b : CommandInput} (h : a.request = b.request) :
    a.taskId = b.taskId ∧ a.expectedRevision = b.expectedRevision ∧ a.action = b.action := by
  simp only [CommandInput.request, Json.obj.injEq, List.cons.injEq, Prod.mk.injEq, Json.str.injEq,
    Json.num.injEq, true_and, and_true, TaskAction.text_injective.eq_iff, Nat.cast_inj] at h
  exact ⟨h.2.1, h.2.2.2.1, h.2.2.2.2⟩

/-- The same call again, at another time. -/
inductive TaskEvent.Repeats : TaskEvent → TaskEvent → Prop
  | create (input : CreateInput) (now now' : String) :
      Repeats (.create input now) (.create input now')
  | command (input : CommandInput) : Repeats (.command input) (.command input)
  | verify (input : VerifyInput) (now now' : String) :
      Repeats (.verify input now) (.verify input now')

/-- A call of the same kind that uses the command id in the same workspace for
another request. What a receipt does not cover (the agent of a command, the
directory of a verification) makes no other request. -/
inductive TaskEvent.Reuses : TaskEvent → TaskEvent → Prop
  | create {input input' : CreateInput} {now now' : String}
      (workspace : input'.workspaceId = input.workspaceId)
      (commandId : input'.commandId = input.commandId) (other : input' ≠ input) :
      Reuses (.create input now) (.create input' now')
  | command {input input' : CommandInput} (workspace : input'.workspaceId = input.workspaceId)
      (commandId : input'.commandId = input.commandId)
      (other : ¬ (input'.taskId = input.taskId ∧
        input'.expectedRevision = input.expectedRevision ∧ input'.action = input.action)) :
      Reuses (.command input) (.command input')
  | verify {input input' : VerifyInput} {now now' : String}
      (workspace : input'.workspaceId = input.workspaceId)
      (commandId : input'.commandId = input.commandId) (other : input'.taskId ≠ input.taskId) :
      Reuses (.verify input now) (.verify input' now')

/-- The request that an event's receipt hashes. -/
def TaskEvent.request : TaskEvent → Option Json
  | .create input _ => some input.request
  | .command input => some input.request
  | _ => none

/-- The hash has no collision on the requests of the two events. -/
def TaskServiceEnv.Separates (env : TaskServiceEnv) (event event' : TaskEvent) : Prop :=
  ∀ a ∈ event.request, ∀ b ∈ event'.request,
    env.sha256 a.stringify = env.sha256 b.stringify → a.stringify = b.stringify

theorem requestHash_ne (h : env.Separates event event') {a b : Json} (ha : event.request = some a)
    (hb : event'.request = some b) (hne : b ≠ a) :
    requestHash env a ≠ requestHash env b :=
  fun hhash => hne (Json.stringify_injective (h a ha b hb hhash)).symm

/-! ## What a successful call leaves behind -/

/-- The receipt that a repetition of the event looks for. -/
def Received (env : TaskServiceEnv) (db : TaskDb) : TaskEvent → Prop
  | .create input _ => (env.workspaceRegistry input.workspaceId).isSome ∧
    ∃ row, db.tasks.get? (input.workspaceId, taskIdOf env input.workspaceId input.commandId) =
      some row ∧ row.createRequestHash = requestHash env input.request
  | .command input => (env.workspaceRegistry input.workspaceId).isSome ∧
    (∃ task, db.tasks.get? (input.workspaceId, input.taskId) = some task) ∧
    ∃ receipt, db.taskCommands.get? (input.workspaceId, input.commandId) = some receipt ∧
      receipt.requestHash = requestHash env input.request
  | .verify input _ => (env.workspaceRegistry input.workspaceId).isSome ∧
    ∃ row, db.taskEvidence.get? (input.workspaceId, input.commandId) = some row ∧
      row.taskId = input.taskId
  | _ => True

/-- Receipts are never lost. -/
theorem Received.extend {db db' : TaskDb} (hext : db.Extends db') (h : Received env db event) :
    Received env db' event := by
  cases event with
  | create input now =>
    obtain ⟨hregistered, row, hrow, hhash⟩ := h
    obtain ⟨row', hrow', hlater⟩ := hext.tasks _ row hrow
    exact ⟨hregistered, row', hrow', hlater.hash_eq.trans hhash⟩
  | command input =>
    obtain ⟨hregistered, ⟨task, htask⟩, receipt, hreceipt, hhash⟩ := h
    obtain ⟨task', htask', -⟩ := hext.tasks _ task htask
    obtain ⟨_, hreceipt', rfl⟩ := hext.taskCommands _ receipt hreceipt
    exact ⟨hregistered, ⟨task', htask'⟩, receipt, hreceipt', hhash⟩
  | verify input now =>
    obtain ⟨hregistered, row, hrow, htask⟩ := h
    obtain ⟨row', hrow', hsame⟩ := hext.taskEvidence _ row hrow
    exact ⟨hregistered, row', hrow', Eq.trans hsame htask⟩
  | complete index outcome => trivial
  | failStart workspaceId taskId agentId => trivial

theorem Transition.received {duplicate : Bool} (h : Transition env service event next duplicate) :
    Received env next.db event := by
  cases h with
  | createdBefore registered found same => exact ⟨registered, _, found, same⟩
  | @created input now check tasks registered checked inserted =>
    exact ⟨registered, input.row env check now, Table.get?_insert?_self inserted, rfl⟩
  | commandedBefore registered found received same =>
    exact ⟨registered, ⟨_, found⟩, _, received, same⟩
  | @commanded input task status taskCommands registered found current allowed inserted =>
    exact ⟨registered, ⟨_, Table.get?_update_self (TaskRow.commanded_key _ _) found⟩,
      input.receipt env (task.revision + 1), Table.get?_insert?_self inserted, rfl⟩
  | verifiedBefore registered found same => exact ⟨registered, _, found, same⟩
  | @claimed input now workspace task taskEvidence registered found inserted =>
    exact ⟨by simp [registered], input.row task.checkDefinition now,
      Table.get?_insert?_self inserted, rfl⟩
  | completed => trivial
  | startFailed => trivial

/-- A repeated call finds its receipt, answers that it is a duplicate and
changes nothing. -/
theorem step_of_received (hreceived : Received env service.db event) (hrepeat : event.Repeats event') :
    step env service event' = .ok (service, true) := by
  cases hrepeat with
  | create input now now' =>
    obtain ⟨hregistered, row, hrow, hhash⟩ := hreceived
    obtain ⟨workspace, hworkspace⟩ := Option.isSome_iff_exists.mp hregistered
    simp [step, create, hworkspace, hrow, hhash, Except.map]
  | command input =>
    obtain ⟨hregistered, ⟨task, htask⟩, receipt, hreceipt, hhash⟩ := hreceived
    obtain ⟨workspace, hworkspace⟩ := Option.isSome_iff_exists.mp hregistered
    simp [step, command, hworkspace, htask, hreceipt, hhash, Except.map]
  | verify input now now' =>
    obtain ⟨hregistered, row, hrow, htask⟩ := hreceived
    obtain ⟨workspace, hworkspace⟩ := Option.isSome_iff_exists.mp hregistered
    simp [step, verify, hworkspace, hrow, htask, verifyDuplicate, Except.map]

/-- A command id that comes back with another request is refused. -/
theorem step_of_reused (hreceived : Received env service.db event) (hreuse : event.Reuses event')
    (hseparate : env.Separates event event') :
    ∃ message, step env service event' = .error message := by
  cases hreuse with
  | @create input input' now now' workspaceId commandId other =>
    obtain ⟨hregistered, row, hrow, hhash⟩ := hreceived
    obtain ⟨workspace, hworkspace⟩ := Option.isSome_iff_exists.mp hregistered
    have hne := requestHash_ne hseparate rfl rfl (CreateInput.request_injective.ne other)
    refine ⟨commandIdConflict input'.commandId, ?_⟩
    simp [step, create, workspaceId, commandId, hworkspace, hrow, hhash, hne, Except.map]
  | @command input input' workspaceId commandId other =>
    obtain ⟨hregistered, ⟨task, htask⟩, receipt, hreceipt, hhash⟩ := hreceived
    obtain ⟨workspace, hworkspace⟩ := Option.isSome_iff_exists.mp hregistered
    have hne := requestHash_ne hseparate rfl rfl (mt CommandInput.request_inj other)
    cases htask' : service.db.tasks.get? (input.workspaceId, input'.taskId) with
    | none =>
      refine ⟨taskNotFound input'.taskId, ?_⟩
      simp [step, command, workspaceId, hworkspace, htask', Except.map]
    | some task' =>
      refine ⟨commandIdConflict input'.commandId, ?_⟩
      simp [step, command, workspaceId, commandId, hworkspace, htask', hreceipt, hhash, hne,
        Except.map]
  | @verify input input' now now' workspaceId commandId other =>
    obtain ⟨hregistered, row, hrow, htask⟩ := hreceived
    obtain ⟨workspace, hworkspace⟩ := Option.isSome_iff_exists.mp hregistered
    refine ⟨commandIdConflict input'.commandId, ?_⟩
    simp [step, verify, workspaceId, commandId, hworkspace, hrow, htask, verifyDuplicate,
      Ne.symm other, Except.map]

/-! ## Revisions -/

/-- A command that takes effect was sent for the revision it found, and leaves
the next one. -/
theorem effective_command {input : CommandInput}
    (h : step env service (.command input) = .ok (next, false)) :
    ∃ row row', service.db.tasks.get? (input.workspaceId, input.taskId) = some row ∧
      row.revision = input.expectedRevision ∧
      next.db.tasks.get? (input.workspaceId, input.taskId) = some row' ∧
      row'.revision = input.expectedRevision + 1 := by
  cases transition_of_step h with
  | commanded _ found current _ _ =>
    refine ⟨_, _, found, current, Table.get?_update_self (TaskRow.commanded_key _ _) found, ?_⟩
    rw [← current]
    rfl

/-- Of two commands that take effect on one task, the later one was sent for a
higher revision. -/
theorem expectedRevision_lt {next' : TaskService} {input input' : CommandInput}
    (h : step env service (.command input) = .ok (next, false)) (events : List TaskEvent)
    (h' : step env (events.foldl (after env) next) (.command input') = .ok (next', false))
    (hworkspace : input'.workspaceId = input.workspaceId) (htask : input'.taskId = input.taskId) :
    input.expectedRevision < input'.expectedRevision := by
  obtain ⟨-, row, -, -, hrow, hrevision⟩ := effective_command h
  obtain ⟨row', -, hrow', hcurrent, -⟩ := effective_command h'
  obtain ⟨later, hlater, hle⟩ := (extends_run env next events).tasks _ row hrow
  rw [hworkspace, htask, hlater] at hrow'
  obtain rfl := Option.some.inj hrow'
  have := hle.revision_le
  omega

/-- After a successful event, and whatever happens later: the same call again
is a duplicate that changes nothing, another request under its command id
throws, the event itself raised the revision of every row it changed, and if it
was a command that took effect, no other one sent for its revision does. -/
theorem taskMutations_idempotent (env : TaskServiceEnv) (earlier later : List TaskEvent)
    {event : TaskEvent} {next : TaskService} {duplicate : Bool}
    (h : step env (run env earlier) event = .ok (next, duplicate)) :
    (∀ event', event.Repeats event' →
      step env (later.foldl (after env) next) event' = .ok (later.foldl (after env) next, true)) ∧
    (∀ event', event.Reuses event' → env.Separates event event' →
      (∃ message, step env (later.foldl (after env) next) event' = .error message) ∧
      after env (later.foldl (after env) next) event' = later.foldl (after env) next) ∧
    (∀ key row, (run env earlier).db.tasks.get? key = some row →
      ∃ row', next.db.tasks.get? key = some row' ∧
        (row' = row ∨ row.revision < row'.revision)) ∧
    (∀ input input', event = .command input → duplicate = false →
      input'.workspaceId = input.workspaceId → input'.taskId = input.taskId →
      input'.expectedRevision = input.expectedRevision →
      ∀ next', step env (later.foldl (after env) next) (.command input') ≠ .ok (next', false)) := by
  have htransition := transition_of_step h
  have hreceived := htransition.received.extend (extends_run env next later)
  refine ⟨?_, ?_, ?_, ?_⟩
  · intro event' hrepeat
    exact step_of_received hreceived hrepeat
  · intro event' hreuse hseparate
    obtain ⟨message, hthrows⟩ := step_of_reused hreceived hreuse hseparate
    exact ⟨⟨message, hthrows⟩, by rw [after, hthrows]⟩
  · intro key row hrow
    obtain ⟨row', hrow', hlater⟩ := htransition.extends.tasks key row hrow
    exact ⟨row', hrow', hlater.imp_right And.left⟩
  · rintro input input' rfl rfl hworkspace htask hrevision next' h'
    have := expectedRevision_lt h later h' hworkspace htask
    omega

/-! ## A sample -/

def sampleInput (workspaceId : String) : CreateInput where
  workspaceId := workspaceId
  title := "Fix"
  prompt := "Fix it"
  providerId := "codex"
  acceptanceCriteria := []
  checks := [⟨"check", "true", 1000⟩]
  commandId := "k"

/-- SHA-256 of the texts that the sample hashes. -/
def sampleDigests : List (String × String) :=
  [("task\x00w\x00k", "0a52ee3efa7e0686a548f8a74a0b5d0b960a5c0d5b338c6df73e5eb528030825"),
    ("task\x00v\x00k", "6a02b12118e7204bf6690daa98c08cde5d90765b83087ba9e977e5483d3e6530"),
    ((sampleInput "w").request.stringify,
      "e592af2ded562e59eafa02527ced5bffbead19d04ba21faa72bfb6c8e3457ef1"),
    ((sampleInput "v").request.stringify,
      "281b29c9ac306d541535985fad0513a3c26a435391ba9389d35d1d687d3a5dcf")]

def sampleEnv : TaskServiceEnv where
  sha256 text := (sampleDigests.lookup text).getD ""
  workspaceRegistry _ := some ⟨"/repo"⟩

/-- The service after the sample task was created. -/
def sampleService : TaskService := after sampleEnv .init (.create (sampleInput "w") "t0")

theorem taskMutations_idempotent_sample :
    step sampleEnv sampleService (.create (sampleInput "w") "t1") = .ok (sampleService, true) := by
  have h : step sampleEnv (run sampleEnv []) (.create (sampleInput "w") "t0") =
      .ok (sampleService, false) := rfl
  exact (taskMutations_idempotent sampleEnv [] [] h).1 _ (.create _ _ _)

/-- Command ids are kept by workspace, and a verification's receipt does not
cover its directory: neither reuse is refused. -/
theorem taskMutations_accepted_reuse :
    ((step sampleEnv sampleService (.create (sampleInput "v") "t1")).toOption.map (·.2)) =
        some false ∧
      ((step sampleEnv
        (after sampleEnv sampleService (.verify ⟨"w", "0a52ee3efa7e0686", "c", none⟩ "t1"))
        (.verify ⟨"w", "0a52ee3efa7e0686", "c", some "/other"⟩ "t2")).toOption.map (·.2)) =
        some true := by
  decide

end Orqara.Tasks
