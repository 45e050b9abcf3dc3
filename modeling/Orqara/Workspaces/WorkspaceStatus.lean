import Orqara.Library.CodeUnitOrder
import Orqara.Library.KeyedMaps

/-!
# The status of workspaces

Agents, terminals and subagents of providers contribute buckets to the workspaces that they belong to.
A workspace has the strongest of them, and the time at which it entered it.
-/

namespace Orqara.Workspaces

inductive StateBucket where
  | needsInput
  | failed
  | running
  | attention
  | done
  deriving DecidableEq, Repr

/-- The strongest bucket has the smallest one. -/
def StateBucket.priority : StateBucket → ℕ
  | .needsInput => 0
  | .failed => 1
  | .running => 2
  | .attention => 3
  | .done => 4

inductive AgentStatus where
  | initializing
  | idle
  | running
  | error
  | closed
  deriving DecidableEq, Repr

inductive AttentionReason where
  | finished
  | error
  | permission
  deriving DecidableEq, Repr

structure AgentPayload where
  id : String
  provider : String
  workspaceId : Option String
  /-- the label that names the parent -/
  parentLabel : Option String
  status : AgentStatus
  pendingPermissions : ℕ
  requiresAttention : Bool
  attentionReason : Option AttentionReason
  attentionTimestamp : Option String
  updatedAt : String
  archivedAt : Option String
  deriving DecidableEq, Repr

inductive TerminalState where
  | idle
  | working
  | attention
  deriving DecidableEq, Repr

inductive TerminalAttention where
  | finished
  | needsInput
  deriving DecidableEq, Repr

structure TerminalActivity where
  state : TerminalState
  attentionReason : Option TerminalAttention
  changedAt : ℤ
  deriving DecidableEq, Repr

structure TerminalContribution where
  workspaceId : Option String
  activity : Option TerminalActivity
  deriving DecidableEq, Repr

structure SubagentActivity where
  parentAgentId : String
  isRunning : Bool
  updatedAt : String
  deriving DecidableEq, Repr

structure WorkspaceRecord where
  workspaceId : String
  projectId : String
  createdAt : String
  archivedAt : Option String
  deriving DecidableEq, Repr

structure ProjectRecord where
  projectId : String
  archivedAt : Option String
  deriving DecidableEq, Repr

/-- What a build has read. -/
structure DirectorySnapshot where
  agents : List AgentPayload
  subagents : List SubagentActivity
  workspaces : List WorkspaceRecord
  projects : List ProjectRecord
  terminals : List TerminalContribution
  deriving DecidableEq, Repr

structure DirectoryDeps where
  isProviderVisibleToClient : String → Bool
  toISOString : ℤ → String

/-- A descriptor: `base` is what `buildWorkspaceDescriptor` has given, with the status `done`. -/
structure Descriptor (δ : Type) where
  base : δ
  archivingAt : Option String
  status : StateBucket
  statusEnteredAt : Option String
  deriving DecidableEq, Repr

structure BucketEntry where
  bucket : StateBucket
  changedAtIso : String
  deriving DecidableEq, Repr

structure HistoryEntry where
  bucket : StateBucket
  enteredAt : String
  deriving DecidableEq, Repr

/-- A text that counts as true. -/
def nonEmptyText (text : Option String) : Option String := text.filter (· ≠ "")

/-! ## Buckets -/

def deriveAgentStateBucket (agent : AgentPayload) : StateBucket :=
  if 0 < agent.pendingPermissions || agent.attentionReason == some .permission then .needsInput
  else if agent.status == .error || agent.attentionReason == some .error then .failed
  else if agent.status == .running then .running
  else if agent.requiresAttention then .attention
  else .done

def deriveTerminalActivityStatusBucket (activity : TerminalActivity) : Option StateBucket :=
  if activity.attentionReason == some .needsInput then some .needsInput
  else if activity.attentionReason == some .finished then some .attention
  else if activity.state == .working then some .running
  else if activity.state == .attention then some .needsInput
  else none

/-- The existing bucket, unless the other one is stronger. -/
def stronger (existing bucket : StateBucket) : StateBucket :=
  if bucket.priority < existing.priority then bucket else existing

/-! ## Root agents -/

def getParentAgentIdFromLabels (agent : AgentPayload) : Option String := agent.parentLabel.bind trimNonEmpty

/-- The loop of `resolveWorkspaceRootAgent`, as often as the fuel allows. -/
def walkToRoot (activeAgentsById : OrderedMap String AgentPayload) :
    ℕ → List String → AgentPayload → Option (Option AgentPayload)
  | 0, _, _ => none
  | fuel + 1, seen, current =>
    match getParentAgentIdFromLabels current with
    | none => some (some current)
    | some parentAgentId =>
      if seen.contains parentAgentId then some none
      else
        match activeAgentsById.get parentAgentId with
        | none => some none
        | some parent =>
          if parent.workspaceId ≠ current.workspaceId then some (some current)
          else walkToRoot activeAgentsById fuel (parentAgentId :: seen) parent

def resolveWorkspaceRootAgent (activeAgentsById : OrderedMap String AgentPayload) (agent : AgentPayload) :
    Option AgentPayload :=
  (walkToRoot activeAgentsById (activeAgentsById.size + 1) [agent.id] agent).join

def agentsById (agents : List AgentPayload) : OrderedMap String AgentPayload :=
  OrderedMap.setAll (·.id) agents ∅

/-! ## Contributions -/

/-- The workspace that an agent contributes to, and its bucket there. -/
def agentContribution (activeAgentsById : OrderedMap String AgentPayload) (agent : AgentPayload) :
    Option (String × StateBucket) :=
  (resolveWorkspaceRootAgent activeAgentsById agent).bind fun workspaceAgent =>
    let isWorkspaceRoot := workspaceAgent.id == agent.id
    if !isWorkspaceRoot && agent.status != .running then none
    else
      let bucket := if isWorkspaceRoot then deriveAgentStateBucket agent else .running
      (nonEmptyText workspaceAgent.workspaceId).map fun workspaceId => (workspaceId, bucket)

def terminalContribution (deps : DirectoryDeps) (terminal : TerminalContribution) :
    Option (String × BucketEntry) :=
  terminal.activity.bind fun activity =>
    (nonEmptyText terminal.workspaceId).bind fun workspaceId =>
      (deriveTerminalActivityStatusBucket activity).map fun bucket =>
        (workspaceId, ⟨bucket, deps.toISOString activity.changedAt⟩)

def subagentContribution (activeAgentsById : OrderedMap String AgentPayload) (subagent : SubagentActivity) :
    Option (String × BucketEntry) :=
  if !subagent.isRunning then none
  else
    (activeAgentsById.get subagent.parentAgentId).bind fun parent =>
      (resolveWorkspaceRootAgent activeAgentsById parent).bind fun workspaceAgent =>
        (nonEmptyText workspaceAgent.workspaceId).map fun workspaceId =>
          (workspaceId, ⟨.running, subagent.updatedAt⟩)

variable {δ : Type}

abbrev Descriptors (δ : Type) := OrderedMap String (Descriptor δ)

abbrev ActivityEntries := OrderedMap String (List BucketEntry)

def applyBucket (descriptors : Descriptors δ) (contribution : String × StateBucket) : Descriptors δ :=
  match descriptors.get contribution.1 with
  | none => descriptors
  | some existing =>
    if contribution.2.priority < existing.status.priority then
      descriptors.set contribution.1 { existing with status := contribution.2 }
    else descriptors

def applyAgentBucketContributions (activeAgents : List AgentPayload) (descriptors : Descriptors δ) :
    Descriptors δ :=
  (activeAgents.filterMap (agentContribution (agentsById activeAgents))).foldl applyBucket descriptors

/-- A bucket with its time, for a workspace that is described. -/
def applyEntry (state : Descriptors δ × ActivityEntries) (contribution : String × BucketEntry) :
    Descriptors δ × ActivityEntries :=
  match state.1.get contribution.1 with
  | none => state
  | some _ =>
    (applyBucket state.1 (contribution.1, contribution.2.bucket),
      state.2.set contribution.1 ((state.2.get contribution.1).getD [] ++ [contribution.2]))

def applyTerminalContributions (deps : DirectoryDeps) (terminals : List TerminalContribution)
    (descriptors : Descriptors δ) : Descriptors δ × ActivityEntries :=
  (terminals.filterMap (terminalContribution deps)).foldl applyEntry (descriptors, ∅)

def applyProviderSubagentContributions (activeAgents : List AgentPayload)
    (subagents : List SubagentActivity) (state : Descriptors δ × ActivityEntries) :
    Descriptors δ × ActivityEntries :=
  (subagents.filterMap (subagentContribution (agentsById activeAgents))).foldl applyEntry state

def groupAgentsByWorkspaceId (agents : List AgentPayload) (activeWorkspaceIds : List String) :
    OrderedMap String (List AgentPayload) :=
  agents.foldl (fun groups agent =>
    match nonEmptyText agent.workspaceId with
    | none => groups
    | some workspaceId =>
      if activeWorkspaceIds.contains workspaceId then
        groups.set workspaceId ((groups.get workspaceId).getD [] ++ [agent])
      else groups) ∅

/-! ## Entry times -/

def findNewestTimestampInBucket (contributingAgents : List AgentPayload) (activityEntries : List BucketEntry)
    (winningBucket : StateBucket) : Option String :=
  let agentTimestamps := ((contributingAgents.filter fun agent =>
    deriveAgentStateBucket agent == winningBucket).map fun agent =>
      (nonEmptyText agent.attentionTimestamp).getD agent.updatedAt).filter (· ≠ "")
  let activityTimestamps := (activityEntries.filter (·.bucket == winningBucket)).map (·.changedAtIso)
  (sortTexts (agentTimestamps ++ activityTimestamps)).getLast?

/-- The time, and what is remembered. -/
structure EnteredAt where
  statusEnteredAt : Option String
  recordUpdate : Option HistoryEntry
  deriving DecidableEq, Repr

def resolveStatusEnteredAt (winningBucket : StateBucket) (contributingAgents : List AgentPayload)
    (activityEntries : List BucketEntry) (previous : Option HistoryEntry) (workspaceCreatedAt : Option String)
    (nowIso : String) : EnteredAt :=
  if contributingAgents.isEmpty && activityEntries.isEmpty then
    match previous with
    | none =>
      match nonEmptyText workspaceCreatedAt with
      | none => ⟨none, none⟩
      | some createdAt => ⟨some createdAt, some ⟨.done, createdAt⟩⟩
    | some previous =>
      let enteredAt := if previous.bucket = .done then previous.enteredAt else nowIso
      ⟨some enteredAt, some ⟨.done, enteredAt⟩⟩
  else
    match previous with
    | none =>
      let enteredAt := (findNewestTimestampInBucket contributingAgents activityEntries winningBucket).getD nowIso
      ⟨some enteredAt, some ⟨winningBucket, enteredAt⟩⟩
    | some previous =>
      if previous.bucket ≠ winningBucket then ⟨some nowIso, some ⟨winningBucket, nowIso⟩⟩
      else ⟨some previous.enteredAt, some previous⟩

/-! ## The end of a build -/

abbrev BucketHistory := OrderedMap String HistoryEntry

/-- What a build takes from elsewhere when it ends. -/
structure BuildContext (δ : Type) where
  /-- all workspaces, or some of them -/
  workspaceIds : Option (List String)
  buildWorkspaceDescriptor : WorkspaceRecord → Option ProjectRecord → δ
  archivingByWorkspaceId : OrderedMap String String
  nowIso : String

def activeAgentsOf (deps : DirectoryDeps) (agents : List AgentPayload) : List AgentPayload :=
  agents.filter fun agent =>
    (nonEmptyText agent.archivedAt).isNone && deps.isProviderVisibleToClient agent.provider

def activeRecordsOf (read : DirectorySnapshot) : List WorkspaceRecord :=
  let archivedProjectIds := (read.projects.filter fun project =>
    (nonEmptyText project.archivedAt).isSome).map (·.projectId)
  read.workspaces.filter fun workspace =>
    (nonEmptyText workspace.archivedAt).isNone && !archivedProjectIds.contains workspace.projectId

def includedWorkspacesOf (read : DirectorySnapshot) (workspaceIds : Option (List String)) :
    List WorkspaceRecord :=
  (activeRecordsOf read).filter fun workspace => workspaceIds.all (·.contains workspace.workspaceId)

/-- The descriptors before anything contributes to them. -/
def initialDescriptors (context : BuildContext δ) (read : DirectorySnapshot) : Descriptors δ :=
  let activeProjects : OrderedMap String ProjectRecord := OrderedMap.setAll (·.projectId)
    (read.projects.filter fun project => (nonEmptyText project.archivedAt).isNone) ∅
  (includedWorkspacesOf read context.workspaceIds).foldl (fun descriptors workspace =>
    descriptors.set workspace.workspaceId
      { base := context.buildWorkspaceDescriptor workspace (activeProjects.get workspace.projectId)
        archivingAt := context.archivingByWorkspaceId.get workspace.workspaceId
        status := .done
        statusEnteredAt := none }) ∅

/-- The descriptors with their statuses, and the activity entries. -/
def contribute (deps : DirectoryDeps) (context : BuildContext δ) (read : DirectorySnapshot) :
    Descriptors δ × ActivityEntries :=
  let activeAgents := activeAgentsOf deps read.agents
  applyProviderSubagentContributions activeAgents read.subagents
    (applyTerminalContributions deps read.terminals
      (applyAgentBucketContributions activeAgents (initialDescriptors context read)))

/-- The time of one workspace. -/
def enteredAtOf (deps : DirectoryDeps) (context : BuildContext δ) (read : DirectorySnapshot)
    (activityEntries : ActivityEntries) (workspaceId : String) (status : StateBucket)
    (previous : Option HistoryEntry) : EnteredAt :=
  let activeRecords := activeRecordsOf read
  let contributingAgents := groupAgentsByWorkspaceId (activeAgentsOf deps read.agents)
    (activeRecords.map (·.workspaceId))
  let recordsById : OrderedMap String WorkspaceRecord := OrderedMap.setAll (·.workspaceId) activeRecords ∅
  resolveStatusEnteredAt status ((contributingAgents.get workspaceId).getD [])
    ((activityEntries.get workspaceId).getD []) previous
    ((recordsById.get workspaceId).map (·.createdAt)) context.nowIso

/-- The last loop: the times are stamped, and remembered. -/
def stamp (enteredAt : String → StateBucket → Option HistoryEntry → EnteredAt)
    (state : Descriptors δ × BucketHistory) (entry : String × Descriptor δ) : Descriptors δ × BucketHistory :=
  let result := enteredAt entry.1 entry.2.status (state.2.get entry.1)
  (state.1.set entry.1 { entry.2 with statusEnteredAt := result.statusEnteredAt },
    match result.recordUpdate with
    | some update => state.2.set entry.1 update
    | none => state.2)

/-- `buildDescriptorMap` from its last `await` on. -/
def describe (deps : DirectoryDeps) (context : BuildContext δ) (read : DirectorySnapshot)
    (history : BucketHistory) : Descriptors δ × BucketHistory :=
  let (descriptors, activityEntries) := contribute deps context read
  descriptors.entries.foldl (stamp (enteredAtOf deps context read activityEntries)) (descriptors, history)

end Orqara.Workspaces
