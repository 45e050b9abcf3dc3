import Orqara.Library.JsString
import Orqara.Library.KeyedMaps

/-!
# The replica of the agent directory

Agents as the app keeps them, and the entries and updates of the daemon's directory that they are
made of. A refresh replaces the agents by a snapshot, or brings them up to date with what has changed
since the last one. Of the hosts only those that know workspaces are modelled.
-/

namespace Orqara.Directory

/-! ## Where a project is -/

structure ProjectCheckout where
  cwd : String
  isGit : Bool
  currentBranch : Option String
  remoteUrl : Option String
  worktreeRoot : Option String
  isPaseoOwnedWorktree : Bool
  mainRepoRoot : Option String
  deriving DecidableEq

/-- The name of the workspace may be missing or null. -/
structure ProjectPlacement where
  projectKey : String
  projectName : String
  workspaceName : Option (Option String)
  checkout : ProjectCheckout
  deriving DecidableEq

def plainCheckout (cwd : String) : ProjectCheckout := ⟨cwd, false, none, none, none, false, none⟩

def normalizeWorkingDirectory (cwd : String) : String := (trimNonEmpty cwd).getD "."

/-- The repository that a worktree belongs to, else the directory. -/
def deriveProjectKey (cwd : String) : String :=
  match cwd.toList.tails.findIdx? (".paseo/worktrees/".toList.isPrefixOf ·) with
  | none => cwd
  | some idx =>
    let parent := cwd.toList.take idx
    String.ofList (if parent.getLast? = some '/' then parent.dropLast else parent)

def deriveProjectName (projectKey : String) : String :=
  let githubRemotePrefix := "remote:github.com/".toList
  if githubRemotePrefix.isPrefixOf projectKey.toList then
    let repository := projectKey.toList.drop githubRemotePrefix.length
    if repository = [] then projectKey else String.ofList repository
  else
    match ((projectKey.toList.splitOn '/').filter (· ≠ [])).getLast? with
    | none => projectKey
    | some segment => String.ofList segment

def deriveProjectPlacementFromCwd (cwd : String) : ProjectPlacement :=
  let normalizedCwd := normalizeWorkingDirectory cwd
  let projectKey := deriveProjectKey normalizedCwd
  ⟨projectKey, deriveProjectName projectKey, some none, plainCheckout normalizedCwd⟩

def resolveProjectPlacement (projectPlacement : Option ProjectPlacement) (cwd : String) :
    ProjectPlacement :=
  projectPlacement.getD (deriveProjectPlacementFromCwd cwd)

/-- The placement of an agent that came without one: the last part of its directory. -/
def unplaced (cwd : String) : ProjectPlacement :=
  let name := cwd.toList.rtakeWhile (· ≠ '/')
  ⟨cwd, if name = [] then cwd else String.ofList name, none, plainCheckout cwd⟩

/-! ## Turns -/

structure ActiveTurnIdentity where
  turnId : Option String
  startedAt : Option ℕ
  deriving DecidableEq

/-- The phase is idle when no turn is open. -/
structure TurnLiveness where
  activeTurn : Option ActiveTurnIdentity
  cancellationRequestId : Option ℕ
  deriving DecidableEq

def turnLivenessIdle : TurnLiveness := ⟨none, none⟩

inductive TurnLivenessTransition
  | snapshot (activeTurn : Option ActiveTurnIdentity)
  | streamOpen (turn : ActiveTurnIdentity)
  | streamClose (turnId : Option String)
  | cancellationStarted (requestId : ℕ)
  | cancellationSettled (requestId : ℕ)
  | destructiveClose

def closeTurn (current : TurnLiveness) (turnId : Option String) : TurnLiveness :=
  match current.activeTurn with
  | some turn => if turnId ≠ none ∧ turn.turnId ≠ none ∧ turnId ≠ turn.turnId then current
    else turnLivenessIdle
  | none => turnLivenessIdle

/-- What is known of the same turn stays. -/
def openTurn (current : TurnLiveness) (activeTurn : ActiveTurnIdentity) : TurnLiveness :=
  match current.activeTurn with
  | some turn =>
    if turn.turnId = activeTurn.turnId then
      { activeTurn := some { activeTurn with startedAt := turn.startedAt.or activeTurn.startedAt }
        cancellationRequestId := current.cancellationRequestId }
    else ⟨some activeTurn, none⟩
  | none => ⟨some activeTurn, current.cancellationRequestId⟩

def reduceTurnLiveness (current : TurnLiveness) : TurnLivenessTransition → TurnLiveness
  | .destructiveClose => turnLivenessIdle
  | .cancellationStarted requestId => { current with cancellationRequestId := some requestId }
  | .cancellationSettled requestId =>
    if current.cancellationRequestId = some requestId then
      { current with cancellationRequestId := none }
    else current
  | .streamClose turnId => closeTurn current turnId
  | .streamOpen turn => openTurn current turn
  | .snapshot none => turnLivenessIdle
  | .snapshot (some activeTurn) => openTurn current activeTurn

/-! ## Agents -/

structure ActiveTurnPayload where
  turnId : String
  startedAt : Option ℕ
  deriving DecidableEq

/-- An agent as the daemon sends it. Times are instants; `activeTurn` and `thinkingOptionId` may be
missing or null, and `rest` stands for the fields that are carried along. -/
structure AgentSnapshotPayload (υ ρ : Type) where
  id : String
  cwd : String
  workspaceId : Option String
  updatedAt : ℕ
  lastUserMessageAt : Option ℕ
  status : String
  activeTurn : Option (Option ActiveTurnPayload)
  thinkingOptionId : Option (Option String)
  lastUsage : Option υ
  lastError : Option String
  archivedAt : Option ℕ
  rest : ρ
  deriving DecidableEq

/-- An agent as the app keeps it. -/
structure Agent (υ ρ : Type) where
  id : String
  cwd : String
  workspaceId : Option String
  updatedAt : ℕ
  lastUserMessageAt : Option ℕ
  status : String
  turn : TurnLiveness
  thinkingOptionId : Option (Option String)
  lastUsage : Option υ
  lastError : Option String
  archivedAt : Option ℕ
  rest : ρ
  projectPlacement : Option ProjectPlacement
  deriving DecidableEq

structure FetchAgentsEntry (υ ρ : Type) where
  agent : AgentSnapshotPayload υ ρ
  project : ProjectPlacement
  deriving DecidableEq

inductive AgentDirectoryDelta (υ ρ : Type)
  | upsert (agent : AgentSnapshotPayload υ ρ) (project : Option ProjectPlacement)
  | remove (agentId : String)
  deriving DecidableEq

variable {υ ρ : Type}

/-- Older daemons only send the status. -/
def normalizeActiveTurn (snapshot : AgentSnapshotPayload υ ρ) : Option ActiveTurnIdentity :=
  match snapshot.activeTurn with
  | some none => none
  | some (some turn) => some ⟨some turn.turnId, turn.startedAt⟩
  | none => if snapshot.status = "running" then some ⟨none, snapshot.lastUserMessageAt⟩ else none

def normalizeAgentSnapshot (snapshot : AgentSnapshotPayload υ ρ) : Agent υ ρ where
  id := snapshot.id
  cwd := snapshot.cwd
  workspaceId := snapshot.workspaceId
  updatedAt := snapshot.updatedAt
  lastUserMessageAt := snapshot.lastUserMessageAt
  status := snapshot.status
  turn := ⟨normalizeActiveTurn snapshot, none⟩
  thinkingOptionId := snapshot.thinkingOptionId
  lastUsage := snapshot.lastUsage
  lastError := snapshot.lastError
  archivedAt := snapshot.archivedAt
  rest := snapshot.rest
  projectPlacement := none

def projectActiveTurn (agent : Agent υ ρ) : Option (Option ActiveTurnPayload) :=
  match agent.turn.activeTurn with
  | none => some none
  | some turn => turn.turnId.map fun turnId => some ⟨turnId, turn.startedAt⟩

/-- Texts that are empty are left out. -/
def projectAgentSnapshot (agent : Agent υ ρ) : AgentSnapshotPayload υ ρ where
  id := agent.id
  cwd := agent.cwd
  workspaceId := agent.workspaceId.filter (· ≠ "")
  updatedAt := agent.updatedAt
  lastUserMessageAt := agent.lastUserMessageAt
  status := agent.status
  activeTurn := projectActiveTurn agent
  thinkingOptionId := some (agent.thinkingOptionId.getD none)
  lastUsage := agent.lastUsage
  lastError := agent.lastError.filter (· ≠ "")
  archivedAt := agent.archivedAt
  rest := agent.rest

def projectAgentDirectoryEntry (agent : Agent υ ρ) : Option (FetchAgentsEntry υ ρ) :=
  agent.projectPlacement.map fun project => ⟨projectAgentSnapshot agent, project⟩

/-- An entry of the directory as `buildAgentDirectoryState` keeps it. -/
def agentOfEntry (entry : FetchAgentsEntry υ ρ) : Agent υ ρ :=
  { normalizeAgentSnapshot entry.agent with
    projectPlacement := some (resolveProjectPlacement (some entry.project) entry.agent.cwd) }

/-! ## Newer and older -/

/-- The two forms of an agent that updates are accepted of. -/
class AgentUpdateValue (τ : Type) (υ : outParam Type) where
  updatedAt : τ → ℕ
  lastUsage : τ → Option υ
  withLastUsage : τ → Option υ → τ

instance : AgentUpdateValue (AgentSnapshotPayload υ ρ) υ where
  updatedAt := (·.updatedAt)
  lastUsage := (·.lastUsage)
  withLastUsage agent lastUsage := { agent with lastUsage }

instance : AgentUpdateValue (Agent υ ρ) υ where
  updatedAt := (·.updatedAt)
  lastUsage := (·.lastUsage)
  withLastUsage agent lastUsage := { agent with lastUsage }

open AgentUpdateValue in
def isNewer {τ : Type} [AgentUpdateValue τ υ] (current : Option τ) (incoming : τ) : Bool :=
  current.all fun current => updatedAt current ≤ updatedAt incoming

open AgentUpdateValue in
/-- Of an older update only the usage is taken. -/
def acceptAgentDirectoryUpdate {τ : Type} [AgentUpdateValue τ υ] [DecidableEq υ] (current : Option τ)
    (incoming : τ) : τ :=
  match current with
  | none => incoming
  | some current =>
    if isNewer (some current) incoming then incoming
    else if lastUsage incoming = none then current
    else if lastUsage incoming = lastUsage current then current
    else withLastUsage current (lastUsage incoming)

def mergeSnapshotTurn (previous : Option (Agent υ ρ)) (incoming : Agent υ ρ) : Agent υ ρ :=
  match previous with
  | none => incoming
  | some previous =>
    { incoming with turn := reduceTurnLiveness previous.turn (.snapshot incoming.turn.activeTurn) }

/-! ## Reconciling -/

variable [DecidableEq υ]

/-- The entry that an update leads to. -/
def acceptEntry (previousEntry : Option (FetchAgentsEntry υ ρ)) (agent : AgentSnapshotPayload υ ρ)
    (project : Option ProjectPlacement) : FetchAgentsEntry υ ρ :=
  let previousProject := previousEntry.map (·.project)
  let acceptedProject :=
    if isNewer (previousEntry.map (·.agent)) agent then project.or previousProject
    else previousProject
  { agent := acceptAgentDirectoryUpdate (previousEntry.map (·.agent)) agent
    project := acceptedProject.getD (unplaced agent.cwd) }

def reconcileDelta (entries : OrderedMap String (FetchAgentsEntry υ ρ)) :
    AgentDirectoryDelta υ ρ → OrderedMap String (FetchAgentsEntry υ ρ)
  | .remove agentId => entries.delete agentId
  | .upsert agent project => entries.set agent.id (acceptEntry (entries.get agent.id) agent project)

def reconcileAgentDirectory (snapshot : List (FetchAgentsEntry υ ρ))
    (deltas : List (AgentDirectoryDelta υ ρ)) : OrderedMap String (FetchAgentsEntry υ ρ) :=
  deltas.foldl reconcileDelta ((∅ : OrderedMap _ _).setAll (·.agent.id) snapshot)

/-! ## The replica -/

structure AgentLifecycleToken where
  agentId : String
  version : ℕ
  deriving DecidableEq

/-- The agents of a host, with those that only a panel shows, and what tells responses that come too
late from those that do not. -/
structure AgentDirectoryReplica (υ ρ : Type) where
  agents : OrderedMap String (Agent υ ρ)
  agentDetails : OrderedMap String (Agent υ ρ)
  lifecycleVersions : String → ℕ
  members : Finset String
  pendingCacheReads : Finset String

/-- The versions of some agents one further. -/
def advanceEach (ids : Finset String) (versions : String → ℕ) : String → ℕ :=
  fun id => if id ∈ ids then versions id + 1 else versions id

namespace AgentDirectoryReplica

def start : AgentDirectoryReplica υ ρ := ⟨∅, ∅, fun _ => 0, ∅, ∅⟩

variable (r : AgentDirectoryReplica υ ρ)

def captureTimeline (agentId : String) : AgentLifecycleToken := ⟨agentId, r.lifecycleVersions agentId⟩

def advance (agentId : String) : AgentDirectoryReplica υ ρ :=
  { r with lifecycleVersions := advanceEach {agentId} r.lifecycleVersions }

/-- The agent as the store has it, in the directory or for a panel. -/
def get (agentId : String) : Option (Agent υ ρ) :=
  (r.agents.get agentId).or (r.agentDetails.get agentId)

/-- The agent that the store accepts, given what it has in the directory. -/
def accepted (agent : Agent υ ρ) : Agent υ ρ :=
  let previous := r.agents.get agent.id
  acceptAgentDirectoryUpdate previous (mergeSnapshotTurn previous agent)

/-- A write to the store; the agent becomes a member. -/
def accept (agent : Agent υ ρ) : AgentDirectoryReplica υ ρ :=
  { r with
    agents := r.agents.set agent.id (r.accepted agent)
    members := insert agent.id r.members }

def submitTimelineAgent (token : AgentLifecycleToken) (payload : AgentSnapshotPayload υ ρ) :
    AgentDirectoryReplica υ ρ :=
  if token.version ≠ r.lifecycleVersions token.agentId then r
  else
    r.accept { normalizeAgentSnapshot payload with
      projectPlacement := (r.get token.agentId).bind (·.projectPlacement) }

/-- The agent leaves the store. -/
def drop (agentId : String) : AgentDirectoryReplica υ ρ :=
  { r with agents := r.agents.delete agentId, agentDetails := r.agentDetails.delete agentId }

def remove (agentId : String) : AgentDirectoryReplica υ ρ :=
  { (r.drop agentId).advance agentId with members := r.members.erase agentId }

def applyDelta : AgentDirectoryDelta υ ρ → AgentDirectoryReplica υ ρ
  | .remove agentId => r.remove agentId
  | .upsert agent project =>
    let previous := r.get agent.id
    let next := r.accept { normalizeAgentSnapshot agent with
      workspaceId := agent.workspaceId.or (previous.bind (·.workspaceId))
      projectPlacement := some (resolveProjectPlacement project agent.cwd) }
    if agent.id ∈ r.members then next else next.advance agent.id

/-- The versions behind a commit of agents: what appears and what goes is one further, and so is a
read of the cache for an agent that is not there. -/
def versionsAfter (nextIds : Finset String) : String → ℕ :=
  advanceEach (nextIds \ r.members)
    (advanceEach (r.members \ nextIds)
      (advanceEach (r.pendingCacheReads \ nextIds) r.lifecycleVersions))

def commitSnapshot (entries : List (FetchAgentsEntry υ ρ)) (deltas : List (AgentDirectoryDelta υ ρ)) :
    AgentDirectoryReplica υ ρ :=
  let reconciled := reconcileAgentDirectory entries deltas
  let nextIds := reconciled.keys.toFinset
  let removed := r.agents.keys.filter (· ∉ nextIds)
  let fetched := (∅ : OrderedMap _ _).setAll (·.id) (reconciled.values.map agentOfEntry)
  { agents := fetched.mapValues fun agent => mergeSnapshotTurn (r.agents.get agent.id) agent
    agentDetails := (r.agentDetails.deleteAll removed).deleteAll fetched.keys
    lifecycleVersions := r.versionsAfter nextIds
    members := nextIds
    pendingCacheReads := ∅ }

/-- The entries that the agents still stand for, and those that have changed. -/
def mergedEntries (entries : List (FetchAgentsEntry υ ρ)) :
    OrderedMap String (FetchAgentsEntry υ ρ) :=
  ((∅ : OrderedMap _ _).setAll (·.agent.id)
    (r.agents.values.filterMap projectAgentDirectoryEntry)).setAll (·.agent.id) entries

def commitChanges (entries : List (FetchAgentsEntry υ ρ)) (removals : List String)
    (deltas : List (AgentDirectoryDelta υ ρ)) : AgentDirectoryReplica υ ρ :=
  r.commitSnapshot (r.mergedEntries entries).values (removals.map .remove ++ deltas)

def archive (agentId : String) (archivedAt : ℕ) : AgentDirectoryReplica υ ρ :=
  match r.agents.get agentId with
  | none => r.advance agentId
  | some agent =>
    { r.advance agentId with
      agents := r.agents.set agentId { agent with turn := turnLivenessIdle, archivedAt := some archivedAt } }

def applyTurnLiveness (agentId : String) (transitions : List TurnLivenessTransition) :
    AgentDirectoryReplica υ ρ :=
  match r.agents.get agentId with
  | none => r
  | some agent =>
    { r with
      agents := r.agents.set agentId
        { agent with turn := transitions.foldl reduceTurnLiveness agent.turn } }

def captureCache (agentId : String) : AgentDirectoryReplica υ ρ × AgentLifecycleToken :=
  ({ r with pendingCacheReads := insert agentId r.pendingCacheReads }, r.captureTimeline agentId)

def commitCachedAgent (token : AgentLifecycleToken) (agent : Agent υ ρ) : AgentDirectoryReplica υ ρ :=
  let settled := { r with pendingCacheReads := r.pendingCacheReads.erase token.agentId }
  if token.version ≠ r.lifecycleVersions token.agentId then settled
  else if agent.id ∈ r.members then settled
  else settled.accept agent

end AgentDirectoryReplica

end Orqara.Directory
