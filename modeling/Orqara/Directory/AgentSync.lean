import Orqara.Directory.AgentCatchUp
import Orqara.Directory.DirectoryTransaction

/-!
# Refreshes, fetches and live updates of agents

The agent replica with all that is under way around it. A live update is buffered while a refresh has
its transaction; that an agent was deleted or archived is applied at once. A response about a single
agent counts as long as the agent has the lifecycle version that it had at the request. Steps are the
pieces of code between two awaits.
-/

namespace Orqara.Directory

variable {υ ρ : Type}

/-- What a refresh has fetched; an answer without `sync` leaves the mode open. -/
structure AgentSnapshot (υ ρ : Type) where
  entries : List (FetchAgentsEntry υ ρ)
  syncMode : Option ReadMode
  syncRemovals : List String

inductive AgentRead
  | timeline | cache
  deriving DecidableEq

/-- A request for a single agent, told apart by the number of those before it. -/
structure AgentFetch where
  number : ℕ
  read : AgentRead
  token : AgentLifecycleToken
  deriving DecidableEq

/-- Responses are about the agent that was asked for, if there is one. -/
def AgentFetch.answeredBy (fetch : AgentFetch) (read : AgentRead) (agentId : Option String) : Bool :=
  fetch.read = read && agentId.all (· = fetch.token.agentId)

structure AgentSync (υ ρ : Type) where
  /-- the source that is online -/
  connection : Option DirectorySourceToken
  transactions : DirectoryTransactionOwner (AgentSnapshot υ ρ) (AgentDirectoryDelta υ ρ)
  replica : AgentDirectoryReplica υ ρ
  /-- the refreshes under way, with the transaction and the source of each -/
  refreshes : List (ℕ × DirectorySourceToken)
  fetches : List AgentFetch
  fetched : ℕ

inductive AgentEvent (υ ρ : Type)
  | connectionChanged (connection : Option DirectorySourceToken)
  | agentUpdate (delta : AgentDirectoryDelta υ ρ)
  | agentDeleted (agentId : String)
  | agentArchived (agentId : String) (archivedAt : ℕ)
  | refreshAgents
  | agentsPage (i : ℕ) (entries : List (FetchAgentsEntry υ ρ)) (sync : Option (ReadMode × List String))
  | agentsError (i : ℕ)
  | agentsComplete (i : ℕ)
  | fetchTimeline (agentId : String)
  | loadCachedAgent (agentId : String)
  /-- the timeline comes with the agent, the cache with the agent that it has, if it has it -/
  | timelineArrives (i : ℕ) (agent : Option (AgentSnapshotPayload υ ρ))
  | cachedAgentArrives (i : ℕ) (agent : Option (Agent υ ρ))
  | turnLiveness (agentId : String) (transitions : List TurnLivenessTransition)
  | acceptAgent (agent : Agent υ ρ)
  | removeAgent (agentId : String)

namespace AgentSync

def start : AgentSync υ ρ := ⟨none, .idle, .start, [], [], 0⟩

variable [DecidableEq υ] (s : AgentSync υ ρ)

def applyDeltas (deltas : List (AgentDirectoryDelta υ ρ)) : AgentSync υ ρ :=
  { s with replica := deltas.foldl (·.applyDelta ·) s.replica }

def flushAbortedTransactions : AgentSync υ ρ :=
  { s with transactions := s.transactions.abort.1 }.applyDeltas s.transactions.abort.2

def commitAgentSnapshot (snapshot : AgentSnapshot υ ρ) (deltas : List (AgentDirectoryDelta υ ρ)) :
    AgentSync υ ρ :=
  { s with
    replica :=
      if snapshot.syncMode = some .changes then
        s.replica.commitChanges snapshot.entries snapshot.syncRemovals deltas
      else s.replica.commitSnapshot snapshot.entries deltas }

/-- The refresh is over. -/
def leave (i : ℕ) : AgentSync υ ρ := { s with refreshes := s.refreshes.eraseIdx i }

def failed (i transaction : ℕ) : AgentSync υ ρ :=
  match s.transactions.fail transaction with
  | some (transactions, deltas) => ({ s with transactions }.applyDeltas deltas).leave i
  | none => s.leave i

/-- The fetch is over. -/
def leaveFetch (i : ℕ) : AgentSync υ ρ := { s with fetches := s.fetches.eraseIdx i }

def connectionChanged (connection : Option DirectorySourceToken) : AgentSync υ ρ :=
  if s.connection = connection then s else { s.flushAbortedTransactions with connection }

def agentUpdate (source : DirectorySourceToken) (delta : AgentDirectoryDelta υ ρ) : AgentSync υ ρ :=
  match s.transactions.record source delta with
  | some transactions => { s with transactions }
  | none => s.applyDeltas [delta]

def refreshAgents (source : DirectorySourceToken) : AgentSync υ ρ :=
  { s with
    transactions := s.transactions.begin source ⟨[], none, []⟩
    refreshes := s.refreshes ++ [(s.transactions.begun, source)] }

/-- What a page adds to a snapshot. -/
def addPage (entries : List (FetchAgentsEntry υ ρ)) (sync : Option (ReadMode × List String))
    (snapshot : AgentSnapshot υ ρ) : AgentSnapshot υ ρ where
  entries := snapshot.entries ++ entries
  syncMode := (sync.map (·.1)).or snapshot.syncMode
  syncRemovals := snapshot.syncRemovals ++ (sync.map (·.2)).getD []

def agentsPage (i transaction : ℕ) (source : DirectorySourceToken)
    (entries : List (FetchAgentsEntry υ ρ)) (sync : Option (ReadMode × List String)) : AgentSync υ ρ :=
  if s.transactions.isCurrent transaction ∧ s.connection = some source then
    { s with transactions := s.transactions.write (addPage entries sync) }
  else s.failed i transaction

def agentsComplete (i transaction : ℕ) (source : DirectorySourceToken) : AgentSync υ ρ :=
  if s.connection = some source then
    match s.transactions.complete transaction with
    | some (transactions, snapshot, deltas) =>
      ({ s with transactions }.commitAgentSnapshot snapshot deltas).leave i
    | none => s.failed i transaction
  else s.failed i transaction

def beginFetch (read : AgentRead) (agentId : String) : AgentSync υ ρ :=
  { s with
    fetches := s.fetches ++ [⟨s.fetched, read, s.replica.captureTimeline agentId⟩]
    fetched := s.fetched + 1 }

/-- An agent that is there already is not looked for in the cache. -/
def loadCachedAgent (agentId : String) : AgentSync υ ρ :=
  if (s.replica.agents.get agentId).isSome then s
  else { s.beginFetch .cache agentId with replica := (s.replica.captureCache agentId).1 }

def timelineArrives (i : ℕ) (token : AgentLifecycleToken) :
    Option (AgentSnapshotPayload υ ρ) → AgentSync υ ρ
  | none => s.leaveFetch i
  | some agent => { s.leaveFetch i with replica := s.replica.submitTimelineAgent token agent }

def cachedAgentArrives (i : ℕ) (token : AgentLifecycleToken) : Option (Agent υ ρ) → AgentSync υ ρ
  | none => s.leaveFetch i
  | some agent =>
    if (s.replica.agents.get token.agentId).isSome then s.leaveFetch i
    else { s.leaveFetch i with replica := s.replica.commitCachedAgent token agent }

def step : AgentEvent υ ρ → Option (AgentSync υ ρ)
  | .connectionChanged connection => some (s.connectionChanged connection)
  | .agentUpdate delta => s.connection.map fun source => s.agentUpdate source delta
  | .agentDeleted agentId => s.connection.map fun _ => { s with replica := s.replica.remove agentId }
  | .agentArchived agentId archivedAt =>
    s.connection.map fun _ => { s with replica := s.replica.archive agentId archivedAt }
  | .refreshAgents => s.connection.map s.refreshAgents
  | .agentsPage i entries sync =>
    (s.refreshes[i]?).map fun refresh => s.agentsPage i refresh.1 refresh.2 entries sync
  | .agentsError i => (s.refreshes[i]?).map fun refresh => s.failed i refresh.1
  | .agentsComplete i => (s.refreshes[i]?).map fun refresh => s.agentsComplete i refresh.1 refresh.2
  | .fetchTimeline agentId => s.connection.map fun _ => s.beginFetch .timeline agentId
  | .loadCachedAgent agentId => some (s.loadCachedAgent agentId)
  | .timelineArrives i agent =>
    ((s.fetches[i]?).filter (·.answeredBy .timeline (agent.map (·.id)))).map fun fetch =>
      s.timelineArrives i fetch.token agent
  | .cachedAgentArrives i agent =>
    ((s.fetches[i]?).filter (·.answeredBy .cache (agent.map (·.id)))).map fun fetch =>
      s.cachedAgentArrives i fetch.token agent
  | .turnLiveness agentId transitions =>
    some { s with replica := s.replica.applyTurnLiveness agentId transitions }
  | .acceptAgent agent => some { s with replica := s.replica.accept agent }
  | .removeAgent agentId => some { s with replica := s.replica.remove agentId }

/-- Steps in turn, none where one of them is not possible. -/
def run : AgentSync υ ρ → List (AgentEvent υ ρ) → Option (AgentSync υ ρ)
  | s, [] => some s
  | s, event :: events => (s.step event).bind fun s' => run s' events

end AgentSync

end Orqara.Directory
