import Orqara.Directory.DirectoryTransaction

/-!
# Directory replicas kept up to date

The agent replica and the workspace replica of a host: each has its transactions and the
refreshes that are on their way. A refresh that loads the directory cache first awaits it; the one
of agents begins a transaction before, so that deltas are buffered meanwhile. Steps are the
pieces of code between two awaits.
-/

namespace Orqara.Directory

structure DirectoryConnection where
  client : Option ℕ
  online : Bool
  source : DirectorySourceToken
  deriving DecidableEq

namespace DirectoryConnection

def getOnlineConnection (connection : DirectoryConnection) :
    Option (ℕ × DirectorySourceToken) :=
  if connection.online then connection.client.map fun client => (client, connection.source)
  else none

def isCurrent (connection : DirectoryConnection) (client : ℕ) (source : DirectorySourceToken) :
    Bool :=
  connection.client = some client && connection.online && connection.source = source

end DirectoryConnection

/-- A write to a replica; `message` is one that does not come as a delta. -/
inductive ReplicaWrite (π δ μ : Type*)
  | snapshot (pages : List π)
  | delta (delta : δ)
  | message (message : μ)

/-- A refresh on its way, with the number of the transaction that it has begun last. -/
inductive Refresh
  | loadingCache (primed : Option ℕ)
  | fetching (client : ℕ) (source : DirectorySourceToken) (transaction : ℕ)
  deriving DecidableEq

def Refresh.transaction : Refresh → Option ℕ
  | .loadingCache primed => primed
  | .fetching _ _ transaction => some transaction

inductive CacheLoad
  | notStarted
  | pending
  | loaded
  | failed
  deriving DecidableEq

/-! ## One replica -/

/-- A replica as the writes made to it, with the transactions and refreshes over it. -/
structure ReplicaSync (π δ μ : Type*) where
  transactions : DirectoryTransactionOwner (List π) δ
  replica : List (ReplicaWrite π δ μ)
  refreshes : List Refresh

namespace ReplicaSync

variable {π δ μ : Type*}

def idle : ReplicaSync π δ μ := ⟨.idle, [], []⟩

def applyDeltas (s : ReplicaSync π δ μ) (deltas : List δ) : ReplicaSync π δ μ :=
  { s with replica := s.replica ++ deltas.map .delta }

def commitSnapshot (s : ReplicaSync π δ μ) (pages : List π) (deltas : List δ) :
    ReplicaSync π δ μ :=
  { s with replica := s.replica ++ .snapshot pages :: deltas.map .delta }

/-- A live delta is recorded, or else applied at once. -/
def liveDelta (s : ReplicaSync π δ μ) (source : DirectorySourceToken) (delta : δ) :
    ReplicaSync π δ μ :=
  match s.transactions.record source delta with
  | some transactions => { s with transactions }
  | none => s.applyDeltas [delta]

def liveMessage (s : ReplicaSync π δ μ) (message : μ) : ReplicaSync π δ μ :=
  { s with replica := s.replica ++ [.message message] }

def flushAborted (s : ReplicaSync π δ μ) : ReplicaSync π δ μ :=
  { s with transactions := s.transactions.abort.1 }.applyDeltas s.transactions.abort.2

/-- A refresh that does not load the cache begins at once when there is a connection. -/
def startFetching (s : ReplicaSync π δ μ) (connection : DirectoryConnection) :
    ReplicaSync π δ μ :=
  match connection.getOnlineConnection with
  | none => s
  | some (client, source) =>
    { s with
      transactions := s.transactions.begin source []
      refreshes := s.refreshes ++ [.fetching client source s.transactions.begun] }

/-- A refresh that awaits the cache. -/
def startLoading (s : ReplicaSync π δ μ) : ReplicaSync π δ μ :=
  { s with refreshes := s.refreshes ++ [.loadingCache none] }

/-- A refresh that awaits the cache with a transaction begun for the deltas meanwhile. -/
def primeForCacheLoad (s : ReplicaSync π δ μ) (connection : DirectoryConnection) :
    ReplicaSync π δ μ :=
  match connection.getOnlineConnection with
  | none => s.startLoading
  | some (_, source) =>
    { s with
      transactions := s.transactions.begin source []
      refreshes := s.refreshes ++ [.loadingCache (some s.transactions.begun)] }

/-- The refresh leaves: by returning, or by an exception that nothing catches. -/
def leave (s : ReplicaSync π δ μ) (i : ℕ) : ReplicaSync π δ μ :=
  { s with refreshes := s.refreshes.eraseIdx i }

/-- The cache load that a refresh awaits is over. -/
def resume (s : ReplicaSync π δ μ) (connection : DirectoryConnection) (cacheLoad : CacheLoad)
    (i : ℕ) : Option (ReplicaSync π δ μ) :=
  match s.refreshes[i]?, cacheLoad with
  | some (.loadingCache _), .loaded =>
    match connection.getOnlineConnection with
    | none => some (s.leave i)
    | some (client, source) =>
      some
        { s with
          transactions := s.transactions.begin source []
          refreshes := s.refreshes.set i (.fetching client source s.transactions.begun) }
  | some (.loadingCache _), .failed => some (s.leave i)
  | _, _ => none

/-- The handler of the errors of a refresh that has begun its transaction. -/
def failed (s : ReplicaSync π δ μ) (i : ℕ) (transaction : ℕ) : ReplicaSync π δ μ :=
  match s.transactions.fail transaction with
  | some (transactions, deltas) => { s with transactions }.applyDeltas deltas |>.leave i
  | none => s.leave i

/-- A page arrives. -/
def page (s : ReplicaSync π δ μ) (connection : DirectoryConnection) (i : ℕ) (page : π) :
    Option (ReplicaSync π δ μ) :=
  match s.refreshes[i]? with
  | some (.fetching client source transaction) =>
    if s.transactions.isCurrent transaction && connection.isCurrent client source then
      some { s with transactions := s.transactions.write fun pages => pages ++ [page] }
    else some (s.failed i transaction)
  | _ => none

/-- A request of a refresh is rejected, a wait is given up, or the host turns out to have no
workspace directory. -/
def error (s : ReplicaSync π δ μ) (i : ℕ) : Option (ReplicaSync π δ μ) :=
  match s.refreshes[i]? with
  | some (.fetching _ _ transaction) => some (s.failed i transaction)
  | _ => none

/-- A refresh has its last page; the session may have gone over to another client. -/
def complete (s : ReplicaSync π δ μ) (connection : DirectoryConnection) (i : ℕ)
    (hasMatchingSession : Bool) : Option (ReplicaSync π δ μ) :=
  match s.refreshes[i]? with
  | some (.fetching client source transaction) =>
    if connection.isCurrent client source && hasMatchingSession then
      match s.transactions.complete transaction with
      | some (transactions, pages, deltas) =>
        some ({ s with transactions }.commitSnapshot pages deltas |>.leave i)
      | none => some (s.failed i transaction)
    else some (s.failed i transaction)
  | _ => none

/-- The deltas applied to a replica, in order. -/
def deltas (s : ReplicaSync π δ μ) : List δ :=
  s.replica.filterMap fun write =>
    match write with
    | .delta delta => some delta
    | _ => none

end ReplicaSync

/-! ## The directory of a host -/

/-- Messages about agents that are applied at once. -/
inductive AgentMessage
  | deleted (agentId : String)
  | archived (agentId : String) (archivedAt : String)
  deriving DecidableEq

/-- Pages and deltas are those of agents (`π`, `δ`) and of workspaces and projects (`ρ`, `ε`). -/
structure DirectorySync (π δ ρ ε : Type*) where
  connection : DirectoryConnection
  /-- the client and the source that live messages are listened to on -/
  subscription : Option (ℕ × DirectorySourceToken)
  cacheLoad : CacheLoad
  agents : ReplicaSync π δ AgentMessage
  workspaces : ReplicaSync ρ ε Empty

inductive Event (π δ ρ ε : Type*)
  | connectionChanged (connection : DirectoryConnection)
  | dispose
  | agentUpdate (delta : δ)
  /-- a workspace, project or script status update -/
  | workspaceUpdate (delta : ε)
  | agentMessage (message : AgentMessage)
  | loadCachedDirectory
  | cacheLoadSettles (succeeds : Bool)
  | refreshAgents (loadDirectoryCache : Bool)
  | refreshWorkspaces (loadDirectoryCache : Bool)
  | agentsResume (i : ℕ)
  | workspacesResume (i : ℕ)
  | agentsPage (i : ℕ) (page : π)
  | workspacesPage (i : ℕ) (page : ρ)
  | agentsError (i : ℕ)
  | workspacesError (i : ℕ)
  | agentsComplete (i : ℕ) (hasMatchingSession : Bool)
  | workspacesComplete (i : ℕ) (hasMatchingSession : Bool)

namespace DirectorySync

variable {π δ ρ ε : Type*}

/-- Offline at first; without a storage of checkpoints there is no cache to load. -/
def start (checkpoints : Bool) : DirectorySync π δ ρ ε where
  connection := ⟨none, false, ⟨0, 0⟩⟩
  subscription := none
  cacheLoad := if checkpoints then .notStarted else .loaded
  agents := .idle
  workspaces := .idle

def flushAbortedTransactions (s : DirectorySync π δ ρ ε) : DirectorySync π δ ρ ε :=
  { s with agents := s.agents.flushAborted, workspaces := s.workspaces.flushAborted }

def connectionChanged (s : DirectorySync π δ ρ ε) (connection : DirectoryConnection) :
    DirectorySync π δ ρ ε :=
  let changed := s.connection.client ≠ connection.client ∨ s.connection.source ≠ connection.source
  let wentOffline := s.connection.online ∧ ¬ connection.online
  if ¬ changed ∧ ¬ wentOffline then { s with connection }
  else { s.flushAbortedTransactions with
    connection
    subscription := connection.getOnlineConnection }

def loadCachedDirectory (s : DirectorySync π δ ρ ε) : DirectorySync π δ ρ ε :=
  if s.cacheLoad = .notStarted then { s with cacheLoad := .pending } else s

def step (s : DirectorySync π δ ρ ε) : Event π δ ρ ε → Option (DirectorySync π δ ρ ε)
  | .connectionChanged connection => some (s.connectionChanged connection)
  | .dispose => some { s.flushAbortedTransactions with subscription := none }
  | .agentUpdate delta => s.subscription.map fun (client, source) =>
      if s.connection.isCurrent client source then
        { s with agents := s.agents.liveDelta source delta }
      else s
  | .workspaceUpdate delta => s.subscription.map fun (client, source) =>
      if s.connection.isCurrent client source then
        { s with workspaces := s.workspaces.liveDelta source delta }
      else s
  | .agentMessage message => s.subscription.map fun (client, source) =>
      if s.connection.isCurrent client source then
        { s with agents := s.agents.liveMessage message }
      else s
  | .loadCachedDirectory => some s.loadCachedDirectory
  | .cacheLoadSettles succeeds =>
    if s.cacheLoad = .pending then
      some { s with cacheLoad := if succeeds then .loaded else .failed }
    else none
  | .refreshAgents loadDirectoryCache =>
    if loadDirectoryCache then
      some { s.loadCachedDirectory with agents := s.agents.primeForCacheLoad s.connection }
    else some { s with agents := s.agents.startFetching s.connection }
  | .refreshWorkspaces loadDirectoryCache =>
    if loadDirectoryCache then
      some { s.loadCachedDirectory with workspaces := s.workspaces.startLoading }
    else some { s with workspaces := s.workspaces.startFetching s.connection }
  | .agentsResume i =>
    (s.agents.resume s.connection s.cacheLoad i).map fun agents => { s with agents }
  | .workspacesResume i =>
    (s.workspaces.resume s.connection s.cacheLoad i).map fun workspaces => { s with workspaces }
  | .agentsPage i page =>
    (s.agents.page s.connection i page).map fun agents => { s with agents }
  | .workspacesPage i page =>
    (s.workspaces.page s.connection i page).map fun workspaces => { s with workspaces }
  | .agentsError i => (s.agents.error i).map fun agents => { s with agents }
  | .workspacesError i => (s.workspaces.error i).map fun workspaces => { s with workspaces }
  | .agentsComplete i hasMatchingSession =>
    (s.agents.complete s.connection i hasMatchingSession).map fun agents => { s with agents }
  | .workspacesComplete i hasMatchingSession =>
    (s.workspaces.complete s.connection i hasMatchingSession).map
      fun workspaces => { s with workspaces }

def run (s : DirectorySync π δ ρ ε) : List (Event π δ ρ ε) → Option (DirectorySync π δ ρ ε)
  | [] => some s
  | event :: events => (s.step event).bind fun s' => s'.run events

end DirectorySync

end Orqara.Directory
