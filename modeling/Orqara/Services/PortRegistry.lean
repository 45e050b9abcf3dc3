import Orqara.Library.OrderedMap

/-!
# The registry of service ports

`ensureWorkspaceServicePortPlan`, `refreshWorkspaceServicePort` and
`releaseWorkspaceServicePortPlan` with the maps they share. A call runs on until it
awaits; what `allocatePort` answers, and when, is up to the environment.
-/

namespace Orqara.Services

structure WorkspaceServicePortDeclaration where
  scriptName : String
  port : Option ℤ
  deriving DecidableEq

/-- The ports of a plan by the names of the services. -/
abbrev Plan := OrderedMap String ℤ

def MAX_DYNAMIC_PORT_ALLOCATION_ATTEMPTS : ℕ := 10

def toServiceOwner (workspaceId scriptName : String) : String :=
  workspaceId ++ "\x00" ++ scriptName

/-! ## Calls in progress -/

/-- What a call waits for: an answer of `allocatePort`, or its own continuation after
`resolveServicePort` has returned or thrown, or after the last service of a plan. -/
inductive Stage
  | allocating (reservedPorts : List ℤ) (attempt : ℕ)
  | resolved (port : ℤ)
  | built
  | failing (message : String)
  deriving DecidableEq

/-- A plan being created, with the ports that are explicit in it and the services after
the one at work; or a refresh, with the plan object it will write to. Whether its
workspace has been released since it began, a refresh does not know. -/
inductive JobKind
  | build (plan : Plan) (explicitPorts : List ℤ) (rest : List WorkspaceServicePortDeclaration)
  | refresh (plan : ℕ) (oldDynamicPort : Option ℤ) (outdated : Bool)
  deriving DecidableEq

/-- A call that has not settled, with the service it is at. -/
structure Job where
  id : ℕ
  workspaceId : String
  scriptName : String
  stage : Stage
  kind : JobKind
  deriving DecidableEq

/-- The call once its workspace is released. -/
def Job.outdate (job : Job) : Job :=
  match job.kind with
  | .refresh plan oldDynamicPort _ => { job with kind := .refresh plan oldDynamicPort true }
  | .build .. => job

/-- The plan that `ensureWorkspaceServicePortPlan` returns, or the refreshed port. -/
inductive Outcome
  | plan (plan : Plan)
  | port (port : ℤ)
  deriving DecidableEq

/-- The maps of the module. A stored plan is an object that refreshes write to, so
`plans` gives its place in the heap; `tokens` holds `isReleased` of the pending plans. -/
structure PortRegistry where
  plans : String → Option ℕ
  heap : ℕ → Plan
  nextPlan : ℕ
  tokens : String → Option Bool
  owners : ℤ → Option String
  dynamicPorts : String → Option Plan
  jobs : List Job
  nextId : ℕ
  settled : List (ℕ × Except String Outcome)

def duplicatePort (scriptName : String) (port : ℤ) : String :=
  "Service '" ++ scriptName ++ "' has a duplicate port " ++ toString port

def couldNotAllocate (scriptName : String) : String :=
  "Could not allocate a unique port for service '" ++ scriptName ++ "' after " ++
    toString MAX_DYNAMIC_PORT_ALLOCATION_ATTEMPTS ++ " attempts"

def releasedMeanwhile (workspaceId : String) : String :=
  "Workspace service port plan was released while being created for '" ++ workspaceId ++ "'"

/-- The first loop of `buildWorkspaceServicePortPlan`. -/
def explicitPortOwners : List ℤ → List WorkspaceServicePortDeclaration → Except String (List ℤ)
  | owners, [] => .ok owners
  | owners, service :: rest =>
    match service.port with
    | none => explicitPortOwners owners rest
    | some port =>
      if port ∈ owners then .error (duplicatePort service.scriptName port)
      else explicitPortOwners (owners ++ [port]) rest

/-- The second loop up to its next `await`: the plan so far, and the service to find a
port for with the ones after it. -/
def nextService : Plan → List WorkspaceServicePortDeclaration →
    Plan × Option (String × List WorkspaceServicePortDeclaration)
  | plan, [] => (plan, none)
  | plan, service :: rest =>
    match service.port with
    | some port => nextService (plan.set service.scriptName port) rest
    | none => (plan, some (service.scriptName, rest))

def planPorts (plan : Plan) : List ℤ := plan.entries.map Prod.snd

/-- The build of a plan, from here to its next `await`. -/
def buildJob (id : ℕ) (workspaceId : String) (plan : Plan) (explicitPorts : List ℤ)
    (services : List WorkspaceServicePortDeclaration) : Job :=
  match nextService plan services with
  | (plan, none) => ⟨id, workspaceId, "", .built, .build plan explicitPorts []⟩
  | (plan, some (scriptName, rest)) =>
    ⟨id, workspaceId, scriptName, .allocating (explicitPorts ++ planPorts plan) 0,
      .build plan explicitPorts rest⟩

namespace PortRegistry

def empty : PortRegistry where
  plans _ := none
  heap _ := ∅
  nextPlan := 0
  tokens _ := none
  owners _ := none
  dynamicPorts _ := none
  jobs := []
  nextId := 0
  settled := []

/-! ## The maps -/

def dynamicPort (s : PortRegistry) (workspaceId scriptName : String) : Option ℤ :=
  (s.dynamicPorts workspaceId).bind (·.get scriptName)

def reserveDynamicPort (s : PortRegistry) (workspaceId scriptName : String) (port : ℤ) :
    PortRegistry :=
  let workspacePorts := (s.dynamicPorts workspaceId).getD ∅
  { s with
    owners := Function.update s.owners port (some (toServiceOwner workspaceId scriptName))
    dynamicPorts :=
      Function.update s.dynamicPorts workspaceId (some (workspacePorts.set scriptName port)) }

/-- A map of ports without a service; an empty map is dropped. -/
def withoutService (workspacePorts : Plan) (scriptName : String) : Option Plan :=
  let rest := workspacePorts.delete scriptName
  if rest.size = 0 then none else some rest

def releaseDynamicPort (s : PortRegistry) (workspaceId scriptName : String) (port : ℤ) :
    PortRegistry :=
  let owners :=
    if s.owners port = some (toServiceOwner workspaceId scriptName) then
      Function.update s.owners port none
    else s.owners
  match s.dynamicPorts workspaceId with
  | none => { s with owners := owners }
  | some workspacePorts =>
    if workspacePorts.get scriptName = some port then
      { s with
        owners := owners
        dynamicPorts := Function.update s.dynamicPorts workspaceId
          (withoutService workspacePorts scriptName) }
    else { s with owners := owners }

def releaseWorkspaceServicePortPlan (s : PortRegistry) (workspaceId : String) : PortRegistry :=
  let s :=
    { s with
      tokens := Function.update s.tokens workspaceId ((s.tokens workspaceId).map fun _ => true)
      plans := Function.update s.plans workspaceId none }
  match s.dynamicPorts workspaceId with
  | none => s
  | some dynamicPorts =>
    let s := dynamicPorts.entries.foldl
      (fun s entry => s.releaseDynamicPort workspaceId entry.1 entry.2) s
    { s with dynamicPorts := Function.update s.dynamicPorts workspaceId none }

/-! ## The calls -/

def setJob (s : PortRegistry) (job : Job) : PortRegistry :=
  { s with jobs := s.jobs.map fun other => if other.id = job.id then job else other }

def addJob (s : PortRegistry) (job : Job) : PortRegistry :=
  { s with jobs := s.jobs ++ [job], nextId := s.nextId + 1 }

def settle (s : PortRegistry) (id : ℕ) (result : Except String Outcome) : PortRegistry :=
  { s with
    jobs := s.jobs.filter fun job => job.id ≠ id
    settled := s.settled ++ [(id, result)] }

/-- `ensureWorkspaceServicePortPlan`. A call that finds a pending plan has no effect of
its own. -/
def ensure (s : PortRegistry) (workspaceId : String)
    (services : List WorkspaceServicePortDeclaration) : PortRegistry :=
  match s.plans workspaceId with
  | some plan =>
    { s with nextId := s.nextId + 1, settled := s.settled ++ [(s.nextId, .ok (.plan (s.heap plan)))] }
  | none =>
    match s.tokens workspaceId with
    | some _ => s
    | none =>
      let s' := { s with tokens := Function.update s.tokens workspaceId (some false) }
      match explicitPortOwners [] services with
      | .error message => s'.addJob ⟨s.nextId, workspaceId, "", .failing message, .build ∅ [] []⟩
      | .ok explicitPorts => s'.addJob (buildJob s.nextId workspaceId ∅ explicitPorts services)

/-- `refreshWorkspaceServicePort`. Without a stored plan it starts a new one, which it
stores when it has its port. -/
def refresh (s : PortRegistry) (workspaceId : String)
    (service : WorkspaceServicePortDeclaration) : PortRegistry :=
  let (s', plan) :=
    match s.plans workspaceId with
    | some plan => (s, plan)
    | none =>
      ({ s with heap := Function.update s.heap s.nextPlan ∅, nextPlan := s.nextPlan + 1 },
        s.nextPlan)
  let reservedPorts :=
    match (s'.heap plan).get service.scriptName with
    | none => planPorts (s'.heap plan)
    | some previousPort => (planPorts (s'.heap plan)).filter (· ≠ previousPort)
  let kind := JobKind.refresh plan (s.dynamicPort workspaceId service.scriptName) false
  let stage :=
    match service.port with
    | none => Stage.allocating reservedPorts 0
    | some port =>
      if port ∈ reservedPorts then .failing (duplicatePort service.scriptName port)
      else .resolved port
  s'.addJob ⟨s.nextId, workspaceId, service.scriptName, stage, kind⟩

/-- `resolveServicePort` takes a port that is neither reserved nor another service's. -/
def Accepts (s : PortRegistry) (job : Job) (reservedPorts : List ℤ) (port : ℤ) : Prop :=
  port ∉ reservedPorts ∧
    ∀ owner, s.owners port = some owner → owner = toServiceOwner job.workspaceId job.scriptName

instance (s : PortRegistry) (job : Job) (reservedPorts : List ℤ) (port : ℤ) :
    Decidable (s.Accepts job reservedPorts port) :=
  inferInstanceAs (Decidable (_ ∧ ∀ owner, s.owners port = some owner → _))

/-- `allocatePort` answers with a port. -/
def allocated (s : PortRegistry) (job : Job) (port : ℤ) : PortRegistry :=
  match job.stage with
  | .allocating reservedPorts attempt =>
    if s.Accepts job reservedPorts port then
      (s.reserveDynamicPort job.workspaceId job.scriptName port).setJob
        { job with stage := .resolved port }
    else if attempt + 1 < MAX_DYNAMIC_PORT_ALLOCATION_ATTEMPTS then
      s.setJob { job with stage := .allocating reservedPorts (attempt + 1) }
    else s.setJob { job with stage := .failing (couldNotAllocate job.scriptName) }
  | _ => s

def allocationFails (s : PortRegistry) (job : Job) (message : String) : PortRegistry :=
  match job.stage with
  | .allocating _ _ => s.setJob { job with stage := .failing message }
  | _ => s

/-- The `catch` and `finally` of `createPendingWorkspaceServicePortPlan`. -/
def failPending (s : PortRegistry) (job : Job) (message : String) : PortRegistry :=
  let s := s.releaseWorkspaceServicePortPlan job.workspaceId
  { s with tokens := Function.update s.tokens job.workspaceId none }.settle job.id (.error message)

/-- The plan is built: it is stored unless the workspace was released meanwhile. -/
def storePending (s : PortRegistry) (job : Job) (plan : Plan) : PortRegistry :=
  if s.tokens job.workspaceId = some true then
    s.failPending job (releasedMeanwhile job.workspaceId)
  else
    { s with
      heap := Function.update s.heap s.nextPlan plan
      nextPlan := s.nextPlan + 1
      plans := Function.update s.plans job.workspaceId (some s.nextPlan)
      tokens := Function.update s.tokens job.workspaceId none }.settle job.id (.ok (.plan plan))

/-- The end of `refreshWorkspaceServicePort`. -/
def storeRefreshed (s : PortRegistry) (job : Job) (plan : ℕ) (oldDynamicPort : Option ℤ)
    (port : ℤ) : PortRegistry :=
  let s' :=
    match oldDynamicPort with
    | none => s
    | some old =>
      if old ≠ port then s.releaseDynamicPort job.workspaceId job.scriptName old else s
  { s' with
    heap := Function.update s'.heap plan ((s'.heap plan).set job.scriptName port)
    plans := Function.update s'.plans job.workspaceId (some plan) }.settle job.id (.ok (.port port))

/-- A call goes on after its `await`. -/
def proceed (s : PortRegistry) (job : Job) : PortRegistry :=
  match job.stage, job.kind with
  | .allocating _ _, _ => s
  | .resolved port, .build plan explicitPorts rest =>
    s.setJob (buildJob job.id job.workspaceId (plan.set job.scriptName port) explicitPorts rest)
  | .resolved port, .refresh plan oldDynamicPort _ =>
    s.storeRefreshed job plan oldDynamicPort port
  | .built, .build plan _ _ => s.storePending job plan
  | .built, .refresh .. => s
  | .failing message, .build .. => s.failPending job message
  | .failing message, .refresh .. => s.settle job.id (.error message)

/-- `releaseWorkspaceServicePortPlan` as called from outside. -/
def release (s : PortRegistry) (workspaceId : String) : PortRegistry :=
  let s := s.releaseWorkspaceServicePortPlan workspaceId
  { s with
    jobs := s.jobs.map fun job => if job.workspaceId = workspaceId then job.outdate else job }

end PortRegistry

/-! ## Runs -/

inductive Action
  | ensure (workspaceId : String) (services : List WorkspaceServicePortDeclaration)
  | refresh (workspaceId : String) (service : WorkspaceServicePortDeclaration)
  | release (workspaceId : String)
  | allocated (id : ℕ) (port : ℤ)
  | allocationFails (id : ℕ) (message : String)
  | proceed (id : ℕ)
  deriving DecidableEq

namespace PortRegistry

/-- What happens to the call with this id, if it has not settled. -/
def onJob (s : PortRegistry) (id : ℕ) (f : Job → PortRegistry) : PortRegistry :=
  match s.jobs.find? fun job => job.id = id with
  | none => s
  | some job => f job

def step (s : PortRegistry) : Action → PortRegistry
  | .ensure workspaceId services => s.ensure workspaceId services
  | .refresh workspaceId service => s.refresh workspaceId service
  | .release workspaceId => s.release workspaceId
  | .allocated id port => s.onJob id (s.allocated · port)
  | .allocationFails id message => s.onJob id (s.allocationFails · message)
  | .proceed id => s.onJob id s.proceed

def run (actions : List Action) : PortRegistry := actions.foldl step empty

end PortRegistry

end Orqara.Services
