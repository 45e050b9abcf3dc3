import Mathlib

/-!
# Loading an agent

One agent, the mutations queued for it and the calls that load it, as the manager and
`ensureAgentLoaded` keep them. A step is what runs between two awaits, and the steps of different
calls come in any order.
-/

namespace Orqara.Loading

/-! ## Mutations -/

/-- What is queued for an agent with `runLifecycleMutation`. -/
inductive MutationKind where
  | close
  | reload
  | archive
  /-- labels, metadata, detaching, and the archiving of a record without a session -/
  | other
  deriving DecidableEq, Repr

/-- How far a mutation has come. Only a reload goes on once the session is gone. -/
inductive Mutation where
  | queued (kind : MutationKind)
  | running (kind : MutationKind)
  /-- after `prepareAgentForClosure` -/
  | removed (kind : MutationKind)
  /-- the provider resumes or creates the session that takes over -/
  | launching
  /-- `registerSession` has found no live agent -/
  | registering
  | registered
  deriving DecidableEq, Repr

/-- These take the live agent away. Where there is none, a close has nothing to do and the others
throw. -/
def MutationKind.removes : MutationKind → Bool
  | close | reload | archive => true
  | other => false

/-! ## Initializations -/

inductive LoadError where
  | notFound
  | unavailableProvider
  /-- `registerSession` has found a live agent -/
  | alreadyExists
  /-- preparing or launching the session, or hydrating the timeline, has failed -/
  | failed
  | shuttingDown
  deriving DecidableEq, Repr

/-- What the initialization uses of the stored record. -/
structure StoredAgent where
  /-- `isStoredAgentProviderAvailable` -/
  providerAvailable : Bool
  /-- `toAgentPersistenceHandle` gives a handle -/
  hasHandle : Bool
  /-- `buildSessionConfig` gives a configuration -/
  hasConfig : Bool
  deriving DecidableEq, Repr

/-- `resumeAgentFromPersistence` and `createAgent`. -/
inductive Launch where
  | resume
  | create
  deriving DecidableEq, Repr

def StoredAgent.launch (record : StoredAgent) : Except LoadError Launch :=
  if record.providerAvailable = false then .error .unavailableProvider
  else if record.hasHandle then .ok .resume
  else if record.hasConfig then .ok .create
  else .error .unavailableProvider

/-- The agent that a call gives back, by the number of its registration. -/
abbrev Outcome := Except LoadError ℕ

instance : DecidableEq Outcome
  | .ok a, .ok b => decidable_of_iff (a = b) (by simp)
  | .error a, .error b => decidable_of_iff (a = b) (by simp)
  | .ok _, .error _ => isFalse nofun
  | .error _, .ok _ => isFalse nofun

inductive InitStage where
  | reading
  | launching (launch : Launch)
  | registering (launch : Launch)
  /-- the agent is live, and its first snapshots are written -/
  | attached (agent : ℕ)
  | hydrating (agent : ℕ)
  | settled (outcome : Outcome)
  deriving DecidableEq

/-- `PendingAgentInitialization` -/
structure Init where
  stage : InitStage
  broadcastTimeline : Bool
  deriving DecidableEq

/-! ## Callers -/

/-- The two calls of `waitForAgentClose`. Behind the first, the live lookup was empty; the number of
registrations at that time is kept beside it. -/
inductive Barrier where
  | first
  | second (registrations : ℕ)
  deriving DecidableEq, Repr

inductive CallerStage where
  /-- the last of the mutations before a number is waited for -/
  | tail (barrier : Barrier) (bound : ℕ)
  /-- the close that was in flight is waited for -/
  | close (barrier : Barrier) (ticket : Option ℕ)
  | joined (init : ℕ)
  | initiated (init : ℕ)
  /-- with the initialization whose promise was awaited -/
  | returned (init : Option ℕ) (outcome : Outcome)
  deriving DecidableEq

structure Caller where
  broadcastTimeline : Bool
  stage : CallerStage
  deriving DecidableEq

/-! ## The state -/

/-- Mutations are numbered in the order they are queued. As each waits for the one before, those that
are not settled form a queue, and only its first has begun. -/
structure State where
  /-- the entry of `agents`, by the number of its registration -/
  live : Option ℕ
  registrations : ℕ
  /-- how many mutations have settled -/
  settled : ℕ
  lane : List Mutation
  inFlightClose : Option ℕ
  /-- the entry of `pendingAgentInitializations` -/
  pending : Option ℕ
  inits : List Init
  callers : List Caller
  deriving DecidableEq

/-- An agent that is live or not, and nothing under way. -/
def State.idle (live : Bool) : State where
  live := if live then some 0 else none
  registrations := 1
  settled := 0
  lane := []
  inFlightClose := none
  pending := none
  inits := []
  callers := []

namespace State

/-- One more than the number of the last mutation. -/
def bound (s : State) : ℕ := s.settled + s.lane.length

/-! ## The lane -/

def runLifecycleMutation (s : State) (kind : MutationKind) : State :=
  { s with lane := s.lane ++ [.queued kind] }

/-- The close in flight is given back instead of another one. -/
def closeAgent (s : State) : State :=
  match s.inFlightClose with
  | some _ => s
  | none => { s.runLifecycleMutation .close with inFlightClose := some s.bound }

/-- The first mutation of the lane has come further. -/
def goOn (s : State) (mutation : Mutation) : State :=
  { s with lane := mutation :: s.lane.tail }

def settleMutation (s : State) : State :=
  { s with settled := s.settled + 1, lane := s.lane.tail }

def beginMutation (s : State) (kind : MutationKind) : State :=
  if kind.removes && s.live.isNone then s.settleMutation else s.goOn (.running kind)

/-- `prepareAgentForClosure` -/
def removeAgent (s : State) (kind : MutationKind) : State :=
  { s.goOn (.removed kind) with live := none }

/-- The session of a reload is there, and `registerSession` looks for a live agent. -/
def relaunched (s : State) : State :=
  if s.live.isSome then s.settleMutation else s.goOn .registering

def setLive (s : State) : State :=
  { s with live := some s.registrations, registrations := s.registrations + 1 }

/-! ## Initializing -/

def setInit (s : State) (i : ℕ) (init : Init) : State :=
  { s with inits := s.inits.set i init }

def setCaller (s : State) (i : ℕ) (caller : Caller) : State :=
  { s with callers := s.callers.set i caller }

def readRecord (s : State) (i : ℕ) (init : Init) (record : Option StoredAgent) : State :=
  match record with
  | none => s.setInit i { init with stage := .settled (.error .notFound) }
  | some record =>
    match record.launch with
    | .error error => s.setInit i { init with stage := .settled (.error error) }
    | .ok launch => s.setInit i { init with stage := .launching launch }

def launched (s : State) (i : ℕ) (init : Init) (launch : Launch) : State :=
  if s.live.isSome then s.setInit i { init with stage := .settled (.error .alreadyExists) }
  else s.setInit i { init with stage := .registering launch }

def registerInit (s : State) (i : ℕ) (init : Init) : State :=
  s.setLive.setInit i { init with stage := .attached s.registrations }

/-- `assertAgentRegistrationActive`, once all is written. -/
def attachedInit (s : State) (i : ℕ) (init : Init) (agent : ℕ) : State :=
  if s.live = some agent then s.setInit i { init with stage := .hydrating agent }
  else s.setInit i { init with stage := .settled (.error .shuttingDown) }

/-- The agent that is live by now, or else the one that was loaded. -/
def hydrated (s : State) (i : ℕ) (init : Init) (agent : ℕ) : State :=
  s.setInit i { init with stage := .settled (.ok (s.live.getD agent)) }

/-! ## Callers -/

/-- A call of `waitForAgentClose` looks up the last mutation. -/
def waitForAgentClose (s : State) (i : ℕ) (caller : Caller) (barrier : Barrier) : State :=
  s.setCaller i { caller with stage := .tail barrier s.bound }

def ensureAgentLoaded (s : State) (broadcastTimeline : Bool) : State :=
  { s with callers := s.callers ++ [⟨broadcastTimeline, .tail .first s.bound⟩] }

/-- The promise of the initialization `init` is awaited. -/
def join (s : State) (i : ℕ) (caller : Caller) (init : ℕ) : State :=
  { s.setCaller i { caller with stage := .joined init } with
    inits := s.inits.modify init fun pending =>
      { pending with broadcastTimeline := pending.broadcastTimeline || caller.broadcastTimeline } }

def initiate (s : State) (i : ℕ) (caller : Caller) : State :=
  { s.setCaller i { caller with stage := .initiated s.inits.length } with
    inits := s.inits ++ [⟨.reading, caller.broadcastTimeline⟩]
    pending := some s.inits.length }

/-- What a caller does behind a barrier. Behind the second, the live lookup is not made again. -/
def look (s : State) (i : ℕ) (caller : Caller) (barrier : Barrier) : State :=
  match s.pending with
  | some init => s.join i caller init
  | none =>
    match barrier with
    | .first =>
      match s.live with
      | some agent => s.setCaller i { caller with stage := .returned none (.ok agent) }
      | none => s.waitForAgentClose i caller (.second s.registrations)
    | .second _ => s.initiate i caller

/-- The `finally` of the caller that has begun the initialization. -/
def clearPending (s : State) (init : ℕ) : State :=
  if s.pending = some init then { s with pending := none } else s

end State

/-! ## Steps -/

inductive Event where
  | closeAgent
  | runLifecycleMutation (kind : MutationKind)
  | beginMutation
  | removeAgent
  | relaunch
  | relaunched
  | registerReload
  /-- the first mutation is over, or has failed -/
  | settleMutation
  | clearClose
  | ensureAgentLoaded (broadcastTimeline : Bool)
  /-- the mutations that a caller waits for are settled -/
  | tailSettled (caller : ℕ)
  /-- the close that a caller waits for is settled -/
  | closeSettled (caller : ℕ)
  | readRecord (init : ℕ) (record : Option StoredAgent)
  | launched (init : ℕ)
  | registerInit (init : ℕ)
  | attached (init : ℕ)
  | hydrated (init : ℕ)
  | initFailed (init : ℕ)
  /-- the initialization that a caller waits for is settled -/
  | initSettled (caller : ℕ)
  deriving DecidableEq

namespace State

def stepLane (s : State) : Event → Option State
  | .beginMutation =>
    match s.lane.head? with
    | some (.queued kind) => some (s.beginMutation kind)
    | _ => none
  | .removeAgent =>
    match s.lane.head? with
    | some (.running kind) => if kind.removes then some (s.removeAgent kind) else none
    | _ => none
  | .relaunch =>
    match s.lane.head? with
    | some (.removed .reload) => some (s.goOn .launching)
    | _ => none
  | .relaunched =>
    match s.lane.head? with
    | some .launching => some s.relaunched
    | _ => none
  | .registerReload =>
    match s.lane.head? with
    | some .registering => some (s.setLive.goOn .registered)
    | _ => none
  | .settleMutation =>
    match s.lane.head? with
    | some (.queued _) => none
    | some _ => some s.settleMutation
    | none => none
  | _ => none

def stepInit (s : State) (i : ℕ) (event : Event) : Option State :=
  s.inits[i]?.bind fun init =>
    match event, init.stage with
    | .readRecord _ record, .reading => some (s.readRecord i init record)
    | .launched _, .launching launch => some (s.launched i init launch)
    | .registerInit _, .registering _ => some (s.registerInit i init)
    | .attached _, .attached agent => some (s.attachedInit i init agent)
    | .hydrated _, .hydrating agent => some (s.hydrated i init agent)
    | .initFailed _, .settled _ => none
    | .initFailed _, _ => some (s.setInit i { init with stage := .settled (.error .failed) })
    | _, _ => none

def stepCaller (s : State) (i : ℕ) (event : Event) : Option State :=
  s.callers[i]?.bind fun caller =>
    match event, caller.stage with
    | .tailSettled _, .tail barrier bound =>
      if bound ≤ s.settled then
        some (s.setCaller i { caller with stage := .close barrier s.inFlightClose })
      else none
    | .closeSettled _, .close barrier ticket =>
      if ∀ close ∈ ticket, close < s.settled then some (s.look i caller barrier) else none
    | .initSettled _, .joined init =>
      match (s.inits[init]?).map Init.stage with
      | some (.settled outcome) =>
        some (s.setCaller i { caller with stage := .returned (some init) outcome })
      | _ => none
    | .initSettled _, .initiated init =>
      match (s.inits[init]?).map Init.stage with
      | some (.settled outcome) =>
        some ((s.setCaller i { caller with stage := .returned (some init) outcome }).clearPending init)
      | _ => none
    | _, _ => none

/-- A step that is not possible in the state is no step. -/
def step (s : State) : Event → Option State
  | .closeAgent => some s.closeAgent
  | .runLifecycleMutation kind => if kind = .close then none else some (s.runLifecycleMutation kind)
  | .clearClose =>
    if ∀ close ∈ s.inFlightClose, close < s.settled then some { s with inFlightClose := none } else none
  | .ensureAgentLoaded broadcastTimeline => some (s.ensureAgentLoaded broadcastTimeline)
  | .tailSettled i => s.stepCaller i (.tailSettled i)
  | .closeSettled i => s.stepCaller i (.closeSettled i)
  | .initSettled i => s.stepCaller i (.initSettled i)
  | .readRecord i record => s.stepInit i (.readRecord i record)
  | .launched i => s.stepInit i (.launched i)
  | .registerInit i => s.stepInit i (.registerInit i)
  | .attached i => s.stepInit i (.attached i)
  | .hydrated i => s.stepInit i (.hydrated i)
  | .initFailed i => s.stepInit i (.initFailed i)
  | event => s.stepLane event

def run (s : State) : List Event → Option State
  | [] => some s
  | event :: events => (s.step event).bind fun s' => s'.run events

end State

end Orqara.Loading
