import Orqara.Library.OrderedMap
import Orqara.Library.PromiseChain

/-!
# Keyed agent requests

The journal of the requests that create an agent or send a message. A receipt is written before the
callback of a request runs and completed after it, so that a daemon that stops anywhere between two
file operations or callbacks knows on its next start what may have happened. Digests stand for what
they are made from.
-/

namespace Orqara.Requests

inductive RequestKey
  | create (key : String)
  | send (agentId : ℕ) (messageId : String)
  deriving DecidableEq

inductive ReceiptState
  | pending
  | completed
  deriving DecidableEq

structure Receipt where
  fingerprint : String
  agentId : ℕ
  state : ReceiptState
  deriving DecidableEq

/-- What is left of `executeOnce`. -/
inductive CallStage
  /-- the call waits for the one before it, if there is one -/
  | waiting (previous : Option ℕ)
  | reading
  | preparing
  /-- the pending receipt is not written yet -/
  | writing
  /-- the receipt is written, and the callback has not been called -/
  | starting
  | running
  /-- the callback has failed, and `retrySafe` is asked -/
  | failed
  | removing
  /-- the callback has succeeded, or the agent of the receipt was found -/
  | completing (agentId : ℕ)
  | recovering (agentId : ℕ)
  deriving DecidableEq

structure Call where
  id : ℕ
  key : RequestKey
  fingerprint : String
  /-- the agent that is created, or that the message is for -/
  agentId : ℕ
  prepares : Bool
  stage : CallStage
  deriving DecidableEq

inductive Outcome
  | returned (agentId : ℕ)
  | keyConflict
  | outcomeUnknown
  /-- a callback has thrown -/
  | threw
  deriving DecidableEq

/-- A callback that was started, and the receipt of its key at that time. -/
structure Start where
  callId : ℕ
  key : RequestKey
  fingerprint : String
  agentId : ℕ
  receipt : Option Receipt
  deriving DecidableEq

/-- A call that has come to its end. -/
structure Settled where
  callId : ℕ
  key : RequestKey
  fingerprint : String
  outcome : Outcome
  deriving DecidableEq

/-- The files and the agents, which a stop of the daemon leaves, and the calls of its process. -/
structure AgentRequests where
  receipts : OrderedMap RequestKey Receipt
  agents : List ℕ
  calls : List Call
  pending : RequestKey → Option ℕ
  nextId : ℕ
  starts : List Start
  settled : List Settled

namespace AgentRequests

def empty : AgentRequests where
  receipts := OrderedMap.empty
  agents := []
  calls := []
  pending := fun _ => none
  nextId := 0
  starts := []
  settled := []

variable (s : AgentRequests)

def execute (key : RequestKey) (fingerprint : String) (agentId : ℕ) (prepares : Bool) :
    AgentRequests :=
  { s with
    calls := s.calls ++
      [{ id := s.nextId
         key
         fingerprint
         agentId
         prepares
         stage := .waiting (s.pending key) }]
    pending := Function.update s.pending key (some s.nextId)
    nextId := s.nextId + 1 }

/-- The id of a new agent is new. -/
def create (key fingerprint : String) : AgentRequests :=
  s.execute (.create key) fingerprint s.nextId false

def send (agentId : ℕ) (messageId fingerprint : String) (prepares : Bool) : AgentRequests :=
  s.execute (.send agentId messageId) fingerprint agentId prepares

def setStage (call : Call) (stage : CallStage) : AgentRequests :=
  { s with
    calls := s.calls.map fun other => if other.id = call.id then { other with stage } else other }

def settle (call : Call) (outcome : Outcome) : AgentRequests :=
  { s with
    calls := s.calls.filter fun other => other.id ≠ call.id
    settled := s.settled ++
      [{ callId := call.id, key := call.key, fingerprint := call.fingerprint, outcome }] }

/-- `executeOnce` from the read of the receipt to its next wait. -/
def readReceipt (call : Call) : AgentRequests :=
  match s.receipts.get call.key with
  | none => s.setStage call (if call.prepares then .preparing else .writing)
  | some existing =>
    if existing.fingerprint ≠ call.fingerprint then s.settle call .keyConflict
    else
      match existing.state with
      | .completed => s.settle call (.returned existing.agentId)
      | .pending => s.setStage call (.recovering existing.agentId)

def writePending (call : Call) : AgentRequests :=
  { s.setStage call .starting with
    receipts := s.receipts.set call.key ⟨call.fingerprint, call.agentId, .pending⟩ }

def startCallback (call : Call) : AgentRequests :=
  { s.setStage call .running with
    starts := s.starts ++
      [{ callId := call.id
         key := call.key
         fingerprint := call.fingerprint
         agentId := call.agentId
         receipt := s.receipts.get call.key }] }

def takeEffect (call : Call) : AgentRequests :=
  match call.key with
  | .create _ => { s with agents := s.agents.insert call.agentId }
  | .send _ _ => s

/-- Only a creation is tried again, where there is no agent. -/
def askRetrySafe (call : Call) : AgentRequests :=
  match call.key with
  | .create _ => if call.agentId ∈ s.agents then s.settle call .threw else s.setStage call .removing
  | .send _ _ => s.settle call .threw

def removeReceipt (call : Call) : AgentRequests :=
  { s.settle call .threw with receipts := s.receipts.delete call.key }

/-- A message is never taken to be sent. -/
def recover (call : Call) (agentId : ℕ) : AgentRequests :=
  match call.key with
  | .create _ =>
    if agentId ∈ s.agents then s.setStage call (.completing agentId)
    else s.settle call .outcomeUnknown
  | .send _ _ => s.settle call .outcomeUnknown

def writeCompleted (call : Call) (agentId : ℕ) : AgentRequests :=
  { s.settle call (.returned agentId) with
    receipts := s.receipts.set call.key ⟨call.fingerprint, agentId, .completed⟩ }

/-- The process stops, and another one starts over the same files and agents. -/
def crash : AgentRequests := { s with calls := [], pending := fun _ => none }

end AgentRequests

/-! ## Events -/

inductive RequestEvent
  | create (key fingerprint : String)
  | send (agentId : ℕ) (messageId fingerprint : String) (prepares : Bool)
  /-- the call before this one is settled -/
  | begin (callId : ℕ)
  | read (callId : ℕ)
  | prepared (callId : ℕ) (succeeds : Bool)
  | written (callId : ℕ)
  | start (callId : ℕ)
  /-- the callback takes effect -/
  | effect (callId : ℕ)
  | callbackEnds (callId : ℕ) (succeeds : Bool)
  /-- `findAgent` answers, or throws -/
  | answered (callId : ℕ) (succeeds : Bool)
  | removed (callId : ℕ)
  | completed (callId : ℕ)
  /-- the clean-up after a call that is settled -/
  | forget (key : RequestKey)
  | crash

namespace AgentRequests

variable (s : AgentRequests)

/-- A step of a call in its stage. -/
def stepCall (call : Call) (event : RequestEvent) : Option AgentRequests :=
  match call.stage, event with
  | .waiting previous, .begin _ =>
    if s.calls.any fun other => previous = some other.id then none
    else some (s.setStage call .reading)
  | .reading, .read _ => some (s.readReceipt call)
  | .preparing, .prepared _ succeeds =>
    some (if succeeds then s.setStage call .writing else s.settle call .threw)
  | .writing, .written _ => some (s.writePending call)
  | .starting, .start _ => some (s.startCallback call)
  | .running, .effect _ => some (s.takeEffect call)
  | .running, .callbackEnds _ succeeds =>
    some (s.setStage call (if succeeds then .completing call.agentId else .failed))
  | .failed, .answered _ succeeds =>
    some (if succeeds then s.askRetrySafe call else s.settle call .threw)
  | .removing, .removed _ => some (s.removeReceipt call)
  | .recovering agentId, .answered _ succeeds =>
    some (if succeeds then s.recover call agentId else s.settle call .threw)
  | .completing agentId, .completed _ => some (s.writeCompleted call agentId)
  | _, _ => none

def findCall (callId : ℕ) : Option Call := s.calls.find? fun call => call.id = callId

def step (event : RequestEvent) : Option AgentRequests :=
  match event with
  | .create key fingerprint => some (s.create key fingerprint)
  | .send agentId messageId fingerprint prepares =>
    some (s.send agentId messageId fingerprint prepares)
  | .forget key =>
    match s.pending key with
    | none => none
    | some last =>
      if s.calls.any fun call => call.id = last then none
      else some { s with pending := Function.update s.pending key none }
  | .crash => some s.crash
  | .begin callId => (s.findCall callId).bind fun call => s.stepCall call event
  | .read callId => (s.findCall callId).bind fun call => s.stepCall call event
  | .prepared callId _ => (s.findCall callId).bind fun call => s.stepCall call event
  | .written callId => (s.findCall callId).bind fun call => s.stepCall call event
  | .start callId => (s.findCall callId).bind fun call => s.stepCall call event
  | .effect callId => (s.findCall callId).bind fun call => s.stepCall call event
  | .callbackEnds callId _ => (s.findCall callId).bind fun call => s.stepCall call event
  | .answered callId _ => (s.findCall callId).bind fun call => s.stepCall call event
  | .removed callId => (s.findCall callId).bind fun call => s.stepCall call event
  | .completed callId => (s.findCall callId).bind fun call => s.stepCall call event

def run (s : AgentRequests) : List RequestEvent → Option AgentRequests
  | [] => some s
  | event :: events => (s.step event).bind fun s' => run s' events

end AgentRequests

end Orqara.Requests
