import Orqara.Library.OrderedMap
import Orqara.Timeline.Item

/-!
# The stream coalescer

The daemon gathers the chunks and tool call updates of an agent in a buffer, and flushes
it on the leading edge of a burst, on a terminal tool call, or when a timer fires. While
a flush is running, control is inside `onFlush`, which may call `handle` again for the
same agent.
-/

namespace Orqara.Agent

open Orqara.Timeline

/-! ## Entries -/

/-- What text chunks are told apart by. -/
inductive TextStream
  | assistantMessage (messageId : Option String)
  | reasoning
  deriving DecidableEq

inductive PendingAgentStreamEntry
  | text (stream : TextStream) (text provider : String) (turnId : Option String)
  | toolCall (item : ToolCallTimelineItem) (provider : String) (turnId : Option String)
  deriving DecidableEq

inductive AgentStreamEvent
  | timeline (item : AgentTimelineItem) (provider : String) (turnId : Option String)
  | other

def AgentStreamEvent.coalescable : AgentStreamEvent → Option PendingAgentStreamEntry
  | .timeline (.assistantMessage text messageId) provider turnId =>
    some (.text (.assistantMessage messageId) text provider turnId)
  | .timeline (.reasoning text) provider turnId => some (.text .reasoning text provider turnId)
  | .timeline (.toolCall item) provider turnId => some (.toolCall item provider turnId)
  | _ => none

def PendingAgentStreamEntry.isEmptyText : PendingAgentStreamEntry → Bool
  | .text _ chunk _ _ => chunk == ""
  | .toolCall .. => false

def PendingAgentStreamEntry.isTerminalToolCall : PendingAgentStreamEntry → Bool
  | .toolCall item _ _ => item.status ≠ .running
  | .text .. => false

def PendingAgentStreamEntry.callId? : PendingAgentStreamEntry → Option String
  | .toolCall item _ _ => some item.callId
  | .text .. => none

/-- A chunk joins the one before it when they are of one stream, provider and turn. -/
def collapseEntry (collapsed : List PendingAgentStreamEntry) (entry : PendingAgentStreamEntry) :
    List PendingAgentStreamEntry :=
  match collapsed.getLast?, entry with
  | some (.text stream text provider turnId), .text stream' text' provider' turnId' =>
    if stream = stream' ∧ provider = provider' ∧ turnId = turnId' then
      collapsed.dropLast ++ [.text stream (text ++ text') provider turnId]
    else collapsed ++ [entry]
  | _, _ => collapsed ++ [entry]

def collapseEntries (entries : List PendingAgentStreamEntry) : List PendingAgentStreamEntry :=
  entries.foldl collapseEntry []

/-! ## Buffers -/

/-- `id` is the identity of the buffer object, which a timer's callback compares. -/
structure PendingAgentStreamBuffer where
  id : ℕ
  entries : List PendingAgentStreamEntry
  toolCallEntryIndexes : OrderedMap String ℕ
  timer : Option ℕ
  flushing : Bool
  lastFlushAt : Option ℤ
  deriving DecidableEq

def appendToBuffer (buffer : PendingAgentStreamBuffer) (entry : PendingAgentStreamEntry) :
    PendingAgentStreamBuffer :=
  match entry.callId? with
  | none => { buffer with entries := buffer.entries ++ [entry] }
  | some callId =>
    match buffer.toolCallEntryIndexes.get callId with
    | some existingIndex => { buffer with entries := buffer.entries.set existingIndex entry }
    | none =>
      { buffer with
        toolCallEntryIndexes := buffer.toolCallEntryIndexes.set callId buffer.entries.length
        entries := buffer.entries ++ [entry] }

structure Timeout where
  id : ℕ
  agentId : String
  bufferId : ℕ
  deriving DecidableEq

/-- A flush inside `onFlush`: the entries still to come, and what its caller does next. -/
structure RunningFlush where
  agentId : String
  remaining : List PendingAgentStreamEntry
  discards : Bool
  nextAgents : List String
  deriving DecidableEq

/-- The coalescer and its pending timeouts, with what was handled and flushed so far. -/
structure AgentStreamCoalescer where
  windowMs : ℤ
  buffers : OrderedMap String PendingAgentStreamBuffer
  timeouts : List Timeout
  nextId : ℕ
  running : Option RunningFlush
  handled : String → List PendingAgentStreamEntry
  flushed : String → List PendingAgentStreamEntry

namespace AgentStreamCoalescer

def start (windowMs : ℤ) : AgentStreamCoalescer where
  windowMs := windowMs
  buffers := ∅
  timeouts := []
  nextId := 1
  running := none
  handled _ := []
  flushed _ := []

def setBuffer (c : AgentStreamCoalescer) (agentId : String) (buffer : PendingAgentStreamBuffer) :
    AgentStreamCoalescer :=
  { c with buffers := c.buffers.set agentId buffer }

def getOrCreateBuffer (c : AgentStreamCoalescer) (agentId : String) :
    AgentStreamCoalescer × PendingAgentStreamBuffer :=
  match c.buffers.get agentId with
  | some existing => (c, existing)
  | none =>
    let buffer : PendingAgentStreamBuffer :=
      { id := c.nextId, entries := [], toolCallEntryIndexes := ∅, timer := none, flushing := false
        lastFlushAt := none }
    ({ c.setBuffer agentId buffer with nextId := c.nextId + 1 }, buffer)

def scheduleFlush (c : AgentStreamCoalescer) (agentId : String) (buffer : PendingAgentStreamBuffer) :
    AgentStreamCoalescer :=
  { c.setBuffer agentId { buffer with timer := some c.nextId } with
    timeouts := c.timeouts ++ [{ id := c.nextId, agentId, bufferId := buffer.id }]
    nextId := c.nextId + 1 }

def clearTimer (c : AgentStreamCoalescer) (agentId : String) (buffer : PendingAgentStreamBuffer) :
    AgentStreamCoalescer :=
  match buffer.timer with
  | none => c
  | some timer =>
    { c.setBuffer agentId { buffer with timer := none } with
      timeouts := c.timeouts.filter (·.id ≠ timer) }

/-- The next entry goes to `onFlush`. -/
def deliver (c : AgentStreamCoalescer) (flush : RunningFlush) : AgentStreamCoalescer :=
  match flush.remaining with
  | [] => { c with running := some flush }
  | entry :: remaining =>
    { c with
      running := some { flush with remaining }
      flushed := Function.update c.flushed flush.agentId (c.flushed flush.agentId ++ [entry]) }

/-- `flushBuffer` up to its first call of `onFlush`; `discards` and `nextAgents` say how
its caller goes on. -/
def flushBuffer (c : AgentStreamCoalescer) (agentId : String) (expectedBuffer : Option ℕ) (now : ℤ)
    (discards : Bool) (nextAgents : List String) : AgentStreamCoalescer :=
  match c.buffers.get agentId with
  | none => c
  | some buffer =>
    if expectedBuffer.any (· ≠ buffer.id) then c
    else if buffer.flushing then c
    else if buffer.entries = [] then c.clearTimer agentId buffer
    else
      ((c.clearTimer agentId buffer).setBuffer agentId
        { buffer with
          entries := [], toolCallEntryIndexes := ∅, timer := none, flushing := true
          lastFlushAt := some now }).deliver
        { agentId, remaining := collapseEntries buffer.entries, discards, nextAgents }

def discard (c : AgentStreamCoalescer) (agentId : String) : AgentStreamCoalescer :=
  match c.buffers.get agentId with
  | none => c
  | some buffer =>
    { c.clearTimer agentId buffer with
      buffers := (c.clearTimer agentId buffer).buffers.delete agentId }

/-- The loop of `flushAll`, up to the first flush that starts. -/
def flushEach (now : ℤ) : List String → AgentStreamCoalescer → AgentStreamCoalescer
  | [], c => c
  | agentId :: agentIds, c =>
    let flushing := c.flushBuffer agentId none now false agentIds
    if flushing.running.isSome then flushing else flushEach now agentIds flushing

/-- `now` and `flushedAt` are the two readings of the clock. -/
def handle (c : AgentStreamCoalescer) (agentId : String) (event : AgentStreamEvent)
    (now flushedAt : ℤ) : AgentStreamCoalescer :=
  match event.coalescable with
  | none => c
  | some entry =>
    if entry.isEmptyText then c
    else
      let (created, buffer) := c.getOrCreateBuffer agentId
      let buffer := appendToBuffer buffer entry
      let appended :=
        { created.setBuffer agentId buffer with
          handled := Function.update c.handled agentId (c.handled agentId ++ [entry]) }
      if entry.isTerminalToolCall then appended.flushBuffer agentId none flushedAt false []
      else if buffer.timer.isSome then appended
      else if buffer.lastFlushAt.all fun last => c.windowMs ≤ now - last then
        appended.flushBuffer agentId none flushedAt false []
      else appended.scheduleFlush agentId buffer

def flushFor (c : AgentStreamCoalescer) (agentId : String) (now : ℤ) : AgentStreamCoalescer :=
  c.flushBuffer agentId none now false []

def flushAll (c : AgentStreamCoalescer) (now : ℤ) : AgentStreamCoalescer :=
  flushEach now c.buffers.keys c

def flushAndDiscard (c : AgentStreamCoalescer) (agentId : String) (now : ℤ) :
    AgentStreamCoalescer :=
  let flushing := c.flushBuffer agentId none now true []
  if flushing.running.isSome then flushing else flushing.discard agentId

/-- The callback of a timeout. -/
def timer (c : AgentStreamCoalescer) (id : ℕ) (now : ℤ) : AgentStreamCoalescer :=
  match c.timeouts.find? (·.id = id) with
  | none => c
  | some timeout =>
    { c with timeouts := c.timeouts.filter (·.id ≠ id) }.flushBuffer timeout.agentId
      (some timeout.bufferId) now false []

/-- The buffer of a finished flush may be flushed again. -/
def finishFlush (c : AgentStreamCoalescer) (agentId : String) : AgentStreamCoalescer :=
  match c.buffers.get agentId with
  | none => { c with running := none }
  | some buffer =>
    { c.setBuffer agentId { buffer with flushing := false } with running := none }

/-- `onFlush` returns: the next entry is delivered, or the flush and its caller go on. -/
def onFlushReturns (c : AgentStreamCoalescer) (now : ℤ) : AgentStreamCoalescer :=
  match c.running with
  | none => c
  | some flush =>
    if flush.remaining ≠ [] then c.deliver flush
    else
      let finished := c.finishFlush flush.agentId
      flushEach now flush.nextAgents
        (if flush.discards then finished.discard flush.agentId else finished)

end AgentStreamCoalescer

inductive CoalescerOp
  | handle (agentId : String) (event : AgentStreamEvent) (now flushedAt : ℤ)
  | flushFor (agentId : String) (now : ℤ)
  | flushAll (now : ℤ)
  | flushAndDiscard (agentId : String) (now : ℤ)
  | timer (id : ℕ) (now : ℤ)
  | onFlushReturns (now : ℤ)

/-- While `onFlush` runs, nothing but `handle` for its agent is called, and it may return. -/
def AgentStreamCoalescer.step (c : AgentStreamCoalescer) : CoalescerOp → AgentStreamCoalescer
  | .handle agentId event now flushedAt =>
    if c.running.all (·.agentId = agentId) then c.handle agentId event now flushedAt else c
  | .flushFor agentId now => if c.running.isNone then c.flushFor agentId now else c
  | .flushAll now => if c.running.isNone then c.flushAll now else c
  | .flushAndDiscard agentId now => if c.running.isNone then c.flushAndDiscard agentId now else c
  | .timer id now => if c.running.isNone then c.timer id now else c
  | .onFlushReturns now => c.onFlushReturns now

def AgentStreamCoalescer.run (c : AgentStreamCoalescer) (ops : List CoalescerOp) :
    AgentStreamCoalescer :=
  ops.foldl AgentStreamCoalescer.step c

end Orqara.Agent
