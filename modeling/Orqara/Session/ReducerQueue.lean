import Orqara.Library.OrderedMap
import Orqara.Session.SequencingGate

/-!
# The reducer queue

Live events wait per agent until a flush hands them to the reducer as one batch, whose
result is committed to the session store.
-/

namespace Orqara.Session

open Orqara.Stream

/-! ## The session store -/

/-- The timeline of one agent. `synced` says that the authoritative history was applied. -/
structure AgentTimelineState where
  tail : List StreamItem
  head : List StreamItem
  cursor : Option TimelineCursor
  synced : Bool
  newerAvailable : Bool
  deriving DecidableEq

/-- `getSnapshot` -/
def AgentTimelineState.snapshot (state : AgentTimelineState) : AgentStreamReducerSnapshot where
  currentTail := state.tail
  currentHead := state.head
  currentCursor := if state.synced then state.cursor else none
  hasAuthoritativeBaseline := state.synced
  isDetached := state.synced && state.newerAvailable

/-- The commit leaves a stored cursor when the last event lies in its range, and when the
new cursor has the same ends. -/
def keepsStoredCursor (current : TimelineCursor) (lastEvent : Option AgentStreamReducerEvent)
    (nextCursor : TimelineCursor) : Bool :=
  (lastEvent.any fun last => last.epoch == some current.epoch &&
      last.seq.any fun seq => decide (current.startSeq ≤ seq) && decide (seq ≤ current.endSeq)) ||
    decide (current.epoch = nextCursor.epoch ∧ current.startSeq = nextCursor.startSeq ∧
      current.endSeq = nextCursor.endSeq)

def commitCursor (current : Option TimelineCursor) (events : List AgentStreamReducerEvent)
    (nextCursor : TimelineCursor) : TimelineCursor :=
  match current with
  | none => nextCursor
  | some current => if keepsStoredCursor current events.getLast? nextCursor then current else nextCursor

/-- `commit`, as far as the timeline goes. -/
def AgentTimelineState.commit (state : AgentTimelineState) (result : ProcessAgentStreamEventOutput)
    (events : List AgentStreamReducerEvent) : AgentTimelineState :=
  { state with
    tail := if result.changedTail then result.tail else state.tail
    head := if result.changedHead then result.head else state.head
    cursor :=
      if result.cursorChanged then
        result.cursor.elim state.cursor fun nextCursor =>
          some (commitCursor state.cursor events nextCursor)
      else state.cursor }

/-! ## The queue -/

/-- The queue, the flushes it has scheduled, the store behind it, and what it has handed to
the reducer and to `recoverTimelineGap` so far. -/
structure ReducerQueue where
  pendingByAgentId : OrderedMap String (List AgentStreamReducerEvent)
  scheduledFlushId : Option ℕ
  scheduledFlushes : List ℕ
  nextFlushId : ℕ
  store : String → AgentTimelineState
  handed : String → List (List AgentStreamReducerEvent)
  recovered : String → List CatchUpCursor

def ReducerQueue.start (store : String → AgentTimelineState) : ReducerQueue where
  pendingByAgentId := ∅
  scheduledFlushId := none
  scheduledFlushes := []
  nextFlushId := 1
  store := store
  handed _ := []
  recovered _ := []

def ReducerQueue.cancelScheduledFlush (queue : ReducerQueue) : ReducerQueue :=
  match queue.scheduledFlushId with
  | none => queue
  | some id =>
    { queue with scheduledFlushes := queue.scheduledFlushes.erase id, scheduledFlushId := none }

/-- The events leave the queue before the reducer sees them. -/
def ReducerQueue.takePending (queue : ReducerQueue) (agentId : String)
    (events : List AgentStreamReducerEvent) : ReducerQueue :=
  let taken := { queue with pendingByAgentId := queue.pendingByAgentId.delete agentId }
  let taken := if taken.pendingByAgentId.size = 0 then taken.cancelScheduledFlush else taken
  { taken with handed := Function.update taken.handed agentId (taken.handed agentId ++ [events]) }

def ReducerQueue.committed (queue : ReducerQueue) (agentId : String)
    (events : List AgentStreamReducerEvent) (result : ProcessAgentStreamEventOutput) :
    ReducerQueue :=
  { queue with
    store := Function.update queue.store agentId ((queue.store agentId).commit result events)
    recovered :=
      Function.update queue.recovered agentId (queue.recovered agentId ++ result.sideEffects) }

/-- `.error` is the queue at the moment the reducer throws. -/
def ReducerQueue.flushAgent (parse : MarkdownParser) (queue : ReducerQueue) (agentId : String) :
    Except ReducerQueue ReducerQueue :=
  match queue.pendingByAgentId.get agentId with
  | none | some [] => .ok queue
  | some events =>
    let taken := queue.takePending agentId events
    match processAgentStreamEvents parse events (taken.store agentId).snapshot with
    | .error _ => .error taken
    | .ok result => .ok (taken.committed agentId events result)

def ReducerQueue.flush (parse : MarkdownParser) (queue : ReducerQueue) :
    Except ReducerQueue ReducerQueue :=
  queue.pendingByAgentId.keys.foldlM (ReducerQueue.flushAgent parse) queue

def ReducerQueue.scheduleFlush (queue : ReducerQueue) : ReducerQueue :=
  match queue.scheduledFlushId with
  | some _ => queue
  | none =>
    { queue with
      scheduledFlushId := some queue.nextFlushId
      scheduledFlushes := queue.scheduledFlushes ++ [queue.nextFlushId]
      nextFlushId := queue.nextFlushId + 1 }

def ReducerQueue.enqueue (queue : ReducerQueue) (agentId : String) (e : AgentStreamReducerEvent) :
    ReducerQueue :=
  let pending := (queue.pendingByAgentId.get agentId).getD []
  ReducerQueue.scheduleFlush
    { queue with pendingByAgentId := queue.pendingByAgentId.set agentId (pending ++ [e]) }

/-- The callback of a scheduled flush, which runs only once. -/
def ReducerQueue.timer (parse : MarkdownParser) (queue : ReducerQueue) (id : ℕ) :
    Except ReducerQueue ReducerQueue :=
  if id ∈ queue.scheduledFlushes then
    ReducerQueue.flush parse
      { queue with scheduledFlushes := queue.scheduledFlushes.erase id, scheduledFlushId := none }
  else .ok queue

inductive QueueOp
  | enqueue (agentId : String) (e : AgentStreamReducerEvent)
  | flush
  | flushAgent (agentId : String)
  | timer (id : ℕ)

/-- What an operation leaves behind, whether it throws or not. -/
def settled (result : Except ReducerQueue ReducerQueue) : ReducerQueue :=
  match result with
  | .ok queue | .error queue => queue

def ReducerQueue.step (parse : MarkdownParser) (queue : ReducerQueue) : QueueOp → ReducerQueue
  | .enqueue agentId e => queue.enqueue agentId e
  | .flush => settled (queue.flush parse)
  | .flushAgent agentId => settled (queue.flushAgent parse agentId)
  | .timer id => settled (queue.timer parse id)

def ReducerQueue.run (parse : MarkdownParser) (queue : ReducerQueue) (ops : List QueueOp) :
    ReducerQueue :=
  ops.foldl (ReducerQueue.step parse) queue

/-- The events enqueued for an agent. -/
def enqueued (agentId : String) (ops : List QueueOp) : List AgentStreamReducerEvent :=
  ops.filterMap fun op =>
    match op with
    | .enqueue id e => if id = agentId then some e else none
    | _ => none

def ReducerQueue.pending (queue : ReducerQueue) (agentId : String) : List AgentStreamReducerEvent :=
  (queue.pendingByAgentId.get agentId).getD []

/-! ## One event at a time -/

/-- A batch, as far as its agent's timeline and the catch-ups go. -/
def AgentTimelineState.batch (parse : MarkdownParser) (state : AgentTimelineState)
    (events : List AgentStreamReducerEvent) : AgentTimelineState × List CatchUpCursor :=
  match processAgentStreamEvents parse events state.snapshot with
  | .ok result => (state.commit result events, result.sideEffects)
  | .error _ => (state, [])

/-- The events, each as a batch of its own. -/
def AgentTimelineState.oneByOne (parse : MarkdownParser) :
    AgentTimelineState → List AgentStreamReducerEvent → AgentTimelineState × List CatchUpCursor
  | state, [] => (state, [])
  | state, e :: events =>
    let (next, sideEffects) := state.batch parse [e]
    let (last, moreSideEffects) := next.oneByOne parse events
    (last, sideEffects ++ moreSideEffects)

end Orqara.Session
