import Orqara.Library.OrderedMap
import Orqara.Timeline.Projection

/-!
# The in-memory timeline store

The rows an agent's timeline is kept in: how it is seeded, appended to and
enriched, and how a client fetches from it.
-/

namespace Orqara.Timeline

structure SeedAgentTimelineOptions where
  items : Option (List AgentTimelineItem)
  rows : Option (List AgentTimelineRow)
  epoch : Option String
  nextSeq : Option ℤ
  timestamp : Option String

structure AgentTimelineState where
  epoch : String
  rows : List AgentTimelineRow
  nextSeq : ℤ
  deriving DecidableEq

structure AgentTimelineCursor where
  epoch : String
  seq : ℤ
  deriving DecidableEq, Repr

inductive AgentTimelineFetchDirection
  | tail | before | after
  deriving DecidableEq, Repr

structure AgentTimelineFetchOptions where
  direction : Option AgentTimelineFetchDirection
  cursor : Option AgentTimelineCursor
  limit : Option ℚ

structure AgentTimelineWindow where
  minSeq : ℤ
  maxSeq : ℤ
  nextSeq : ℤ
  deriving DecidableEq, Repr

structure AgentTimelineFetchResult where
  epoch : String
  direction : AgentTimelineFetchDirection
  reset : Bool
  staleCursor : Bool
  gap : Bool
  window : AgentTimelineWindow
  hasOlder : Bool
  hasNewer : Bool
  rows : List AgentTimelineRow
  deriving DecidableEq

/-! ## Fetching -/

def DEFAULT_TIMELINE_FETCH_LIMIT : ℕ := 200

structure FetchContext where
  state : AgentTimelineState
  direction : AgentTimelineFetchDirection
  limit : ℕ
  selectAll : Bool
  cursor : Option AgentTimelineCursor
  minSeq : ℤ
  maxSeq : ℤ
  window : AgentTimelineWindow

/-- The last `limit` of the rows, or all of them. -/
def FetchContext.lastRows (ctx : FetchContext) (rows : List AgentTimelineRow) :
    List AgentTimelineRow :=
  if ctx.selectAll ∨ rows.length ≤ ctx.limit then rows else rows.drop (rows.length - ctx.limit)

/-- `selected.length > 0 && selected[0].seq > minSeq`. -/
def startsAbove (selected : List AgentTimelineRow) (minSeq : ℤ) : Bool :=
  selected.head?.any fun first => minSeq < first.seq

def fetchTail (ctx : FetchContext) : AgentTimelineFetchResult :=
  let selected := ctx.lastRows ctx.state.rows
  { epoch := ctx.state.epoch, direction := ctx.direction, reset := false, staleCursor := false
    gap := false, window := ctx.window, hasOlder := startsAbove selected ctx.minSeq
    hasNewer := false, rows := selected }

def fetchAfter (ctx : FetchContext) : AgentTimelineFetchResult :=
  let baseSeq := (ctx.cursor.map (·.seq)).getD 0
  match ctx.state.rows.findIdx? fun row => baseSeq < row.seq with
  | none =>
    { epoch := ctx.state.epoch, direction := ctx.direction, reset := false, staleCursor := false
      gap := false, window := ctx.window, hasOlder := ctx.minSeq ≤ baseSeq, hasNewer := false
      rows := [] }
  | some startIdx =>
    let above := ctx.state.rows.drop startIdx
    let selected := if ctx.selectAll then above else above.take ctx.limit
    { epoch := ctx.state.epoch, direction := ctx.direction, reset := false, staleCursor := false
      gap := false, window := ctx.window, hasOlder := startsAbove selected ctx.minSeq
      hasNewer := selected.getLast?.any fun lastSelected => lastSelected.seq < ctx.maxSeq
      rows := selected }

def fetchBefore (ctx : FetchContext) : AgentTimelineFetchResult :=
  let beforeSeq := (ctx.cursor.map (·.seq)).getD ctx.state.nextSeq
  let endExclusive := ctx.state.rows.findIdx? fun row => beforeSeq ≤ row.seq
  let boundedRows := (endExclusive.map ctx.state.rows.take).getD ctx.state.rows
  let selected := ctx.lastRows boundedRows
  { epoch := ctx.state.epoch, direction := ctx.direction, reset := false, staleCursor := false
    gap := false, window := ctx.window, hasOlder := startsAbove selected ctx.minSeq
    hasNewer := endExclusive.isSome, rows := selected }

def fetchReset (ctx : FetchContext) (staleCursor gap : Bool) : AgentTimelineFetchResult :=
  let rows := ctx.lastRows ctx.state.rows
  { epoch := ctx.state.epoch, direction := ctx.direction, reset := true
    staleCursor := staleCursor, gap := gap, window := ctx.window
    hasOlder := startsAbove rows ctx.minSeq, hasNewer := false, rows := rows }

namespace AgentTimelineState

def minSeq (state : AgentTimelineState) : ℤ := (state.rows.head?.map (·.seq)).getD 0

def maxSeq (state : AgentTimelineState) : ℤ := (state.rows.getLast?.map (·.seq)).getD 0

def fetchContext (state : AgentTimelineState) (options : AgentTimelineFetchOptions) :
    FetchContext :=
  let limit := (options.limit.map floorLimit).getD DEFAULT_TIMELINE_FETCH_LIMIT
  { state := state
    direction := options.direction.getD .tail
    limit := limit
    selectAll := limit = 0
    cursor := options.cursor
    minSeq := state.minSeq
    maxSeq := state.maxSeq
    window := ⟨state.minSeq, state.maxSeq, state.nextSeq⟩ }

/-- `fetch`, once the agent's state is found. -/
def fetch (state : AgentTimelineState) (options : AgentTimelineFetchOptions) :
    AgentTimelineFetchResult :=
  let ctx := state.fetchContext options
  if options.cursor.any fun cursor => cursor.epoch ≠ state.epoch then fetchReset ctx true false
  else if ctx.direction = .after ∧ state.rows ≠ [] ∧
      options.cursor.any fun cursor => cursor.seq < ctx.minSeq - 1 then
    fetchReset ctx false true
  else if state.rows = [] then
    { epoch := state.epoch, direction := ctx.direction, reset := false, staleCursor := false
      gap := false, window := ctx.window, hasOlder := false, hasNewer := false, rows := [] }
  else
    match ctx.direction with
    | .tail => fetchTail ctx
    | .after => fetchAfter ctx
    | .before => fetchBefore ctx

end AgentTimelineState

/-! ## The store -/

structure InMemoryAgentTimelineStore where
  states : OrderedMap String AgentTimelineState

/-- `options` of `append`. -/
structure AppendOptions where
  timestamp : Option String
  providerMessageId : Option String
  turnId : Option String

/-- `...(value ? { value } : {})`: an empty text is left out too. -/
def nonEmptyText (value : Option String) : Option String := value.filter (· ≠ "")

/-- The row `append` makes. -/
def AgentTimelineState.nextRow (state : AgentTimelineState) (item : AgentTimelineItem)
    (options : AppendOptions) (now : String) : AgentTimelineRow where
  seq := state.nextSeq
  timestamp := options.timestamp.getD now
  item := item
  turnId := nonEmptyText options.turnId
  providerMessageId := nonEmptyText options.providerMessageId

/-- Consecutive seqs from `startSeq` on. -/
def buildRowsFromItems : List AgentTimelineItem → ℤ → String → List AgentTimelineRow
  | [], _, _ => []
  | item :: items, nextSeq, timestamp =>
    ⟨nextSeq, timestamp, item, none, none⟩ :: buildRowsFromItems items (nextSeq + 1) timestamp

/-- Whether the row is the user message with this id. -/
def isSubmittedUserMessage (clientMessageId : String) (row : AgentTimelineRow) : Bool :=
  match row.item with
  | .userMessage _ _ submitted => submitted = some clientMessageId
  | _ => false

namespace SeedAgentTimelineOptions

/-- The rows `initialize` starts from: the given ones when there are any, otherwise
the items with fresh seqs. -/
def seedRows (options : SeedAgentTimelineOptions) (timestamp : String) : List AgentTimelineRow :=
  if (options.rows.getD []).length ≠ 0 then options.rows.getD []
  else buildRowsFromItems (options.items.getD []) (options.nextSeq.getD 1) timestamp

/-- The state `initialize` puts in the map, with the clock and the random UUID it
may read. -/
def seedState (options : SeedAgentTimelineOptions) (now randomUUID : String) :
    AgentTimelineState :=
  let rows := options.seedRows (options.timestamp.getD now)
  { epoch := options.epoch.getD randomUUID
    rows := rows
    nextSeq := options.nextSeq.getD ((rows.getLast?.map fun last => last.seq + 1).getD 1) }

end SeedAgentTimelineOptions

namespace InMemoryAgentTimelineStore

def empty : InMemoryAgentTimelineStore := ⟨∅⟩

/-- `initialize`. -/
def initializeAgent (store : InMemoryAgentTimelineStore) (agentId : String)
    (options : SeedAgentTimelineOptions) (now randomUUID : String) : InMemoryAgentTimelineStore :=
  ⟨store.states.set agentId (options.seedState now randomUUID)⟩

def requireState (store : InMemoryAgentTimelineStore) (agentId : String) :
    Except String AgentTimelineState :=
  match store.states.get agentId with
  | some state => .ok state
  | none => .error ("Unknown agent '" ++ agentId ++ "'")

def fetch (store : InMemoryAgentTimelineStore) (agentId : String)
    (options : AgentTimelineFetchOptions) : Except String AgentTimelineFetchResult :=
  (store.requireState agentId).map (·.fetch options)

def append (store : InMemoryAgentTimelineStore) (agentId : String) (item : AgentTimelineItem)
    (options : AppendOptions) (now : String) :
    Except String (InMemoryAgentTimelineStore × AgentTimelineRow) := do
  let state ← store.requireState agentId
  let row := state.nextRow item options now
  let state' :=
    { state with nextSeq := state.nextSeq + 1, rows := state.rows ++ [row] }
  return (⟨store.states.set agentId state'⟩, row)

def enrichSubmittedUserMessage (store : InMemoryAgentTimelineStore)
    (agentId clientMessageId providerMessageId : String) :
    Except String (InMemoryAgentTimelineStore × Option AgentTimelineRow) := do
  let state ← store.requireState agentId
  let index := state.rows.findIdx (isSubmittedUserMessage clientMessageId)
  match state.rows[index]? with
  | none => return (store, none)
  | some row =>
    let enriched := { row with providerMessageId := some providerMessageId }
    let state' := { state with rows := state.rows.set index enriched }
    return (⟨store.states.set agentId state'⟩, some enriched)

end InMemoryAgentTimelineStore

end Orqara.Timeline
