import Orqara.Stream.StreamItem

/-!
# Reducing events into items

How one event changes a list of stream items: chunks grow the message or thought
at the end, the updates of a tool call or plugin item go into the item they
belong to, and everything else is appended.
-/

namespace Orqara.Stream

open Timeline

/-- `state.findLastIndex(p)` -/
def findLastIdx? {α : Type*} (p : α → Bool) (state : List α) : Option ℕ :=
  (state.reverse.findIdx? p).map fun i => state.length - 1 - i

/-- `...(timelineCursor ? { timelineCursor } : {})` over an item. -/
def StreamItem.at (item : StreamItem) (timelineCursor : Option TimelinePosition) : StreamItem :=
  { item with timelineCursor := timelineCursor <|> item.timelineCursor }

/-! ## Messages and thoughts -/

/-- The assistant message that a chunk with this id extends. -/
def extendsAssistant (messageId : Option String) (item : StreamItem) : Option AssistantMessage :=
  item.assistant?.filter fun message => messageId.isNone || message.messageId == messageId

def growAssistant (item : StreamItem) (message : AssistantMessage) (chunk : String)
    (timestamp : ℤ) (timelineCursor : Option TimelinePosition) : StreamItem :=
  { item.at timelineCursor with
    timestamp, body := .assistantMessage { message with text := message.text ++ chunk } }

inductive StreamUpdateSource
  | live | canonical
  deriving DecidableEq, Repr

/-- The assistant message behind a submitted user row at the end of the list. -/
def assistantBehindUser (state : List StreamItem) (source : StreamUpdateSource)
    (messageId : Option String) : Option (StreamItem × AssistantMessage × StreamItem) := do
  let last ← state.getLast?
  guard (source = .live ∧ last.user?.isSome)
  let secondLast ← state.dropLast.getLast?
  let message ← extendsAssistant messageId secondLast
  return (secondLast, message, last)

def appendAssistantMessage (state : List StreamItem) (text : String) (timestamp : ℤ)
    (source : StreamUpdateSource) (messageId : Option String) (reservedItemIds : List String)
    (timelineCursor : Option TimelinePosition) : List StreamItem :=
  let { chunk, hasContent } := normalizeChunk text
  if chunk = "" then state
  else
    match state.getLast?.bind fun last => (extendsAssistant messageId last).map (last, ·) with
    | some (last, message) =>
      state.dropLast ++ [growAssistant last message chunk timestamp timelineCursor]
    | none =>
      match assistantBehindUser state source messageId with
      | some (secondLast, message, last) =>
        state.dropLast.dropLast ++
          [growAssistant secondLast message chunk timestamp timelineCursor, last]
      | none =>
        if !hasContent then state
        else
          state ++ [{
            id := createAssistantItemId state messageId (chunkSeed chunk) timestamp reservedItemIds
            timelineCursor, turnId := none, timestamp
            body := .assistantMessage
              { messageId := nonEmpty messageId, text := chunk, blockGroupId := none,
                blockIndex := none } }]

def appendThought (state : List StreamItem) (text : String) (timestamp : ℤ)
    (timelineCursor : Option TimelinePosition) : List StreamItem :=
  let { chunk, hasContent } := normalizeChunk text
  if chunk = "" then state
  else
    match state.getLast?.bind fun last => last.thought?.map (last, ·) with
    | some (last, thought) =>
      state.dropLast ++ [{ last.at timelineCursor with
        timestamp, body := .thought { text := thought.text ++ chunk, status := .loading } }]
    | none =>
      if !hasContent then state
      else
        state ++ [{
          id := createUniqueTimelineId state "thought" (chunkSeed chunk) timestamp
          timelineCursor, turnId := none, timestamp
          body := .thought { text := chunk, status := .loading } }]

def markThoughtReady (item : StreamItem) : StreamItem :=
  match item.body with
  | .thought thought => { item with body := .thought { thought with status := .ready } }
  | _ => item

def finalizeActiveThoughts (state : List StreamItem) : List StreamItem :=
  state.map markThoughtReady

/-! ## Tool calls

What a merge leaves is `none` where the source hands back the stored value
itself, which is what its `===` then finds. -/

/-- `===` between a stored value and one of another message, whose objects and
arrays are never the stored ones. -/
def strictEquals : Json → Json → Bool
  | .null, .null => true
  | .bool a, .bool b => a == b
  | .num a, .num b => a == b
  | .str a, .str b => a == b
  | _, _ => false

def strictEqualsProperty : Option Json → Option Json → Bool
  | none, none => true
  | some a, some b => strictEquals a b
  | _, _ => false

/-- `record[key]` -/
def property (record : Record) (key : String) : Option Json :=
  (record.find? (·.1 == key)).map (·.2)

def hasNonEmptyObject : Option Json → Bool
  | some (.obj fields) => !fields.isEmpty
  | _ => false

def mergeUnknownValue (existing incoming : Option Json) : Option (Option Json) :=
  if incoming = some .null then none
  else if !hasNonEmptyObject incoming && hasNonEmptyObject existing then none
  else if strictEqualsProperty existing incoming then none
  else some incoming

def hasSameIncomingFields (existing incoming : Record) : Bool :=
  incoming.all fun field => strictEqualsProperty (property existing field.1) (some field.2)

def mergeToolCallMetadata (existing incoming : Option Record) : Option (Option Record) :=
  match incoming with
  | none => none
  | some incoming =>
    match existing with
    | none => some (some incoming)
    | some existing =>
      if hasSameIncomingFields existing incoming then none
      else some (some (Record.spread existing incoming))

/-- `{ type: "unknown", input, output }` -/
def unknownDetail (input output : Option Json) : ToolCallDetail where
  type := .unknown
  fields := (input.map (("input", ·))).toList ++ (output.map (("output", ·))).toList

def mergeToolCallDetail (existing incoming : ToolCallDetail) : Option ToolCallDetail :=
  if existing.type = .unknown ∧ incoming.type ≠ .unknown then some incoming
  else if incoming.type = .unknown ∧ existing.type ≠ .unknown then none
  else if existing.type = .unknown ∧ incoming.type = .unknown then
    let storedInput := property existing.fields "input"
    let storedOutput := property existing.fields "output"
    let input := mergeUnknownValue storedInput (property incoming.fields "input")
    let output := mergeUnknownValue storedOutput (property incoming.fields "output")
    if input.isNone && output.isNone then none
    else some (unknownDetail (input.getD storedInput) (output.getD storedOutput))
  else if existing.type = incoming.type then
    if hasSameIncomingFields existing.fields incoming.fields then none
    else some { existing with fields := Record.spread existing.fields incoming.fields }
  else some incoming

def inputFromUnknownDetail (detail : ToolCallDetail) : Option Json :=
  if detail.type = .unknown then property detail.fields "input" else some .null

def mergeAgentToolCallStatus (existing incoming : ToolCallStatus) : ToolCallStatus :=
  if existing = .failed ∨ incoming = .failed then .failed
  else if existing = .canceled then .canceled
  else if incoming = .canceled then
    if existing = .completed then .completed else .canceled
  else if existing = .completed ∨ incoming = .completed then .completed
  else .running

/-- A value that is neither `null` nor undefined. -/
def present (value : Option Json) : Option Json := value.filter (· ≠ .null)

def toolCallFailed : Json := .obj [("message", .str "Tool call failed")]

/-- The error of a merged call, or `none` where it is the stored one. -/
def mergeToolCallError (status : ToolCallStatus) (existing incoming : Option Json) :
    Option (Option Json) :=
  if status = .failed then
    match present incoming with
    | some error => if strictEqualsProperty existing (some error) then none else some (some error)
    | none => if (present existing).isSome then none else some (some toolCallFailed)
  else if existing = some .null then none
  else some (some .null)

/-- A merged call, and whether all of it was stored already. -/
def mergeAgentToolCallData (existing data : AgentToolCallData) : AgentToolCallData × Bool :=
  let status := mergeAgentToolCallStatus existing.status data.status
  let error := mergeToolCallError status existing.error data.error
  let detail := mergeToolCallDetail existing.detail data.detail
  let metadata := mergeToolCallMetadata existing.metadata data.metadata
  ({ data with
      status, error := error.getD existing.error, detail := detail.getD existing.detail
      metadata := metadata.getD existing.metadata },
    decide (data.provider = existing.provider ∧ data.callId = existing.callId ∧
      data.name = existing.name ∧ status = existing.status) &&
      error.isNone && detail.isNone && metadata.isNone)

def appendAgentToolCall (state : List StreamItem) (data : AgentToolCallData) (timestamp : ℤ)
    (turnId : Option String) (timelineCursor : Option TimelinePosition) : List StreamItem :=
  let identity := agentToolCallIdentity data.callId turnId
  match findExistingTimelineIdentityIndex state identity with
  | some index =>
    match state[index]?.bind fun existing => existing.toolCall?.map (existing, ·) with
    | none => state
    | some (existing, stored) =>
      let (merged, same) := mergeAgentToolCallData stored data
      -- a cursor is a new object with every event, so it is the stored one only if absent
      if same && timelineCursor.isNone then state
      else
        state.set index { existing.at timelineCursor with timestamp, body := .toolCall merged }
  | none =>
    state ++ [{
      id := "agent_tool_" ++ identity
      timelineCursor, turnId := nonEmpty turnId, timestamp
      body := .toolCall
        { data with error := if data.status = .failed then data.error else some .null } }]

/-! ## Task lists -/

def taskStatus (task : TodoEntry) : AgentTaskStatus :=
  if task.completed ∨ task.status = some .completed then .completed
  else if task.status = some .inProgress then .inProgress
  else .pending

def taskKey (task : TodoEntry) (index : ℕ) : String :=
  task.id.getD (toString index ++ ":" ++ task.text)

/-- The task that the map from keys to tasks ends up with, the last one under its key. -/
def taskByKey (tasks : List TodoEntry) (key : String) : Option TodoEntry :=
  (tasks.zipIdx.reverse.find? fun entry => taskKey entry.1 entry.2 == key).map (·.1)

def taskActivity (previous : List TodoEntry) (task : TodoEntry) (index : ℕ) :
    Option TaskActivity :=
  match taskByKey previous (taskKey task index) with
  | none => some (.added task.text)
  | some prior =>
    if taskStatus prior = taskStatus task then none
    else
      match taskStatus task with
      | .completed => some (.completed task.text)
      | .inProgress => some (.started task.text)
      | .pending => none

def deriveTaskActivities (previous current : List TodoEntry) : List TaskActivity :=
  if previous = [] then
    if current = [] then [] else [.created current.length]
  else current.zipIdx.filterMap fun (task, index) => taskActivity previous task index

def normalizeTodoEntry (item : TodoEntry) : TodoEntry :=
  { item with id := nonEmpty item.id, activeForm := nonEmpty item.activeForm }

def taskStatusText : AgentTaskStatus → String
  | .pending => "pending"
  | .inProgress => "in_progress"
  | .completed => "completed"

def todoEntryJson (item : TodoEntry) : Json :=
  .obj ([("text", .str item.text), ("completed", .bool item.completed)] ++
    (item.id.map fun id => ("id", Json.str id)).toList ++
    (item.status.map fun status => ("status", Json.str (taskStatusText status))).toList ++
    (item.activeForm.map fun form => ("activeForm", Json.str form)).toList)

def taskActivityJson : TaskActivity → Json
  | .created count => .obj [("type", .str "created"), ("count", .num count)]
  | .added task => .obj [("type", .str "added"), ("task", .str task)]
  | .started task => .obj [("type", .str "started"), ("task", .str task)]
  | .completed task => .obj [("type", .str "completed"), ("task", .str task)]

def todoItem (state : List StreamItem) (provider : String) (items : List TodoEntry)
    (timestamp : ℤ) (timelineCursor : Option TimelinePosition) (activity : TaskActivity) :
    StreamItem where
  id := createUniqueTimelineId state "todo"
    (provider ++ ":" ++ (taskActivityJson activity).stringify ++ ":" ++
      (Json.arr (items.map todoEntryJson)).stringify) timestamp
  timelineCursor := timelineCursor
  turnId := none
  timestamp := timestamp
  body := .todoList { provider, items, activity }

/-- A task list whose creation the last item reports, while its tasks still wait. -/
def growsCreatedList (provider : String) (items : List TodoEntry)
    (activities : List TaskActivity) (last : TodoList) : Bool :=
  (match activities with
    | [.added _] => true
    | _ => false) &&
  last.provider == provider &&
  (match last.activity with
    | .created _ => true
    | _ => false) &&
  items.all (taskStatus · == .pending)

def appendTodoList (state : List StreamItem) (provider : String) (items : List TodoEntry)
    (timestamp : ℤ) (timelineCursor : Option TimelinePosition) : List StreamItem :=
  let items := items.map normalizeTodoEntry
  let previousIndex := findLastIdx? (fun item => item.todoList?.any (·.provider == provider)) state
  let previous := previousIndex.bind fun index => state[index]?.bind fun item =>
    item.todoList?.map fun list => (index, item, list)
  let activities := deriveTaskActivities (previous.elim [] (·.2.2.items)) items
  if activities = [] then
    match previous with
    | none => state
    | some (index, item, list) =>
      state.set index { item.at timelineCursor with
        timestamp, body := .todoList { list with items } }
  else
    match state.getLast?.bind fun last => (last.todoList?.filter
        (growsCreatedList provider items activities)).map (last, ·) with
    | some (last, list) =>
      state.dropLast ++ [{ last.at timelineCursor with
        timestamp, body := .todoList { list with items, activity := .created items.length } }]
    | none =>
      activities.foldl
        (fun next activity => next ++ [todoItem next provider items timestamp timelineCursor activity])
        state

/-- `toLowerCase`, for the comparison with names in ASCII: besides the capitals only the
Kelvin sign becomes an ASCII letter. -/
def lowerCase (c : Char) : Char := if c.toNat = 0x212A then 'k' else c.toLower

/-- `.replace(/[.\s-]+/g, "_")`, behind a character that was replaced or not. -/
def joinWords : Bool → List Char → List Char
  | _, [] => []
  | replaced, c :: rest =>
    if c = '.' ∨ c = '-' ∨ isWhiteSpace c then
      if replaced then joinWords true rest else '_' :: joinWords true rest
    else c :: joinWords false rest

def normalizeToolName (name : String) : String :=
  String.ofList ((joinWords false (trim name).toList).map lowerCase)

def stringOf? : Json → Option String
  | .str s => some s
  | _ => none

def taskStatusOfText : String → Option AgentTaskStatus
  | "pending" => some .pending
  | "in_progress" => some .inProgress
  | "completed" => some .completed
  | _ => none

/-- An array of objects under a key of the input. -/
def entriesUnder (input : Option Json) (key : String) : Option (List Record) :=
  match input with
  | some (.obj fields) =>
    match property fields key with
    | some (.arr entries) => entries.mapM fun
      | .obj entry => some entry
      | _ => none
    | _ => none
  | _ => none

/-- The text and completion that the callers of `extractTaskEntriesFromToolCall` keep. -/
def taskEntry (text : String) (status : AgentTaskStatus) : TodoEntry where
  text := text
  completed := status == .completed
  id := none
  status := none
  activeForm := none

def claudeTodo (entry : Record) : Option TodoEntry := do
  let content ← (property entry "content").bind stringOf?
  let status ← ((property entry "status").bind stringOf?).bind taskStatusOfText
  let activeForm ←
    match property entry "activeForm" with
    | none => some none
    | some value => (stringOf? value).map some
  let text := (activeForm.bind trimNonEmpty).getD (trim content)
  return taskEntry (if text = "" then content else text) status

def planStep (entry : Record) : Option TodoEntry := do
  let step ← (property entry "step").bind stringOf?
  -- `TaskStatusSchema.catch("pending")`
  let status := (((property entry "status").bind stringOf?).bind taskStatusOfText).getD .pending
  return taskEntry (trim step) status

def extractTaskEntriesFromToolCall (toolName : String) (input : Option Json) :
    Option (List TodoEntry) :=
  let normalized := normalizeToolName toolName
  if normalized = "exitplanmode" then none
  else if normalized = "todowrite" ∨ normalized = "todo_write" then
    (entriesUnder input "todos").bind (·.mapM claudeTodo)
  else if normalized = "update_plan" then
    ((entriesUnder input "plan").bind (·.mapM planStep)).map (·.filter (·.text ≠ ""))
  else none

def reduceTimelineToolCall (state : List StreamItem) (provider : String)
    (item : ToolCallTimelineItem) (turnId : Option String) (timestamp : ℤ)
    (timelineCursor : Option TimelinePosition) : List StreamItem :=
  let normalizedToolName := normalizeToolName item.name
  let tasks := extractTaskEntriesFromToolCall item.name (inputFromUnknownDetail item.detail)
  if provider = "claude" ∧ normalizedToolName = "exitplanmode" then state
  else if provider = "claude" ∧
      (normalizedToolName = "todowrite" ∨ normalizedToolName = "todo_write") then
    match tasks with
    | none => state
    | some tasks => appendTodoList state provider tasks timestamp timelineCursor
  else if provider = "claude" ∧ (normalizedToolName = "taskcreate" ∨
      normalizedToolName = "taskupdate" ∨ normalizedToolName = "tasklist") then state
  else
    match tasks with
    | some tasks => appendTodoList state provider tasks timestamp timelineCursor
    | none =>
      appendAgentToolCall state
        { provider, callId := item.callId, name := item.name, status := item.status,
          error := item.error, detail := item.detail, metadata := item.metadata }
        timestamp turnId timelineCursor

/-! ## Other items -/

def appendNotification (state : List StreamItem) (entry : StreamItem) : List StreamItem :=
  match state.findIdx? (·.id == entry.id) with
  | some index => state.set index entry
  | none => state ++ [entry]

def appendPluginTimelineItem (state : List StreamItem) (item : PluginTimelineItem)
    (timestamp : ℤ) (timelineCursor : Option TimelinePosition) : List StreamItem :=
  let identity := item.pluginId ++ "/" ++ item.id
  let nextItem : StreamItem :=
    { id := identity, timelineCursor, turnId := none, timestamp
      body := .plugin
        { pluginId := item.pluginId, pluginItemId := item.id, itemKind := item.kind,
          version := item.version, data := item.data } }
  match findExistingTimelineIdentityIndex state identity with
  | none => state ++ [nextItem]
  | some index =>
    match state[index]? with
    | some { id, body := .plugin _, .. } => state.set index { nextItem with id }
    | _ => state

def compactionStatusText : CompactionStatus → String
  | .loading => "loading"
  | .completed => "completed"

def reduceTimelineCompaction (state : List StreamItem) (item : CompactionTimelineItem)
    (timestamp : ℤ) (timelineCursor : Option TimelinePosition) : List StreamItem :=
  let loading := state.findIdx? fun s => s.compaction?.any (·.status == .loading)
  let existing := loading.bind fun index => state[index]?.bind fun existing =>
    existing.compaction?.map fun stored => (index, existing, stored)
  match (if item.status = .completed then existing else none) with
  | some (index, existing, stored) =>
    state.set index { existing.at timelineCursor with
      body := .compaction
        { status := .completed, trigger := item.trigger <|> stored.trigger
          preTokens := item.preTokens <|> stored.preTokens } }
  | none =>
    state ++ [{
      id := createUniqueTimelineId state "compaction" (compactionStatusText item.status) timestamp
      timelineCursor, turnId := none, timestamp, body := .compaction item }]

def notificationItem (state : List StreamItem) (pre : String) (timestamp : ℤ)
    (timelineCursor : Option TimelinePosition) (notification : Notification) : StreamItem where
  id := createUniqueTimelineId state pre notification.message timestamp
  timelineCursor := timelineCursor
  turnId := none
  timestamp := timestamp
  body := .notification notification

/-- User messages never come here: `applyStreamEvent` places them itself. -/
def reduceTimelineEvent (state : List StreamItem) (provider : String) (item : AgentTimelineItem)
    (turnId : Option String) (timestamp : ℤ) (source : StreamUpdateSource)
    (reservedItemIds : List String) (timelineCursor : Option TimelinePosition) :
    List StreamItem :=
  match item with
  | .userMessage .. => state
  | .assistantMessage text messageId =>
    finalizeActiveThoughts
      (appendAssistantMessage state text timestamp source messageId reservedItemIds timelineCursor)
  | .reasoning text => appendThought state text timestamp timelineCursor
  | .toolCall item =>
    finalizeActiveThoughts
      (reduceTimelineToolCall state provider item turnId timestamp timelineCursor)
  | .todo items =>
    finalizeActiveThoughts (appendTodoList state provider items timestamp timelineCursor)
  | .error message =>
    finalizeActiveThoughts (appendNotification state (notificationItem state "error" timestamp
      timelineCursor { sourceType := .error, level := .error, message }))
  | .notification level message =>
    finalizeActiveThoughts (appendNotification state (notificationItem state "notification"
      timestamp timelineCursor { sourceType := .notification, level, message }))
  | .compaction item =>
    finalizeActiveThoughts (reduceTimelineCompaction state item timestamp timelineCursor)
  | .plugin item =>
    finalizeActiveThoughts (appendPluginTimelineItem state item timestamp timelineCursor)

/-- The item at the end becomes part of the event's turn. -/
def applyTimelineTurnId (items : List StreamItem) (turnId : Option String) : List StreamItem :=
  match nonEmpty turnId, items.getLast? with
  | some turnId, some last => items.dropLast ++ [{ last with turnId := some turnId }]
  | _, _ => items

def reduceStreamUpdate (state : List StreamItem) (event : AgentStreamEventPayload)
    (timestamp : ℤ) (source : StreamUpdateSource) (reservedItemIds : List String)
    (timelineCursor : Option TimelinePosition) : List StreamItem :=
  match event with
  | .timeline provider item turnId =>
    applyTimelineTurnId
      (reduceTimelineEvent state provider item turnId timestamp source reservedItemIds
        timelineCursor) turnId
  | _ => finalizeActiveThoughts state

end Orqara.Stream
