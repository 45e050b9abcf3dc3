import Orqara.Library.JsonText
import Orqara.Library.JsString
import Orqara.Timeline.Item

/-!
# Stream items

The items of an agent's transcript in the app, the events they are made from,
and the ids the app gives them.
-/

namespace Orqara.Stream

open Timeline

/-- An agent stream event, with what the transcript reads of it. -/
inductive AgentStreamEventPayload
  | timeline (provider : String) (item : AgentTimelineItem) (turnId : Option String)
  | threadStarted | turnStarted | turnCompleted | turnFailed | turnCanceled
  | permissionRequested | permissionResolved | attentionRequired
  deriving DecidableEq

structure TimelinePosition where
  epoch : String
  seq : ℤ
  deriving DecidableEq

/-- Images and attachments are not looked into; a property without any is left out. -/
structure UserMessage where
  clientMessageId : Option String
  messageId : Option String
  text : String
  images : List Json
  attachments : List Json
  deriving DecidableEq

structure AssistantMessage where
  messageId : Option String
  text : String
  blockGroupId : Option String
  blockIndex : Option ℕ
  deriving DecidableEq

inductive ThoughtStatus
  | loading | ready
  deriving DecidableEq, Repr

structure Thought where
  text : String
  status : ThoughtStatus
  deriving DecidableEq

/-- `error` is `none` when the property is undefined. -/
structure AgentToolCallData where
  provider : String
  callId : String
  name : String
  status : ToolCallStatus
  error : Option Json
  detail : ToolCallDetail
  metadata : Option Record
  deriving DecidableEq

abbrev TodoEntry := AgentTaskItem

inductive TaskActivity
  | created (count : ℕ)
  | added (task : String)
  | started (task : String)
  | completed (task : String)
  deriving DecidableEq

structure TodoList where
  provider : String
  items : List TodoEntry
  activity : TaskActivity
  deriving DecidableEq

inductive NotificationSource
  | error | notification
  deriving DecidableEq, Repr

structure Notification where
  sourceType : NotificationSource
  level : NotificationLevel
  message : String
  deriving DecidableEq

structure PluginTimelineStreamItem where
  pluginId : String
  pluginItemId : String
  itemKind : String
  version : ℤ
  data : Json
  deriving DecidableEq

/-- What the items of one kind have beyond the properties all items share. Tool
calls are the agent's: nothing creates one whose source is the orchestrator. -/
inductive StreamItemBody
  | userMessage (message : UserMessage)
  | assistantMessage (message : AssistantMessage)
  | thought (thought : Thought)
  | toolCall (data : AgentToolCallData)
  | todoList (list : TodoList)
  | notification (notification : Notification)
  | compaction (item : CompactionTimelineItem)
  | plugin (item : PluginTimelineStreamItem)
  deriving DecidableEq

/-- Timestamps are `getTime()`. -/
structure StreamItem where
  id : String
  timelineCursor : Option TimelinePosition
  turnId : Option String
  timestamp : ℤ
  body : StreamItemBody
  deriving DecidableEq

def StreamItem.assistant? (item : StreamItem) : Option AssistantMessage :=
  match item.body with
  | .assistantMessage message => some message
  | _ => none

def StreamItem.user? (item : StreamItem) : Option UserMessage :=
  match item.body with
  | .userMessage message => some message
  | _ => none

def StreamItem.thought? (item : StreamItem) : Option Thought :=
  match item.body with
  | .thought thought => some thought
  | _ => none

def StreamItem.toolCall? (item : StreamItem) : Option AgentToolCallData :=
  match item.body with
  | .toolCall data => some data
  | _ => none

def StreamItem.todoList? (item : StreamItem) : Option TodoList :=
  match item.body with
  | .todoList list => some list
  | _ => none

def StreamItem.compaction? (item : StreamItem) : Option CompactionTimelineItem :=
  match item.body with
  | .compaction item => some item
  | _ => none

/-- A present, non-empty string: what JavaScript takes for true. -/
def truthy (s : Option String) : Bool := s.any (· ≠ "")

/-- `...(value ? { key: value } : {})` -/
def nonEmpty (s : Option String) : Option String := s.filter (· ≠ "")

/-! ## Ids -/

def digit36 (d : ℕ) : Char :=
  if d < 10 then Char.ofNat (48 + d) else Char.ofNat (87 + d)

/-- `n.toString(36)` -/
def base36 (n : ℕ) : String :=
  if n = 0 then "0" else String.ofList ((Nat.digits 36 n).reverse.map digit36)

/-- The hash after one code unit; `|= 0` wraps it to 32 bits. -/
def hashStep (hash : ℤ) (char : ℕ) : ℤ := Int.bmod (hash * 31 + char) (2 ^ 32)

def simpleHash (str : String) : String :=
  base36 ((utf16 str).foldl hashStep 0).natAbs

def createTimelineId (pre : String) (text : String) (timestamp : ℤ) : String :=
  pre ++ "_" ++ toString timestamp ++ "_" ++ simpleHash text

def createUniqueTimelineId (state : List StreamItem) (pre : String) (text : String)
    (timestamp : ℤ) : String :=
  createTimelineId pre text timestamp ++ "_" ++ base36 state.length

/-- `timestamp.getTime().toString(36)` -/
def base36Int (n : ℤ) : String :=
  if n < 0 then "-" ++ base36 n.natAbs else base36 n.natAbs

/-- The segment's first free id: there are more candidates than occupied ids, so
the loop of the source stops among them. -/
def firstFreeSegment (isOccupied : String → Bool) (occupied : ℕ) (segmentId : String) : String :=
  (((List.range (occupied + 1)).map fun k => segmentId ++ ":" ++ base36 (k + 1)).find?
    fun id => !isOccupied id).getD segmentId

def createAssistantItemId (state : List StreamItem) (messageId : Option String) (text : String)
    (timestamp : ℤ) (reservedItemIds : List String) : String :=
  match nonEmpty messageId with
  | none => createUniqueTimelineId state "assistant" text timestamp
  | some messageId =>
    let isOccupied := fun id => reservedItemIds.contains id || state.any (·.id == id)
    if !isOccupied messageId then messageId
    else
      let segmentId := messageId ++ ":segment:" ++ base36Int timestamp
      if !isOccupied segmentId then segmentId
      else firstFreeSegment isOccupied (reservedItemIds.length + state.length) segmentId

/-- The characters `encodeURIComponent` leaves as they are. -/
def isUriUnreserved (c : Char) : Bool :=
  c.isAlphanum || "-_.!~*'()".toList.contains c

def hexDigitUpper (d : ℕ) : Char :=
  if d < 10 then Char.ofNat (48 + d) else Char.ofNat (55 + d)

def percentEncode (byte : UInt8) : List Char :=
  ['%', hexDigitUpper (byte.toNat / 16), hexDigitUpper (byte.toNat % 16)]

def encodeURIComponent (s : String) : String :=
  String.ofList (s.toList.flatMap fun c =>
    if isUriUnreserved c then [c] else (String.utf8EncodeChar c).flatMap percentEncode)

def agentToolCallIdentity (callId : String) (turnId : Option String) : String :=
  match nonEmpty turnId with
  | none => callId
  | some turnId => "turn:" ++ encodeURIComponent turnId ++ "/" ++ encodeURIComponent callId

def streamTimelineItemIdentity (item : StreamItem) : Option String :=
  match item.body with
  | .toolCall data => some (agentToolCallIdentity data.callId item.turnId)
  | .plugin plugin => some (plugin.pluginId ++ "/" ++ plugin.pluginItemId)
  | _ => none

def findExistingTimelineIdentityIndex (state : List StreamItem) (identity : String) : Option ℕ :=
  state.findIdx? fun entry => streamTimelineItemIdentity entry == some identity

/-! ## Chunks -/

structure NormalizedChunk where
  chunk : String
  hasContent : Bool
  deriving DecidableEq

/-- Whether `/\S/` matches. -/
def hasContent (s : String) : Bool := s.toList.any fun c => !isWhiteSpace c

def normalizeChunk (text : String) : NormalizedChunk :=
  let chunk := String.ofList (text.toList.filter (· ≠ '\r'))
  { chunk, hasContent := hasContent chunk }

/-- `chunk.trim() || chunk` -/
def chunkSeed (chunk : String) : String := (trimNonEmpty chunk).getD chunk

end Orqara.Stream
