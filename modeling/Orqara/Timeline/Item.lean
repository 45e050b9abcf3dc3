import Orqara.Library.Json

/-!
# Timeline items and rows

The items an agent's timeline is made of and the rows the daemon stores them in.
-/

namespace Orqara.Timeline

inductive ToolCallDetailType
  | shell | read | edit | write | search | fetch | worktreeSetup | subAgent | plainText | plan
  | unknown
  deriving DecidableEq, Repr

/-- A tool call's detail: its `type` and its other properties, which the
timeline copies and merges but does not compute with. -/
structure ToolCallDetail where
  type : ToolCallDetailType
  fields : Record
  deriving DecidableEq

inductive ToolCallStatus
  | running | completed | failed | canceled
  deriving DecidableEq, Repr

/-- A `tool_call` item. `error` is `none` when the property is undefined, and
`extra` holds the properties that the open record type `ToolCallBase` admits. -/
structure ToolCallTimelineItem where
  callId : String
  name : String
  status : ToolCallStatus
  error : Option Json
  detail : ToolCallDetail
  metadata : Option Record
  extra : Record
  deriving DecidableEq

inductive AgentTaskStatus
  | pending | inProgress | completed
  deriving DecidableEq, Repr

structure AgentTaskItem where
  text : String
  completed : Bool
  id : Option String
  status : Option AgentTaskStatus
  activeForm : Option String
  deriving DecidableEq

inductive NotificationLevel
  | info | warning | error
  deriving DecidableEq, Repr

inductive CompactionStatus
  | loading | completed
  deriving DecidableEq, Repr

structure CompactionTimelineItem where
  status : CompactionStatus
  trigger : Option String
  preTokens : Option ℤ
  deriving DecidableEq

structure PluginTimelineItem where
  id : String
  pluginId : String
  kind : String
  version : ℤ
  data : Json
  deriving DecidableEq

inductive AgentTimelineItem
  | userMessage (text : String) (messageId clientMessageId : Option String)
  | assistantMessage (text : String) (messageId : Option String)
  | reasoning (text : String)
  | toolCall (item : ToolCallTimelineItem)
  | todo (items : List AgentTaskItem)
  | error (message : String)
  | notification (level : NotificationLevel) (message : String)
  | compaction (item : CompactionTimelineItem)
  | plugin (item : PluginTimelineItem)
  deriving DecidableEq

/-- A stored row: the item with its sequence number in the agent's timeline. -/
structure AgentTimelineRow where
  seq : ℤ
  timestamp : String
  item : AgentTimelineItem
  turnId : Option String
  providerMessageId : Option String
  deriving DecidableEq

/-- The key under which updates of one item are collapsed. -/
def timelineItemIdentity : AgentTimelineItem → Option String
  | .toolCall item => some item.callId
  | .plugin item => some (item.pluginId ++ "/" ++ item.id)
  | _ => none

end Orqara.Timeline
