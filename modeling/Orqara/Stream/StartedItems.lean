import Orqara.Stream.Edits

/-!
# Events that start an item

Whether an event appends an item is seen on the list and the event: nothing at the end of the list
takes a chunk, no item has the identity of a tool call or plugin item, and so on.
-/

namespace Orqara.Stream

open Timeline

/-! ## Tool calls -/

/-- What a tool call is shown as. -/
inductive ToolCallUse
  | nothing
  | tasks (tasks : List TodoEntry)
  | call

/-- The branches of `reduceTimelineToolCall`. -/
def toolCallUse (provider : String) (item : ToolCallTimelineItem) : ToolCallUse :=
  let normalizedToolName := normalizeToolName item.name
  let tasks := extractTaskEntriesFromToolCall item.name (inputFromUnknownDetail item.detail)
  if provider = "claude" ∧ normalizedToolName = "exitplanmode" then .nothing
  else if provider = "claude" ∧
      (normalizedToolName = "todowrite" ∨ normalizedToolName = "todo_write") then
    match tasks with
    | none => .nothing
    | some tasks => .tasks tasks
  else if provider = "claude" ∧ (normalizedToolName = "taskcreate" ∨
      normalizedToolName = "taskupdate" ∨ normalizedToolName = "tasklist") then .nothing
  else
    match tasks with
    | some tasks => .tasks tasks
    | none => .call

def toolCallData (provider : String) (item : ToolCallTimelineItem) : AgentToolCallData where
  provider := provider
  callId := item.callId
  name := item.name
  status := item.status
  error := item.error
  detail := item.detail
  metadata := item.metadata

/-- A list after a tool call that is shown so. -/
def showToolCall (state : List StreamItem) (provider : String) (item : ToolCallTimelineItem)
    (turnId : Option String) (timestamp : ℤ) (timelineCursor : Option TimelinePosition) :
    ToolCallUse → List StreamItem
  | .nothing => state
  | .tasks tasks => appendTodoList state provider tasks timestamp timelineCursor
  | .call => appendAgentToolCall state (toolCallData provider item) timestamp turnId timelineCursor

/-- The call of an event that is shown as a call. -/
def calledTool (provider : String) (item : AgentTimelineItem) : Option String :=
  match item with
  | .toolCall call =>
    match toolCallUse provider call with
    | .call => some call.callId
    | _ => none
  | _ => none

theorem reduceTimelineToolCall_eq (state : List StreamItem) (provider : String)
    (item : ToolCallTimelineItem) (turnId : Option String) (timestamp : ℤ)
    (timelineCursor : Option TimelinePosition) :
    reduceTimelineToolCall state provider item turnId timestamp timelineCursor =
      showToolCall state provider item turnId timestamp timelineCursor
        (toolCallUse provider item) := by
  unfold reduceTimelineToolCall toolCallUse
  simp only []
  cases extractTaskEntriesFromToolCall item.name (inputFromUnknownDetail item.detail) with
  | none =>
    split
    · rfl
    split
    · rfl
    split
    · rfl
    · rfl
  | some tasks =>
    split
    · rfl
    split
    · rfl
    split
    · rfl
    · rfl

/-! ## Starting -/

/-- Whether a task list brings activities that the last item does not take. -/
def startsTodo (state : List StreamItem) (provider : String) (items : List TodoEntry) : Bool :=
  let items := items.map normalizeTodoEntry
  let previousIndex := findLastIdx? (fun item => item.todoList?.any (·.provider == provider)) state
  let previous := previousIndex.bind fun index => state[index]?.bind fun item =>
    item.todoList?.map fun list => (index, item, list)
  let activities := deriveTaskActivities (previous.elim [] (·.2.2.items)) items
  decide (activities ≠ []) &&
    (state.getLast?.bind fun last => (last.todoList?.filter
      (growsCreatedList provider items activities)).map (last, ·)).isNone

def startsToolCall (state : List StreamItem) (provider : String) (item : ToolCallTimelineItem)
    (turnId : Option String) : ToolCallUse → Bool
  | .nothing => false
  | .tasks tasks => startsTodo state provider tasks
  | .call =>
    (findExistingTimelineIdentityIndex state (agentToolCallIdentity item.callId turnId)).isNone

/-- Whether an event appends to a list. -/
def startsItem (state : List StreamItem) (provider : String) (item : AgentTimelineItem)
    (turnId : Option String) (timestamp : ℤ) (source : StreamUpdateSource) : Bool :=
  match item with
  | .userMessage .. => false
  | .assistantMessage text messageId =>
    decide ((normalizeChunk text).chunk ≠ "") && (normalizeChunk text).hasContent &&
      (state.getLast?.bind fun last => (extendsAssistant messageId last).map (last, ·)).isNone &&
      (assistantBehindUser state source messageId).isNone
  | .reasoning text =>
    decide ((normalizeChunk text).chunk ≠ "") && (normalizeChunk text).hasContent &&
      (state.getLast?.bind fun last => last.thought?.map (last, ·)).isNone
  | .toolCall item => startsToolCall state provider item turnId (toolCallUse provider item)
  | .todo items => startsTodo state provider items
  | .error message =>
    (state.findIdx? (·.id == createUniqueTimelineId state "error" message timestamp)).isNone
  | .notification _ message =>
    (state.findIdx? (·.id == createUniqueTimelineId state "notification" message timestamp)).isNone
  | .compaction item =>
    !(item.status == .completed && state.any fun s => s.compaction?.any (·.status == .loading))
  | .plugin item =>
    (findExistingTimelineIdentityIndex state (item.pluginId ++ "/" ++ item.id)).isNone

variable {state : List StreamItem} {provider : String} {turnId : Option String}

/-- A list with items of one kind behind it. -/
def Appends (kind : StreamItemKind) (state edited : List StreamItem) : Prop :=
  ∃ items, items ≠ [] ∧ edited = state ++ items ∧ ∀ new ∈ items, new.kind = kind

theorem appends_one {kind : StreamItemKind} {new : StreamItem} (h : new.kind = kind) :
    Appends kind state (state ++ [new]) := by
  refine ⟨[new], by simp, rfl, ?_⟩
  intro item hitem
  rw [List.mem_singleton.mp hitem, h]

theorem appends_todo {items : List TodoEntry} {timestamp : ℤ} {timelineCursor : Option TimelinePosition}
    (h : startsTodo state provider items = true) :
    Appends .todoList state (appendTodoList state provider items timestamp timelineCursor) := by
  unfold startsTodo at h
  simp only [Bool.and_eq_true, decide_eq_true_eq, Option.isNone_iff_eq_none] at h
  unfold appendTodoList
  simp only []
  rw [if_neg h.1, h.2]
  obtain ⟨pushed, hpushed, hkind, hlength⟩ := pushActivities_eq provider
    (items.map normalizeTodoEntry) timestamp timelineCursor _ state
  refine ⟨pushed, ?_, hpushed, hkind⟩
  intro hnil
  rw [hnil] at hlength
  exact h.1 (List.length_eq_zero_iff.mp hlength.symm)

theorem appends_toolCall {item : ToolCallTimelineItem} (timestamp : ℤ)
    (timelineCursor : Option TimelinePosition) {use : ToolCallUse}
    (h : startsToolCall state provider item turnId use = true) :
    ∃ kind, (use ≠ .call → kind ≠ .toolCall) ∧
      Appends kind state (showToolCall state provider item turnId timestamp timelineCursor use) := by
  cases use with
  | nothing => contradiction
  | tasks tasks => exact ⟨.todoList, fun _ => by decide, appends_todo h⟩
  | call =>
    refine ⟨.toolCall, fun hother => absurd rfl hother, ?_⟩
    have hnone : findExistingTimelineIdentityIndex state
        (agentToolCallIdentity (toolCallData provider item).callId turnId) = none :=
      Option.isNone_iff_eq_none.mp h
    simp only [showToolCall, appendAgentToolCall, hnone]
    exact appends_one rfl

/-- An event that starts an item appends, and may mark thoughts as ready. -/
theorem appends_of_starts {item : AgentTimelineItem} {timestamp : ℤ} {source : StreamUpdateSource}
    (reservedItemIds : List String) (timelineCursor : Option TimelinePosition)
    (h : startsItem state provider item turnId timestamp source = true) :
    ∃ kind edited, (calledTool provider item = none → kind ≠ .toolCall) ∧
      Appends kind state edited ∧
      (reduceTimelineEvent state provider item turnId timestamp source reservedItemIds
        timelineCursor = edited ∨
      reduceTimelineEvent state provider item turnId timestamp source reservedItemIds
        timelineCursor = finalizeActiveThoughts edited) := by
  cases item with
  | userMessage => contradiction
  | assistantMessage text messageId =>
    simp only [startsItem, Bool.and_eq_true, decide_eq_true_eq, Option.isNone_iff_eq_none] at h
    obtain ⟨⟨⟨hchunk, hcontent⟩, hlast⟩, hbehind⟩ := h
    refine ⟨.assistantMessage, _, fun _ => by decide, ?_, .inr rfl⟩
    simp only [appendAssistantMessage, if_neg hchunk, hlast, hbehind, hcontent, Bool.not_true,
      Bool.false_eq_true, if_false]
    exact appends_one rfl
  | reasoning text =>
    simp only [startsItem, Bool.and_eq_true, decide_eq_true_eq, Option.isNone_iff_eq_none] at h
    obtain ⟨⟨hchunk, hcontent⟩, hlast⟩ := h
    refine ⟨.thought, appendThought state text timestamp timelineCursor, fun _ => by decide, ?_,
      .inl rfl⟩
    simp only [appendThought, if_neg hchunk, hlast, hcontent, Bool.not_true, Bool.false_eq_true,
      if_false]
    exact appends_one rfl
  | toolCall item =>
    obtain ⟨kind, hkind, happends⟩ := appends_toolCall timestamp timelineCursor h
    refine ⟨kind, _, fun hnone => hkind ?_, happends, .inr ?_⟩
    · intro hcall
      simp only [calledTool, hcall] at hnone
      contradiction
    rw [← reduceTimelineToolCall_eq]
    rfl
  | todo items => exact ⟨.todoList, _, fun _ => by decide, appends_todo h, .inr rfl⟩
  | error message =>
    have hnone := Option.isNone_iff_eq_none.mp h
    refine ⟨.notification, _, fun _ => by decide, ?_, .inr rfl⟩
    simp only [appendNotification, notificationItem, hnone]
    exact appends_one rfl
  | notification level message =>
    have hnone := Option.isNone_iff_eq_none.mp h
    refine ⟨.notification, _, fun _ => by decide, ?_, .inr rfl⟩
    simp only [appendNotification, notificationItem, hnone]
    exact appends_one rfl
  | compaction item =>
    refine ⟨.compaction, _, fun _ => by decide, ?_, .inr rfl⟩
    have hnone : ¬ (item.status = .completed ∧
        (state.findIdx? fun s => s.compaction?.any (·.status == .loading)).isSome) := by
      rintro ⟨hstatus, hloading⟩
      rw [List.findIdx?_isSome] at hloading
      simp [startsItem, hstatus, hloading] at h
    simp only [reduceTimelineCompaction]
    split
    · next index existing stored hfound =>
      split at hfound
      · next hstatus =>
        obtain ⟨found, hfound, -⟩ := Option.bind_eq_some_iff.mp hfound
        exact absurd ⟨hstatus, by rw [hfound]; rfl⟩ hnone
      · contradiction
    · exact appends_one rfl
  | plugin item =>
    have hnone := Option.isNone_iff_eq_none.mp h
    refine ⟨.plugin, _, fun _ => by decide, ?_, .inr rfl⟩
    simp only [appendPluginTimelineItem, hnone]
    exact appends_one rfl

end Orqara.Stream
