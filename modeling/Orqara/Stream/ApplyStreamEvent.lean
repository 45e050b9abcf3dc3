import Orqara.Library.Fallible
import Orqara.Stream.StreamReducer

/-!
# Head and tail

A transcript is a tail of committed items and a head of items that still grow.
Chunks go to the head; completed markdown blocks of the growing message and,
when something else arrives, the whole head move to the tail.

Where the source compares lists with `!==` the values are compared here: a list
that is replaced by an equal one counts as unchanged.
-/

namespace Orqara.Stream

open Timeline

/-! ## Markdown blocks -/

/-- The `map`s of the level-0 tokens that `MarkdownIt.parse` finds in a text. -/
abbrev MarkdownParser := String → List (ℕ × ℕ)

structure SplitState where
  blocks : List (List Char)
  currentLines : List (List Char)
  sawBlockSeparator : Bool
  deriving DecidableEq

def joinLines (lines : List (List Char)) : List Char := List.intercalate ['\n'] lines

def isBlankLine (line : List Char) : Bool := line.all isWhiteSpace

/-- Whether a blank line lies inside a token, before its last line. -/
def structuralBlankLine (maps : List (ℕ × ℕ)) (index : ℕ) : Bool :=
  maps.any fun (start, stop) => start ≤ index && index + 1 < stop

def SplitState.line (state : SplitState) (structural : Bool) (line : List Char) : SplitState :=
  if isBlankLine line then
    if structural then { state with currentLines := state.currentLines ++ [line] }
    else if state.currentLines ≠ [] then { state with sawBlockSeparator := true }
    else state
  else if state.sawBlockSeparator then
    { blocks := state.blocks ++ [joinLines state.currentLines], currentLines := [line]
      sawBlockSeparator := false }
  else { state with currentLines := state.currentLines ++ [line] }

def SplitState.finish (state : SplitState) : List (List Char) :=
  if state.currentLines ≠ [] then state.blocks ++ [joinLines state.currentLines] else state.blocks

def splitMarkdownBlocks (parse : MarkdownParser) (text : String) : List String :=
  if text = "" then []
  else
    let state := (text.toList.splitOn '\n').zipIdx.foldl
      (fun (state : SplitState) (line, index) =>
        state.line (structuralBlankLine (parse text) index) line)
      { blocks := [], currentLines := [], sawBlockSeparator := false }
    (state.finish.filter (· ≠ [])).map String.ofList

/-! ## Flushing and promoting -/

inductive StreamItemKind
  | userMessage | assistantMessage | thought | toolCall | todoList | notification | compaction
  | plugin
  deriving DecidableEq, Repr

def StreamItem.kind (item : StreamItem) : StreamItemKind :=
  match item.body with
  | .userMessage _ => .userMessage
  | .assistantMessage _ => .assistantMessage
  | .thought _ => .thought
  | .toolCall _ => .toolCall
  | .todoList _ => .todoList
  | .notification _ => .notification
  | .compaction _ => .compaction
  | .plugin _ => .plugin

def isStreamableKind : StreamItemKind → Bool
  | .assistantMessage | .thought => true
  | _ => false

/-- `finalizeHeadItems` marks the thoughts of the head as `finalizeActiveThoughts` does. -/
def flushHeadToTail (tail head : List StreamItem) : List StreamItem :=
  tail ++ (finalizeActiveThoughts head).filter fun item => !(tail.map (·.id)).contains item.id

def createAssistantBlockId (groupId : String) (blockIndex : ℕ) : String :=
  groupId ++ ":block:" ++ toString blockIndex

def getTrailingNewlineSuffix (text : String) : String :=
  String.ofList (text.toList.reverse.takeWhile (· = '\n'))

def getActiveAssistantHeadIndex (head : List StreamItem) : Option ℕ :=
  findLastIdx? (fun item => item.assistant?.isSome) head

structure Lanes where
  tail : List StreamItem
  head : List StreamItem
  changedTail : Bool
  changedHead : Bool
  deriving DecidableEq

/-- Lanes that nothing has changed yet. -/
def Lanes.start (tail head : List StreamItem) : Lanes where
  tail := tail
  head := head
  changedTail := false
  changedHead := false

def Lanes.setTail (lanes : Lanes) (tail : List StreamItem) : Lanes :=
  { lanes with tail, changedTail := lanes.changedTail || decide (tail ≠ lanes.tail) }

def Lanes.setHead (lanes : Lanes) (head : List StreamItem) : Lanes :=
  { lanes with head, changedHead := lanes.changedHead || decide (head ≠ lanes.head) }

/-- The block of a growing message at an offset from its first one. -/
def assistantBlock (item : StreamItem) (message : AssistantMessage) (offset : ℕ) (text : String) :
    StreamItem :=
  let blockGroupId := message.blockGroupId.getD item.id
  let blockIndex := message.blockIndex.getD 0 + offset
  { item with
    id := createAssistantBlockId blockGroupId blockIndex
    body := .assistantMessage
      { message with text, blockGroupId := some blockGroupId, blockIndex := some blockIndex } }

def promotedItems (item : StreamItem) (message : AssistantMessage) (completedBlocks : List String) :
    List StreamItem :=
  completedBlocks.zipIdx.map fun (block, offset) => assistantBlock item message offset block

/-- The assistant message that chunks extend, with its index in the head. -/
def activeAssistant (head : List StreamItem) : Option (ℕ × StreamItem × AssistantMessage) := do
  let index ← getActiveAssistantHeadIndex head
  let item ← head[index]?
  let message ← item.assistant?
  return (index, item, message)

/-- The blocks of the growing message that are complete: all but the last. -/
def completedBlocks (parse : MarkdownParser) (head : List StreamItem) : List StreamItem :=
  (activeAssistant head).elim [] fun (_, item, message) =>
    promotedItems item message (splitMarkdownBlocks parse message.text).dropLast

/-- What is left of the growing message. -/
def liveItem (item : StreamItem) (message : AssistantMessage) (blocks : List String) : StreamItem :=
  assistantBlock item message blocks.dropLast.length
    (blocks.getLast?.getD "" ++ getTrailingNewlineSuffix message.text)

def promoteCompletedAssistantBlocks (parse : MarkdownParser) (lanes : Lanes) : Lanes :=
  match activeAssistant lanes.head with
  | none => lanes
  | some (index, item, message) =>
    let blocks := splitMarkdownBlocks parse message.text
    if blocks.length < 2 then lanes
    else
      { lanes.setTail (flushHeadToTail lanes.tail (completedBlocks parse lanes.head)) with
        head := lanes.head.set index (liveItem item message blocks), changedHead := true }

def Lanes.flushHead (lanes : Lanes) : Lanes :=
  if lanes.head = [] then lanes
  else { lanes.setTail (flushHeadToTail lanes.tail lanes.head) with head := [], changedHead := true }

/-- A `compaction` item has no kind here. -/
def getEventItemKind : AgentStreamEventPayload → Option StreamItemKind
  | .timeline _ item _ =>
    match item with
    | .userMessage .. => some .userMessage
    | .assistantMessage .. => some .assistantMessage
    | .reasoning _ => some .thought
    | .toolCall _ => some .toolCall
    | .todo _ => some .todoList
    | .error _ | .notification .. => some .notification
    | .plugin _ => some .plugin
    | .compaction _ => none
  | _ => none

def getIncomingAssistantMessageId : AgentStreamEventPayload → Option String
  | .timeline _ (.assistantMessage _ messageId) _ => messageId
  | _ => none

def shouldFlushHead (head : List StreamItem) (event : AgentStreamEventPayload) : Bool :=
  match head, getEventItemKind event with
  | [], _ | _, none => false
  | head, some incomingKind =>
    if !isStreamableKind incomingKind then true
    else
      match head.reverse.find? fun item => isStreamableKind item.kind with
      | none => true
      | some lastStreamable =>
        if lastStreamable.kind ≠ incomingKind then true
        else
          match lastStreamable.assistant? with
          | some message =>
            let incomingMessageId := getIncomingAssistantMessageId event
            incomingMessageId.isSome && message.messageId != incomingMessageId
          | none => false

def getTailAssistantToResume (lanes : Lanes) (event : AgentStreamEventPayload) :
    Option StreamItem :=
  if getEventItemKind event = some .assistantMessage ∧ lanes.head = [] then
    lanes.tail.getLast?.filter fun item =>
      (extendsAssistant (getIncomingAssistantMessageId event) item).isSome
  else none

def Lanes.resume (lanes : Lanes) (item : StreamItem) : Lanes where
  tail := lanes.tail.dropLast
  head := [item]
  changedTail := true
  changedHead := true

def isCompletionEvent : AgentStreamEventPayload → Bool
  | .turnCompleted | .turnFailed | .turnCanceled => true
  | _ => false

/-- The ids that a new assistant item in the head must not take. -/
def reservedIds (lanes : Lanes) (kind : StreamItemKind) : List String :=
  if kind = .assistantMessage ∧ getActiveAssistantHeadIndex lanes.head = none then
    lanes.tail.flatMap fun item =>
      match item.assistant?.bind fun message => nonEmpty message.blockGroupId with
      | some blockGroupId => [item.id, blockGroupId]
      | none => [item.id]
  else []

/-! ## User messages -/

structure UserMessageItem extends UserMessage where
  id : String
  turnId : Option String
  timelineCursor : Option TimelinePosition
  timestamp : ℤ
  deriving DecidableEq

def UserMessageItem.toItem (item : UserMessageItem) : StreamItem where
  id := item.id
  timelineCursor := item.timelineCursor
  turnId := item.turnId
  timestamp := item.timestamp
  body := .userMessage item.toUserMessage

def StreamItem.userItem? (item : StreamItem) : Option UserMessageItem :=
  item.user?.map fun message =>
    { message with
      id := item.id, turnId := item.turnId, timelineCursor := item.timelineCursor
      timestamp := item.timestamp }

/-- `id` is the first of the ids that is present; an empty one is no identity. -/
def createUserMessage (id : Option String) (input : UserMessageItem) :
    Except String UserMessageItem :=
  match nonEmpty (id <|> input.clientMessageId <|> input.messageId) with
  | none => .error "User message identity is required"
  | some id =>
    .ok { input with
      id, clientMessageId := nonEmpty input.clientMessageId
      messageId := nonEmpty input.messageId, turnId := nonEmpty input.turnId }

def matchesLegacyCanonicalUserMessage (submitted canonical : UserMessage) : Bool :=
  if submitted.clientMessageId = none ∨ submitted.messageId ≠ none then false
  else if canonical.messageId = none then false
  else canonical.messageId == submitted.clientMessageId || canonical.text == submitted.text

inductive UserMessageMatchPolicy
  | canonicalIncoming | handoff
  deriving DecidableEq, Repr

def matchesUserMessage (existing incoming : UserMessage) (policy : UserMessageMatchPolicy) :
    Bool :=
  if truthy existing.clientMessageId && truthy incoming.clientMessageId then
    existing.clientMessageId == incoming.clientMessageId
  else if truthy existing.messageId && truthy incoming.messageId then
    existing.messageId == incoming.messageId
  else if matchesLegacyCanonicalUserMessage existing incoming then true
  else policy == .handoff && matchesLegacyCanonicalUserMessage incoming existing

inductive UserMessagePresentationPolicy
  | existing | incoming
  deriving DecidableEq, Repr

structure UserMessageProductionResult where
  items : List StreamItem
  index : Option ℕ
  message : UserMessageItem
  matched : Bool

def mergeUserMessage (existing incoming : UserMessageItem)
    (presentationPolicy : UserMessagePresentationPolicy) : Except String UserMessageItem :=
  let presentation := if presentationPolicy = .incoming then incoming else existing
  createUserMessage (some presentation.id)
    { presentation with
      clientMessageId := incoming.clientMessageId <|> existing.clientMessageId
      messageId := incoming.messageId <|> existing.messageId
      timelineCursor := incoming.timelineCursor <|> existing.timelineCursor }

/-- The comparison leaves the turn out, so an item that differs in nothing else stays. -/
def sameUserMessage (existing merged : UserMessageItem) : Bool :=
  existing = { merged with turnId := existing.turnId }

def produceUserMessage (items : List StreamItem) (incoming : UserMessageItem)
    (insertAt : Option ℕ) (presentationPolicy : UserMessagePresentationPolicy)
    (matchPolicy : UserMessageMatchPolicy) : Except String UserMessageProductionResult :=
  let found := (items.findIdx? fun item => item.user?.any fun existing =>
      matchesUserMessage existing incoming.toUserMessage matchPolicy).bind fun index =>
    items[index]?.bind fun item => item.userItem?.map fun existing => (index, existing)
  match found with
  | none =>
    match insertAt with
    | none => .ok { items, index := none, message := incoming, matched := false }
    | some insertAt =>
      .ok
        { items := items.take insertAt ++ incoming.toItem :: items.drop insertAt
          index := some insertAt, message := incoming, matched := false }
  | some (index, existing) => do
    let merged ← mergeUserMessage existing incoming presentationPolicy
    if sameUserMessage existing merged then
      return { items, index := some index, message := existing, matched := true }
    return { items := items.set index merged.toItem, index := some index, message := merged,
             matched := true }

structure ApplyStreamEventResult extends Lanes where
  acknowledgedClientMessageIds : List String
  deriving DecidableEq

inductive UserMessageInsert
  | tail | head | prependTail | none
  deriving DecidableEq, Repr

structure UserMessageStreamUpsertResult where
  lanes : Lanes
  /-- The message that was matched or inserted, and whether it was matched. -/
  location : Option (UserMessageItem × Bool)

def upsertUserMessageAcrossStream (tail head : List StreamItem) (message : UserMessageItem)
    (insert : UserMessageInsert) (presentation : UserMessagePresentationPolicy)
    (matchPolicy : UserMessageMatchPolicy) : Except String UserMessageStreamUpsertResult := do
  let start := Lanes.start tail head
  let tailResult ← produceUserMessage tail message .none presentation matchPolicy
  if tailResult.matched then
    return { lanes := start.setTail tailResult.items, location := some (tailResult.message, true) }
  let headResult ← produceUserMessage head message .none presentation matchPolicy
  if headResult.matched then
    return { lanes := start.setHead headResult.items, location := some (headResult.message, true) }
  match insert with
  | .none => return { lanes := start, location := .none }
  | .head =>
    let inserted ← produceUserMessage head message (some head.length) presentation matchPolicy
    return { lanes := start.setHead inserted.items, location := some (inserted.message, false) }
  | .tail | .prependTail =>
    let inserted ← produceUserMessage tail message
      (some (if insert = .prependTail then 0 else tail.length)) presentation matchPolicy
    return { lanes := start.setTail inserted.items, location := some (inserted.message, false) }

structure PlacedUserMessage where
  items : List StreamItem
  message : UserMessageItem
  matched : Bool

def placeCanonicalUserMessageAtTail (tail : List StreamItem) (message : UserMessageItem)
    (insertWhenUnmatched : Bool) : Except String PlacedUserMessage := do
  let produced ← produceUserMessage tail message none .existing .canonicalIncoming
  if !produced.matched && !insertWhenUnmatched then
    return { items := produced.items, message := produced.message, matched := false }
  let preceding := produced.index.elim produced.items produced.items.eraseIdx
  return { items := preceding ++ [produced.message.toItem], message := produced.message,
           matched := produced.matched }

/-- A canonical user row decides the turn it belongs to. -/
def reconcileCanonicalUserTurnMembership (items : List StreamItem) (clientMessageId : Option String)
    (turnId : Option String) : List StreamItem :=
  match nonEmpty clientMessageId with
  | none => items
  | some clientMessageId =>
    match items.findIdx? fun item => item.user?.any (·.clientMessageId == some clientMessageId) with
    | none => items
    | some index => items.modify index fun item => { item with turnId := nonEmpty turnId }

def acknowledged (message : UserMessageItem) (matched : Bool) : List String :=
  if matched then (nonEmpty message.clientMessageId).toList else []

def applyCanonicalUserMessageEvent (tail head : List StreamItem) (text : String)
    (messageId clientMessageId turnId : Option String) (timestamp : ℤ)
    (timelineCursor : Option TimelinePosition) (unmatchedInsert : UserMessageInsert) :
    Except String ApplyStreamEventResult := do
  let normalized := normalizeChunk text
  let canonical ← createUserMessage
    (some (messageId.getD
      (createUniqueTimelineId (tail ++ head) "user" (trim normalized.chunk) timestamp)))
    { id := "", messageId, clientMessageId, turnId, timelineCursor, text := normalized.chunk
      timestamp, images := [], attachments := [] }
  if unmatchedInsert = .head then
    let reconciled ← upsertUserMessageAcrossStream tail head canonical
      (if normalized.hasContent then .head else .none) .existing .canonicalIncoming
    let lanes := reconciled.lanes
    let lanes := lanes.setTail
      (reconcileCanonicalUserTurnMembership lanes.tail canonical.clientMessageId turnId)
    let lanes := lanes.setHead
      (reconcileCanonicalUserTurnMembership lanes.head canonical.clientMessageId turnId)
    return { lanes with
      acknowledgedClientMessageIds :=
        reconciled.location.elim [] fun (message, matched) => acknowledged message matched }
  let flushed := (Lanes.start tail head).flushHead
  let placed ← placeCanonicalUserMessageAtTail flushed.tail canonical normalized.hasContent
  let lanes := flushed.setTail
    (reconcileCanonicalUserTurnMembership placed.items canonical.clientMessageId turnId)
  return { lanes with
    acknowledgedClientMessageIds := acknowledged placed.message placed.matched }

/-! ## Applying an event -/

def flushedLanes (tail head : List StreamItem) (event : AgentStreamEventPayload) : Lanes :=
  if shouldFlushHead head event then (Lanes.start tail head).flushHead else Lanes.start tail head

/-- The lanes once it is decided whether the event moves the head, or brings back the
message at the end of the tail. -/
def decidedLanes (tail head : List StreamItem) (event : AgentStreamEventPayload) : Lanes :=
  let flushed := flushedLanes tail head event
  (getTailAssistantToResume flushed event).elim flushed flushed.resume

/-- A chunk grows the head. -/
def grownLanes (lanes : Lanes) (kind : StreamItemKind) (event : AgentStreamEventPayload)
    (timestamp : ℤ) (source : StreamUpdateSource) (timelineCursor : Option TimelinePosition) :
    Lanes :=
  lanes.setHead
    (reduceStreamUpdate lanes.head event timestamp source (reservedIds lanes kind) timelineCursor)

def applyToHead (parse : MarkdownParser) (lanes : Lanes) (kind : StreamItemKind)
    (event : AgentStreamEventPayload) (timestamp : ℤ) (source : StreamUpdateSource)
    (timelineCursor : Option TimelinePosition) : Lanes :=
  let grown := grownLanes lanes kind event timestamp source timelineCursor
  if kind = .assistantMessage then promoteCompletedAssistantBlocks parse grown else grown

def applyToLanes (parse : MarkdownParser) (lanes : Lanes) (event : AgentStreamEventPayload)
    (timestamp : ℤ) (source : StreamUpdateSource) (timelineCursor : Option TimelinePosition) :
    Lanes :=
  match (getEventItemKind event).filter isStreamableKind with
  | some kind => applyToHead parse lanes kind event timestamp source timelineCursor
  | none =>
    lanes.setTail (reduceStreamUpdate lanes.tail event timestamp source [] timelineCursor)

def applyCompletionToTail (tail : List StreamItem) (event : AgentStreamEventPayload)
    (timestamp : ℤ) (source : StreamUpdateSource) : List StreamItem :=
  reduceStreamUpdate (finalizeActiveThoughts tail) event timestamp source [] none

def applyOtherEvent (parse : MarkdownParser) (tail head : List StreamItem)
    (event : AgentStreamEventPayload) (timestamp : ℤ) (source : StreamUpdateSource)
    (timelineCursor : Option TimelinePosition) : Lanes :=
  if isCompletionEvent event then
    let flushed := (Lanes.start tail head).flushHead
    flushed.setTail (applyCompletionToTail flushed.tail event timestamp source)
  else
    applyToLanes parse (decidedLanes tail head event) event timestamp source timelineCursor

/-- An event that throws is `.error` with the message. -/
def applyStreamEvent (parse : MarkdownParser) (tail head : List StreamItem)
    (event : AgentStreamEventPayload) (timestamp : ℤ) (source : StreamUpdateSource)
    (timelineCursor : Option TimelinePosition) (unmatchedUserMessageInsert : UserMessageInsert) :
    Except String ApplyStreamEventResult :=
  match event with
  | .timeline _ (.userMessage text messageId clientMessageId) turnId =>
    applyCanonicalUserMessageEvent tail head text messageId clientMessageId turnId timestamp
      timelineCursor unmatchedUserMessageInsert
  | event =>
    .ok { applyOtherEvent parse tail head event timestamp source timelineCursor with
      acknowledgedClientMessageIds := [] }

/-! ## Lanes that count as unchanged -/

/-- A lane that does not count as changed is as it was. -/
structure Marks (tail head : List StreamItem) (lanes : Lanes) : Prop where
  tail : lanes.changedTail = false → lanes.tail = tail
  head : lanes.changedHead = false → lanes.head = head

section Marks

variable {tail head : List StreamItem} {lanes : Lanes} {timelineCursor : Option TimelinePosition}
  {unmatchedInsert : UserMessageInsert} {result : ApplyStreamEventResult}

theorem Marks.start : Marks tail head (Lanes.start tail head) := ⟨fun _ => rfl, fun _ => rfl⟩

section

variable (h : Marks tail head lanes)
include h

section

variable (items : List StreamItem)
include items

theorem Marks.setTail :
    Marks tail head (lanes.setTail items) := by
  refine ⟨?_, h.head⟩
  intro hchanged
  obtain ⟨hbefore, hsame⟩ := Bool.or_eq_false_iff.mp hchanged
  have hitems : items = lanes.tail := by simpa using hsame
  exact hitems.trans (h.tail hbefore)

theorem Marks.setHead :
    Marks tail head (lanes.setHead items) := by
  refine ⟨h.tail, ?_⟩
  intro hchanged
  obtain ⟨hbefore, hsame⟩ := Bool.or_eq_false_iff.mp hchanged
  have hitems : items = lanes.head := by simpa using hsame
  exact hitems.trans (h.head hbefore)

/-- The head may be replaced by anything if it is counted as changed. -/
theorem Marks.headChanged :
    Marks tail head { lanes with head := items, changedHead := true } :=
  ⟨h.tail, fun hchanged => Bool.noConfusion hchanged⟩

end

theorem Marks.flushHead : Marks tail head lanes.flushHead := by
  unfold Lanes.flushHead
  split
  · exact h
  · exact (h.setTail _).headChanged []

omit h in
theorem Marks.resume (item : StreamItem) : Marks tail head (lanes.resume item) :=
  ⟨fun hchanged => Bool.noConfusion hchanged, fun hchanged => Bool.noConfusion hchanged⟩

theorem Marks.promote (parse : MarkdownParser) :
    Marks tail head (promoteCompletedAssistantBlocks parse lanes) := by
  unfold promoteCompletedAssistantBlocks
  split
  · exact h
  · dsimp only
    split
    · exact h
    · exact (h.setTail _).headChanged _

omit h in
theorem marks_decidedLanes (event : AgentStreamEventPayload) :
    Marks tail head (decidedLanes tail head event) := by
  have hflushed : Marks tail head (flushedLanes tail head event) := by
    unfold flushedLanes
    split
    · exact Marks.start.flushHead
    · exact Marks.start
  unfold decidedLanes
  dsimp only
  cases getTailAssistantToResume (flushedLanes tail head event) event with
  | none => exact hflushed
  | some item => exact Marks.resume item

theorem Marks.applyToLanes (parse : MarkdownParser) (event : AgentStreamEventPayload) (timestamp : ℤ)
    (source : StreamUpdateSource) (timelineCursor : Option TimelinePosition) :
    Marks tail head (applyToLanes parse lanes event timestamp source timelineCursor) := by
  unfold Stream.applyToLanes
  split
  · unfold applyToHead grownLanes
    dsimp only
    split
    · exact (h.setHead _).promote parse
    · exact h.setHead _
  · exact h.setTail _

end

theorem marks_applyOtherEvent (parse : MarkdownParser) (event : AgentStreamEventPayload)
    (timestamp : ℤ) (source : StreamUpdateSource) (timelineCursor : Option TimelinePosition) :
    Marks tail head (applyOtherEvent parse tail head event timestamp source timelineCursor) := by
  unfold applyOtherEvent
  split
  · exact Marks.start.flushHead.setTail _
  · exact (marks_decidedLanes event).applyToLanes parse event timestamp source timelineCursor

/-- Matching a message somewhere in the lanes, or inserting it, sets one of them. -/
theorem marks_upsertUserMessageAcrossStream {message : UserMessageItem}
    {insert : UserMessageInsert} {presentation : UserMessagePresentationPolicy}
    {matchPolicy : UserMessageMatchPolicy} {result : UserMessageStreamUpsertResult}
    (h : upsertUserMessageAcrossStream tail head message insert presentation matchPolicy =
      .ok result) : Marks tail head result.lanes := by
  unfold upsertUserMessageAcrossStream at h
  obtain ⟨tailResult, _, h⟩ := bind_eq_ok.mp h
  by_cases htail : tailResult.matched = true
  · simp only [htail, if_true] at h
    obtain rfl := Except.ok.inj h
    exact Marks.start.setTail _
  · simp only [htail] at h
    obtain ⟨headResult, _, h⟩ := bind_eq_ok.mp h
    by_cases hhead : headResult.matched = true
    · simp only [hhead, if_true] at h
      obtain rfl := Except.ok.inj h
      exact Marks.start.setHead _
    · simp only [hhead] at h
      cases insert with
      | none =>
        obtain rfl := Except.ok.inj h
        exact Marks.start
      | head =>
        obtain ⟨inserted, _, h⟩ := bind_eq_ok.mp h
        obtain rfl := Except.ok.inj h
        exact Marks.start.setHead _
      | tail =>
        obtain ⟨inserted, _, h⟩ := bind_eq_ok.mp h
        obtain rfl := Except.ok.inj h
        exact Marks.start.setTail _
      | prependTail =>
        obtain ⟨inserted, _, h⟩ := bind_eq_ok.mp h
        obtain rfl := Except.ok.inj h
        exact Marks.start.setTail _

theorem marks_applyCanonicalUserMessageEvent {text : String}
    {messageId clientMessageId turnId : Option String} {timestamp : ℤ}
    (h : applyCanonicalUserMessageEvent tail head text messageId clientMessageId turnId timestamp
      timelineCursor unmatchedInsert = .ok result) : Marks tail head result.toLanes := by
  unfold applyCanonicalUserMessageEvent at h
  obtain ⟨canonical, _, h⟩ := bind_eq_ok.mp h
  by_cases hinsert : unmatchedInsert = .head
  · simp only [hinsert, if_true] at h
    obtain ⟨reconciled, hreconciled, h⟩ := bind_eq_ok.mp h
    obtain rfl := Except.ok.inj h
    exact ((marks_upsertUserMessageAcrossStream hreconciled).setTail _).setHead _
  · simp only [hinsert, if_false] at h
    obtain ⟨placed, _, h⟩ := bind_eq_ok.mp h
    obtain rfl := Except.ok.inj h
    exact Marks.start.flushHead.setTail _

/-- A lane that an event does not count as changed is as it was before the event. -/
theorem marks_applyStreamEvent {parse : MarkdownParser} {event : AgentStreamEventPayload} {timestamp : ℤ}
    {source : StreamUpdateSource}
    (h : applyStreamEvent parse tail head event timestamp source timelineCursor unmatchedInsert =
      .ok result) : Marks tail head result.toLanes := by
  unfold applyStreamEvent at h
  split at h
  · exact marks_applyCanonicalUserMessageEvent h
  · obtain rfl := Except.ok.inj h
    exact marks_applyOtherEvent parse event timestamp source timelineCursor

end Marks

end Orqara.Stream
