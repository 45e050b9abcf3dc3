import Orqara.Stream.ApplyStreamEvent

/-!
# Streamed text

What the assistant says and what it thinks, read off the transcript: the visible
characters of the messages and of the thoughts, in order. Chunks, block splitting
and flushing keep them as long as an item keeps its id to itself.
-/

namespace Orqara.Stream

open Timeline StreamItem

/-- The two kinds of text that arrive in chunks. -/
inductive Voice
  | assistant | thought
  deriving DecidableEq, Repr

/-- The characters other than white space. -/
def visible (s : String) : List Char := s.toList.filter fun c => !isWhiteSpace c

def StreamItemBody.textIn : Voice → StreamItemBody → String
  | Voice.assistant, .assistantMessage message => message.text
  | Voice.thought, .thought said => said.text
  | _, _ => ""

def StreamItem.textIn (voice : Voice) (item : StreamItem) : String := item.body.textIn voice

/-- What the items say in a voice, one after the other. -/
def spoken (voice : Voice) (items : List StreamItem) : List Char :=
  items.flatMap fun item => visible (item.textIn voice)

/-- The chunk an event brings in a voice. -/
def chunkIn (voice : Voice) (event : AgentStreamEventPayload) : String :=
  match voice, event with
  | .assistant, .timeline _ (.assistantMessage text _) _ => text
  | .thought, .timeline _ (.reasoning text) _ => text
  | _, _ => ""

/-! ## Visible characters -/

@[simp] theorem visible_empty : visible "" = [] := rfl

@[simp] theorem visible_append (s t : String) : visible (s ++ t) = visible s ++ visible t := by
  simp [visible]

theorem visible_ofList (cs : List Char) :
    visible (String.ofList cs) = cs.filter fun c => !isWhiteSpace c := by
  simp [visible]

theorem isWhiteSpace_carriageReturn : isWhiteSpace '\r' = true := by decide

theorem visible_normalizeChunk (text : String) :
    visible (normalizeChunk text).chunk = visible text := by
  simp only [normalizeChunk, visible, String.toList_ofList, List.filter_filter]
  apply List.filter_congr
  intro c _
  by_cases hc : c = '\r'
  · simp [hc, isWhiteSpace_carriageReturn]
  · simp [hc]

theorem visible_of_not_hasContent {s : String} (h : hasContent s = false) : visible s = [] := by
  simpa [visible, hasContent] using h

theorem visible_newlines (text : String) : visible (getTrailingNewlineSuffix text) = [] := by
  rw [getTrailingNewlineSuffix, visible_ofList, List.filter_eq_nil_iff]
  intro c hc
  have hnewline : c = '\n' := by simpa using List.mem_takeWhile_imp hc
  rw [hnewline]
  decide

/-! ## Items -/

@[simp] theorem spoken_nil (voice : Voice) : spoken voice [] = [] := rfl

@[simp] theorem spoken_cons (voice : Voice) (item : StreamItem) (items : List StreamItem) :
    spoken voice (item :: items) = visible (item.textIn voice) ++ spoken voice items := rfl

@[simp] theorem spoken_append (voice : Voice) (xs ys : List StreamItem) :
    spoken voice (xs ++ ys) = spoken voice xs ++ spoken voice ys := List.flatMap_append

variable {voice : Voice}

/-- Items that say the same one by one say the same together. -/
theorem spoken_congr {xs ys : List StreamItem} (h : xs.map (fun item => visible (item.textIn voice)) =
      ys.map (fun item => visible (item.textIn voice))) : spoken voice xs = spoken voice ys := by
  rw [spoken, spoken, List.flatMap_def, List.flatMap_def, h]

@[simp] theorem textIn_markThoughtReady (voice : Voice) (item : StreamItem) :
    (markThoughtReady item).textIn voice = item.textIn voice := by
  unfold markThoughtReady
  split
  case h_1 thought hbody =>
    rw [textIn, textIn, hbody]
    cases voice <;> rfl
  case h_2 => rfl

@[simp] theorem spoken_finalizeActiveThoughts (voice : Voice) (items : List StreamItem) :
    spoken voice (finalizeActiveThoughts items) = spoken voice items := by
  apply spoken_congr
  simp [finalizeActiveThoughts]

variable {items : List StreamItem} {item : StreamItem} {message : AssistantMessage}

/-- Replacing an item by one that says the same. -/
theorem spoken_set {index : ℕ} {old new : StreamItem} (hold : items[index]? = some old)
    (h : visible (new.textIn voice) = visible (old.textIn voice)) :
    spoken voice (items.set index new) = spoken voice items := by
  apply spoken_congr
  rw [List.map_set, h]
  apply List.ext_getElem?
  intro i
  by_cases hi : index = i
  · subst hi
    obtain ⟨hlt, hget⟩ := List.getElem?_eq_some_iff.mp hold
    simp [hlt, hget]
  · rw [List.getElem?_set_ne hi]

theorem spoken_dropLast_append {last : StreamItem} (h : items.getLast? = some last) :
    spoken voice items = spoken voice items.dropLast ++ visible (last.textIn voice) := by
  have hsplit : items.dropLast ++ [last] = items := List.dropLast_append_getLast? last h
  conv_lhs => rw [← hsplit]
  simp

section

variable (voice : Voice) {messageId : Option String}

@[simp] theorem spoken_applyTimelineTurnId (items : List StreamItem) (turnId : Option String) :
    spoken voice (applyTimelineTurnId items turnId) = spoken voice items := by
  unfold applyTimelineTurnId
  split
  case h_1 turnId last hturn hlast =>
    rw [spoken_append, spoken_dropLast_append hlast, spoken_cons, spoken_nil, List.append_nil]
    rfl
  case h_2 => rfl

/-! ## Chunks -/

theorem assistant?_eq (h : item.assistant? = some message) : item.body = .assistantMessage message := by
  unfold assistant? at h
  split at h
  case h_1 found hbody => rw [hbody, Option.some.inj h]
  case h_2 => cases h

theorem thought?_eq {thought : Thought} (h : item.thought? = some thought) :
    item.body = .thought thought := by
  unfold thought? at h
  split at h
  case h_1 found hbody => rw [hbody, Option.some.inj h]
  case h_2 => cases h

theorem user?_eq {message : UserMessage} (h : item.user? = some message) :
    item.body = .userMessage message := by
  unfold user? at h
  split at h
  case h_1 found hbody => rw [hbody, Option.some.inj h]
  case h_2 => cases h

theorem toolCall?_eq {data : AgentToolCallData} (h : item.toolCall? = some data) :
    item.body = .toolCall data := by
  unfold toolCall? at h
  split at h
  case h_1 found hbody => rw [hbody, Option.some.inj h]
  case h_2 => cases h

theorem todoList?_eq {list : TodoList} (h : item.todoList? = some list) : item.body = .todoList list := by
  unfold todoList? at h
  split at h
  case h_1 found hbody => rw [hbody, Option.some.inj h]
  case h_2 => cases h

theorem extendsAssistant_eq (h : extendsAssistant messageId item = some message) :
    item.body = .assistantMessage message ∧
      (messageId = none ∨ message.messageId = messageId) := by
  unfold extendsAssistant at h
  obtain ⟨hitem, hid⟩ := Option.filter_eq_some_iff.mp h
  refine ⟨assistant?_eq hitem, ?_⟩
  simpa using hid

/-- The characters an assistant chunk adds to what is said in a voice. -/
def added (voice : Voice) (own : Voice) (text : String) : List Char :=
  if voice = own then visible text else []

theorem spoken_growAssistant (h : item.body = .assistantMessage message) (voice : Voice) (text : String)
    (timestamp : ℤ) (timelineCursor : Option TimelinePosition) :
    visible ((growAssistant item message (normalizeChunk text).chunk timestamp
      timelineCursor).textIn voice) =
      visible (item.textIn voice) ++ added voice .assistant text := by
  have hnew : (growAssistant item message (normalizeChunk text).chunk timestamp
      timelineCursor).body = .assistantMessage
        { message with text := message.text ++ (normalizeChunk text).chunk } := rfl
  rw [textIn, textIn, hnew, h]
  cases voice with
  | assistant => simp [StreamItemBody.textIn, added, visible_normalizeChunk]
  | thought => simp [StreamItemBody.textIn, added]

theorem assistantBehindUser_eq {state : List StreamItem} {source : StreamUpdateSource}
    {secondLast last : StreamItem}
    (h : assistantBehindUser state source messageId = some (secondLast, message, last)) :
    state.getLast? = some last ∧ last.user?.isSome ∧ state.dropLast.getLast? = some secondLast ∧
      extendsAssistant messageId secondLast = some message := by
  unfold assistantBehindUser at h
  simp only [Option.bind_eq_bind, Option.bind_eq_some_iff] at h
  obtain ⟨last', hlast, _, hguard, secondLast', hsecond, message', hmessage, heq⟩ := h
  obtain ⟨rfl, hrest⟩ := Prod.mk.inj (Option.some.inj heq)
  obtain ⟨rfl, rfl⟩ := Prod.mk.inj hrest
  have huser : source = .live ∧ last'.user?.isSome := by
    by_contra hnot
    simp [guard, hnot] at hguard
  exact ⟨hlast, huser.2, hsecond, hmessage⟩

theorem visible_user (h : item.user?.isSome) (voice : Voice) :
    visible (item.textIn voice) = [] := by
  obtain ⟨message, hmessage⟩ := Option.isSome_iff_exists.mp h
  rw [textIn, user?_eq hmessage]
  cases voice <;> rfl

section

variable (state : List StreamItem)

/-- An assistant chunk adds its visible characters to what the assistant says. -/
theorem spoken_appendAssistantMessage (text : String) (timestamp : ℤ) (source : StreamUpdateSource)
    (messageId : Option String) (reservedItemIds : List String) (timelineCursor : Option TimelinePosition) :
    spoken voice (appendAssistantMessage state text timestamp source messageId reservedItemIds
      timelineCursor) = spoken voice state ++ added voice .assistant text := by
  have hempty (h : visible (normalizeChunk text).chunk = []) : added voice .assistant text = [] := by
    rw [visible_normalizeChunk] at h
    simp [added, h]
  unfold appendAssistantMessage
  simp only []
  split
  · next hchunk => rw [hempty (by rw [hchunk]; rfl), List.append_nil]
  split
  · next last message hlast =>
    obtain ⟨item, hget, hmessage⟩ := Option.bind_eq_some_iff.mp hlast
    obtain ⟨found, hextends, heq⟩ := Option.map_eq_some_iff.mp hmessage
    obtain ⟨rfl, rfl⟩ := Prod.mk.inj heq
    rw [spoken_append, spoken_cons, spoken_nil, List.append_nil,
      spoken_growAssistant (extendsAssistant_eq hextends).1, spoken_dropLast_append hget,
      List.append_assoc]
  split
  · next secondLast message last hbehind =>
    obtain ⟨hlast, huser, hsecond, hextends⟩ := assistantBehindUser_eq hbehind
    -- the user row at the end says nothing in either voice
    rw [spoken_append, spoken_cons, spoken_cons, spoken_nil,
      spoken_growAssistant (extendsAssistant_eq hextends).1, spoken_dropLast_append hlast,
      spoken_dropLast_append hsecond, visible_user huser]
    simp
  split
  · next hcontent =>
    have hvisible : visible (normalizeChunk text).chunk = [] :=
      visible_of_not_hasContent (by simpa [normalizeChunk] using hcontent)
    rw [hempty hvisible, List.append_nil]
  · rw [spoken_append, spoken_cons, spoken_nil, List.append_nil]
    cases voice with
    | assistant => simp [textIn, StreamItemBody.textIn, added, visible_normalizeChunk]
    | thought => simp [textIn, StreamItemBody.textIn, added]

/-- A thought chunk adds its visible characters to what is thought. -/
theorem spoken_appendThought (text : String) (timestamp : ℤ) (timelineCursor : Option TimelinePosition) :
    spoken voice (appendThought state text timestamp timelineCursor) =
      spoken voice state ++ added voice .thought text := by
  have hempty (h : visible (normalizeChunk text).chunk = []) : added voice .thought text = [] := by
    rw [visible_normalizeChunk] at h
    simp [added, h]
  unfold appendThought
  simp only []
  split
  · next hchunk => rw [hempty (by rw [hchunk]; rfl), List.append_nil]
  split
  · next last thought hlast =>
    obtain ⟨item, hget, hthought⟩ := Option.bind_eq_some_iff.mp hlast
    obtain ⟨found, hbody, heq⟩ := Option.map_eq_some_iff.mp hthought
    obtain ⟨rfl, rfl⟩ := Prod.mk.inj heq
    rw [spoken_append, spoken_dropLast_append hget, spoken_cons, spoken_nil, List.append_nil,
      List.append_assoc]
    congr 1
    rw [textIn, textIn, thought?_eq hbody]
    cases voice with
    | assistant => simp [StreamItemBody.textIn, added]
    | thought => simp [StreamItemBody.textIn, added, visible_normalizeChunk]
  split
  · next hcontent =>
    have hvisible : visible (normalizeChunk text).chunk = [] :=
      visible_of_not_hasContent (by simpa [normalizeChunk] using hcontent)
    rw [hempty hvisible, List.append_nil]
  · rw [spoken_append, spoken_cons, spoken_nil, List.append_nil]
    cases voice with
    | assistant => simp [textIn, StreamItemBody.textIn, added]
    | thought => simp [textIn, StreamItemBody.textIn, added, visible_normalizeChunk]

/-! ## Tool calls and task lists -/

/-- An item that says nothing in either voice. -/
def StreamItem.Silent (item : StreamItem) : Prop := ∀ voice, item.textIn voice = ""

theorem silent_of_toolCall {data : AgentToolCallData} (h : item.body = .toolCall data) : item.Silent := by
  intro voice
  rw [textIn, h]
  cases voice <;> rfl

theorem silent_of_todoList {list : TodoList} (h : item.body = .todoList list) : item.Silent := by
  intro voice
  rw [textIn, h]
  cases voice <;> rfl

theorem StreamItem.Silent.spoken_append (h : item.Silent) (voice : Voice) (state : List StreamItem) :
    spoken voice (state ++ [item]) = spoken voice state := by
  simp [h voice]

theorem StreamItem.Silent.spoken_set {old new : StreamItem} (hold : old.Silent) (hnew : new.Silent)
    {index : ℕ} (hget : items[index]? = some old) (voice : Voice) :
    spoken voice (items.set index new) = spoken voice items :=
  Stream.spoken_set hget (by rw [hold voice, hnew voice])

theorem spoken_appendAgentToolCall (data : AgentToolCallData) (timestamp : ℤ) (turnId : Option String)
    (timelineCursor : Option TimelinePosition) :
    spoken voice (appendAgentToolCall state data timestamp turnId timelineCursor) =
      spoken voice state := by
  unfold appendAgentToolCall
  simp only []
  split
  · next index hindex =>
    split
    · rfl
    · next existing stored hstored =>
      obtain ⟨item, hget, hdata⟩ := Option.bind_eq_some_iff.mp hstored
      obtain ⟨found, hbody, heq⟩ := Option.map_eq_some_iff.mp hdata
      obtain ⟨rfl, rfl⟩ := Prod.mk.inj heq
      split
      · rfl
      · exact (silent_of_toolCall (toolCall?_eq hbody)).spoken_set (silent_of_toolCall rfl) hget
          voice
  · exact (silent_of_toolCall rfl).spoken_append voice state

section

variable (provider : String)

theorem spoken_pushActivities (items : List TodoEntry) (timestamp : ℤ)
    (timelineCursor : Option TimelinePosition) (activities : List TaskActivity) :
    ∀ state : List StreamItem,
      spoken voice (activities.foldl (fun next activity =>
        next ++ [todoItem next provider items timestamp timelineCursor activity]) state) =
        spoken voice state := by
  induction activities with
  | nil => exact fun state => rfl
  | cons activity activities ih =>
    intro state
    rw [List.foldl_cons, ih]
    exact (silent_of_todoList rfl).spoken_append voice state

theorem spoken_appendTodoList (items : List TodoEntry) (timestamp : ℤ)
    (timelineCursor : Option TimelinePosition) :
    spoken voice (appendTodoList state provider items timestamp timelineCursor) =
      spoken voice state := by
  unfold appendTodoList
  simp only []
  split
  · split
    · rfl
    · next index item list hprevious =>
      obtain ⟨i, hi, hitem⟩ := Option.bind_eq_some_iff.mp hprevious
      obtain ⟨found, hget, hlist⟩ := Option.bind_eq_some_iff.mp hitem
      obtain ⟨stored, hbody, heq⟩ := Option.map_eq_some_iff.mp hlist
      obtain ⟨rfl, hrest⟩ := Prod.mk.inj heq
      obtain ⟨rfl, rfl⟩ := Prod.mk.inj hrest
      exact (silent_of_todoList (todoList?_eq hbody)).spoken_set (silent_of_todoList rfl) hget voice
  · split
    · next last list hlast =>
      obtain ⟨item, hget, hlist⟩ := Option.bind_eq_some_iff.mp hlast
      obtain ⟨stored, hbody, heq⟩ := Option.map_eq_some_iff.mp hlist
      obtain ⟨rfl, rfl⟩ := Prod.mk.inj heq
      have hold := silent_of_todoList (todoList?_eq (Option.filter_eq_some_iff.mp hbody).1)
      rw [(silent_of_todoList rfl).spoken_append, spoken_dropLast_append hget, hold voice,
        visible_empty, List.append_nil]
    · exact spoken_pushActivities voice provider _ timestamp timelineCursor _ state

theorem spoken_reduceTimelineToolCall (item : ToolCallTimelineItem)
    (turnId : Option String) (timestamp : ℤ) (timelineCursor : Option TimelinePosition) :
    spoken voice (reduceTimelineToolCall state provider item turnId timestamp timelineCursor) =
      spoken voice state := by
  unfold reduceTimelineToolCall
  simp only []
  split
  · rfl
  split
  · split
    · rfl
    · exact spoken_appendTodoList ..
  split
  · rfl
  split
  · exact spoken_appendTodoList ..
  · exact spoken_appendAgentToolCall ..

end

end

end

end Orqara.Stream
