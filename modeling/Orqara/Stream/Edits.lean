import Orqara.Stream.HeadToTail

/-!
# What one event does to a list

Whatever an event is, it leaves a list of items as it was, changes one item in its place, or appends
items. What is said of the items of a run is read off these three ways.
-/

namespace Orqara.Stream

open Timeline List Option

/-- The group of the blocks that a message was split into. -/
def StreamItem.blockGroup (item : StreamItem) : Option String :=
  item.assistant?.bind (·.blockGroupId)

/-- An item in the place of another one, with its id, its turn, its kind and its group. -/
structure SameItem (old new : StreamItem) : Prop where
  id : new.id = old.id
  turnId : new.turnId = old.turnId
  kind : new.kind = old.kind
  group : new.blockGroup = old.blockGroup

variable {item : StreamItem} {last : StreamItem}

theorem blockGroup_of_kind (h : item.kind ≠ .assistantMessage) :
    item.blockGroup = none := by
  have hnone : item.assistant? = none := by
    apply not_isSome_iff_eq_none.mp
    rwa [assistant?_isSome_iff]
  rw [StreamItem.blockGroup, hnone]
  rfl

theorem sameItem_of_kind {old new : StreamItem} {kind : StreamItemKind} (hid : new.id = old.id)
    (hturn : new.turnId = old.turnId) (hold : old.kind = kind) (hnew : new.kind = kind)
    (hother : kind ≠ .assistantMessage) : SameItem old new := by
  refine ⟨hid, hturn, hnew.trans hold.symm, ?_⟩
  rw [blockGroup_of_kind (hnew ▸ hother), blockGroup_of_kind (hold ▸ hother)]

/-- What an event whose items are of a kind makes of a list. -/
inductive Edit (kind : StreamItemKind) (replaces : StreamItem → Prop) (state : List StreamItem) :
    List StreamItem → Prop
  | keep : Edit kind replaces state state
  | update {index : ℕ} {old new : StreamItem} (hold : state[index]? = some old)
      (hkind : old.kind = kind) (hsame : SameItem old new) :
      Edit kind replaces state (state.set index new)
  /-- a new item takes the place and the id of an old one -/
  | replace {index : ℕ} {old new : StreamItem} (hold : state[index]? = some old)
      (hkind : new.kind = kind) (hid : new.id = old.id) (hreplaces : replaces old) :
      Edit kind replaces state (state.set index new)
  | append {items : List StreamItem} (hkind : ∀ new ∈ items, new.kind = kind) :
      Edit kind replaces state (state ++ items)

/-- Whether an event replaces an item: a plugin item by the next of its identity, and any item by a
notification that is given its id. -/
def replacedBy (state : List StreamItem) (item : AgentTimelineItem) (timestamp : ℤ)
    (old : StreamItem) : Bool :=
  match item with
  | .plugin item =>
    old.kind == .plugin && streamTimelineItemIdentity old == some (item.pluginId ++ "/" ++ item.id)
  | .error message => old.id == createUniqueTimelineId state "error" message timestamp
  | .notification _ message =>
    old.id == createUniqueTimelineId state "notification" message timestamp
  | _ => false

variable {state : List StreamItem} {kind : StreamItemKind} {replaces : StreamItem → Prop}

/-- What is read off the items one by one does not see an item replaced by one that reads the same. -/
theorem filterMap_set_same {α β : Type*} {f : α → Option β} {items : List α} {index : ℕ}
    {old new : α} (hold : items[index]? = some old) (h : f new = f old) :
    (items.set index new).filterMap f = items.filterMap f := by
  obtain ⟨hlt, hget⟩ := List.getElem?_eq_some_iff.mp hold
  have hsplit : items = items.take index ++ old :: items.drop (index + 1) := by
    rw [← hget, getElem_cons_drop, take_append_drop]
  rw [set_eq_take_append_cons_drop, if_pos hlt]
  conv_rhs => rw [hsplit]
  simp only [filterMap_append, filterMap_cons, h]

theorem filterMap_finalize {α : Type*} {f : StreamItem → Option α}
    (hready : ∀ item, f (markThoughtReady item) = f item) (items : List StreamItem) :
    (finalizeActiveThoughts items).filterMap f = items.filterMap f := by
  unfold finalizeActiveThoughts
  rw [filterMap_map]
  congr 1
  funext item
  exact hready item

/-! ## The end of a list -/

theorem getElem?_of_getLast? (h : state.getLast? = some last) :
    state[state.length - 1]? = some last := by
  rwa [getLast?_eq_getElem?] at h

theorem dropLast_append_eq_set (h : state.getLast? = some last) (new : StreamItem) :
    state.dropLast ++ [new] = state.set (state.length - 1) new := by
  have hsplit : state.dropLast ++ [last] = state := dropLast_append_getLast? last h
  conv_rhs => rw [← hsplit]
  simp

section

variable (hlast : state.getLast? = some last) {secondLast : StreamItem}
include hlast

/-- The last item but one. -/
theorem secondLast_eq (hsecond : state.dropLast.getLast? = some secondLast) :
    state = state.dropLast.dropLast ++ [secondLast, last] := by
  have hinit : state.dropLast.dropLast ++ [secondLast] = state.dropLast :=
    dropLast_append_getLast? secondLast hsecond
  have hsplit : state.dropLast ++ [last] = state := dropLast_append_getLast? last hlast
  calc state = (state.dropLast.dropLast ++ [secondLast]) ++ [last] := by rw [hinit, hsplit]
    _ = state.dropLast.dropLast ++ [secondLast, last] := by simp

theorem set_secondLast (hsecond : state.dropLast.getLast? = some secondLast)
    (new : StreamItem) :
    state[state.dropLast.dropLast.length]? = some secondLast ∧
      state.dropLast.dropLast ++ [new, last] = state.set state.dropLast.dropLast.length new := by
  have hsplit := secondLast_eq hlast hsecond
  generalize state.dropLast.dropLast = init at hsplit
  rw [hsplit]
  constructor
  · simp
  · simp

/-- A new last item that is the old one. -/
theorem edit_last {new : StreamItem} (hkind : last.kind = kind) (hsame : SameItem last new) :
    Edit kind replaces state (state.dropLast ++ [new]) := by
  rw [dropLast_append_eq_set hlast]
  exact .update (getElem?_of_getLast? hlast) hkind hsame

end

/-! ## One lemma an event -/

theorem sameItem_growAssistant {message : AssistantMessage} (h : item.body = .assistantMessage message)
    (chunk : String) (timestamp : ℤ) (timelineCursor : Option TimelinePosition) :
    SameItem item (growAssistant item message chunk timestamp timelineCursor) := by
  refine ⟨rfl, rfl, ?_, ?_⟩
  · rw [kind_of_assistant h]
    rfl
  · have hold : item.assistant? = some message := by rw [StreamItem.assistant?, h]
    rw [StreamItem.blockGroup, StreamItem.blockGroup, hold]
    rfl

theorem edit_appendAssistantMessage (text : String) (timestamp : ℤ) (source : StreamUpdateSource)
    (messageId : Option String) (reservedItemIds : List String)
    (timelineCursor : Option TimelinePosition) :
    Edit .assistantMessage replaces state (appendAssistantMessage state text timestamp source messageId
      reservedItemIds timelineCursor) := by
  unfold appendAssistantMessage
  simp only []
  split
  · exact .keep
  split
  · next last message hfound =>
    obtain ⟨item, hlast, hmessage⟩ := bind_eq_some_iff.mp hfound
    obtain ⟨found, hextends, heq⟩ := map_eq_some_iff.mp hmessage
    obtain ⟨rfl, rfl⟩ := Prod.mk.inj heq
    have hbody := (extendsAssistant_eq hextends).1
    exact edit_last hlast (kind_of_assistant hbody) (sameItem_growAssistant hbody _ _ _)
  split
  · next secondLast message last hbehind =>
    obtain ⟨hlast, -, hsecond, hextends⟩ := assistantBehindUser_eq hbehind
    have hbody := (extendsAssistant_eq hextends).1
    obtain ⟨hold, hset⟩ := set_secondLast hlast hsecond
      (growAssistant secondLast message (normalizeChunk text).chunk timestamp timelineCursor)
    rw [hset]
    exact .update hold (kind_of_assistant hbody) (sameItem_growAssistant hbody _ _ _)
  split
  · exact .keep
  · apply Edit.append
    intro new hnew
    rw [mem_singleton.mp hnew]
    rfl

theorem edit_appendThought (text : String) (timestamp : ℤ)
    (timelineCursor : Option TimelinePosition) :
    Edit .thought replaces state (appendThought state text timestamp timelineCursor) := by
  unfold appendThought
  simp only []
  split
  · exact .keep
  split
  · next last thought hfound =>
    obtain ⟨item, hlast, hthought⟩ := bind_eq_some_iff.mp hfound
    obtain ⟨found, hsome, heq⟩ := map_eq_some_iff.mp hthought
    obtain ⟨rfl, rfl⟩ := Prod.mk.inj heq
    have hkind := kind_of_thought (thought?_eq hsome)
    exact edit_last hlast hkind (sameItem_of_kind rfl rfl hkind rfl (by decide))
  split
  · exact .keep
  · apply Edit.append
    intro new hnew
    rw [mem_singleton.mp hnew]
    rfl

theorem kind_of_toolCall {data : AgentToolCallData} (h : item.body = .toolCall data) :
    item.kind = .toolCall := by
  rw [StreamItem.kind, h]

theorem kind_of_todoList {list : TodoList} (h : item.body = .todoList list) : item.kind = .todoList := by
  rw [StreamItem.kind, h]

theorem edit_appendAgentToolCall (data : AgentToolCallData) (timestamp : ℤ) (turnId : Option String)
    (timelineCursor : Option TimelinePosition) :
    Edit .toolCall replaces state (appendAgentToolCall state data timestamp turnId timelineCursor) := by
  unfold appendAgentToolCall
  simp only []
  split
  · next index hindex =>
    split
    · exact .keep
    · next existing stored hfound =>
      obtain ⟨item, hitem, hstored⟩ := bind_eq_some_iff.mp hfound
      obtain ⟨call, hcall, heq⟩ := map_eq_some_iff.mp hstored
      obtain ⟨rfl, rfl⟩ := Prod.mk.inj heq
      have hkind := kind_of_toolCall (toolCall?_eq hcall)
      split
      · exact .keep
      · exact .update hitem hkind (sameItem_of_kind rfl rfl hkind rfl (by decide))
  · apply Edit.append
    intro new hnew
    rw [mem_singleton.mp hnew]
    rfl

section

variable (provider : String)

theorem pushActivities_eq (items : List TodoEntry) (timestamp : ℤ)
    (timelineCursor : Option TimelinePosition) (activities : List TaskActivity) :
    ∀ state : List StreamItem, ∃ pushed : List StreamItem,
      activities.foldl (fun next activity =>
        next ++ [todoItem next provider items timestamp timelineCursor activity]) state =
          state ++ pushed ∧ (∀ new ∈ pushed, new.kind = .todoList) ∧
      pushed.length = activities.length := by
  induction activities with
  | nil => exact fun state => ⟨[], by simp, by simp, rfl⟩
  | cons activity activities ih =>
    intro state
    obtain ⟨pushed, hpushed, hkind, hlength⟩ :=
      ih (state ++ [todoItem state provider items timestamp timelineCursor activity])
    refine ⟨todoItem state provider items timestamp timelineCursor activity :: pushed, ?_, ?_, ?_⟩
    · rw [foldl_cons, hpushed]
      simp
    · intro new hnew
      rcases mem_cons.mp hnew with rfl | hnew
      · rfl
      · exact hkind new hnew
    · rw [length_cons, length_cons, hlength]

theorem edit_appendTodoList (items : List TodoEntry) (timestamp : ℤ)
    (timelineCursor : Option TimelinePosition) :
    Edit .todoList replaces state (appendTodoList state provider items timestamp timelineCursor) := by
  unfold appendTodoList
  simp only []
  split
  · split
    · exact .keep
    · next index item list hprevious =>
      obtain ⟨found, -, hbind⟩ := bind_eq_some_iff.mp hprevious
      obtain ⟨item', hitem, hlist⟩ := bind_eq_some_iff.mp hbind
      obtain ⟨list', hsome, heq⟩ := map_eq_some_iff.mp hlist
      obtain ⟨rfl, hrest⟩ := Prod.mk.inj heq
      obtain ⟨rfl, rfl⟩ := Prod.mk.inj hrest
      have hkind := kind_of_todoList (todoList?_eq hsome)
      exact .update hitem hkind (sameItem_of_kind rfl rfl hkind rfl (by decide))
  · split
    · next last list hfound =>
      obtain ⟨item, hlast, hlist⟩ := bind_eq_some_iff.mp hfound
      obtain ⟨list', hsome, heq⟩ := map_eq_some_iff.mp hlist
      obtain ⟨rfl, rfl⟩ := Prod.mk.inj heq
      have hkind := kind_of_todoList (todoList?_eq (filter_eq_some_iff.mp hsome).1)
      exact edit_last hlast hkind (sameItem_of_kind rfl rfl hkind rfl (by decide))
    · obtain ⟨pushed, hpushed, hkind, -⟩ := pushActivities_eq provider (items.map normalizeTodoEntry)
        timestamp timelineCursor _ state
      rw [hpushed]
      exact .append hkind

theorem edit_reduceTimelineToolCall (item : ToolCallTimelineItem)
    (turnId : Option String) (timestamp : ℤ) (timelineCursor : Option TimelinePosition) :
    Edit .toolCall replaces state
        (reduceTimelineToolCall state provider item turnId timestamp timelineCursor) ∨
      Edit .todoList replaces state
        (reduceTimelineToolCall state provider item turnId timestamp timelineCursor) := by
  unfold reduceTimelineToolCall
  simp only []
  split
  · exact .inl .keep
  split
  · split
    · exact .inl .keep
    · exact .inr (edit_appendTodoList _ _ _ _)
  split
  · exact .inl .keep
  split
  · exact .inr (edit_appendTodoList _ _ _ _)
  · exact .inl (edit_appendAgentToolCall _ _ _ _)

end

theorem edit_appendNotification {entry : StreamItem} (h : entry.kind = kind)
    (hreplaces : ∀ old : StreamItem, old.id = entry.id → replaces old) :
    Edit kind replaces state (appendNotification state entry) := by
  unfold appendNotification
  split
  · next index hindex =>
    obtain ⟨hlt, hid, -⟩ := findIdx?_eq_some_iff_getElem.mp hindex
    have heq := beq_iff_eq.mp hid
    exact .replace (getElem?_eq_getElem hlt) h heq.symm (hreplaces _ heq)
  · apply Edit.append
    intro new hnew
    rw [mem_singleton.mp hnew, h]

theorem edit_appendPluginTimelineItem (item : PluginTimelineItem) (timestamp : ℤ)
    (timelineCursor : Option TimelinePosition)
    (hreplaces : ∀ old : StreamItem, old.kind = .plugin →
      streamTimelineItemIdentity old = some (item.pluginId ++ "/" ++ item.id) → replaces old) :
    Edit .plugin replaces state (appendPluginTimelineItem state item timestamp timelineCursor) := by
  unfold appendPluginTimelineItem
  simp only []
  split
  · apply Edit.append
    intro new hnew
    rw [mem_singleton.mp hnew]
    rfl
  · next index hindex =>
    split
    · next hold =>
      obtain ⟨hlt, hidentity, -⟩ := findIdx?_eq_some_iff_getElem.mp hindex
      have hat := some.inj ((getElem?_eq_getElem hlt).symm.trans hold)
      rw [hat] at hidentity
      exact .replace hold rfl rfl (hreplaces _ rfl (beq_iff_eq.mp hidentity))
    · exact .keep

theorem edit_reduceTimelineCompaction (item : CompactionTimelineItem) (timestamp : ℤ)
    (timelineCursor : Option TimelinePosition) :
    Edit .compaction replaces state (reduceTimelineCompaction state item timestamp timelineCursor) := by
  unfold reduceTimelineCompaction
  simp only []
  split
  · next index existing stored hfound =>
    split at hfound
    · obtain ⟨found, -, hbind⟩ := bind_eq_some_iff.mp hfound
      obtain ⟨item', hitem, hcompaction⟩ := bind_eq_some_iff.mp hbind
      obtain ⟨stored', hsome, heq⟩ := map_eq_some_iff.mp hcompaction
      obtain ⟨rfl, hrest⟩ := Prod.mk.inj heq
      obtain ⟨rfl, rfl⟩ := Prod.mk.inj hrest
      have hkind : item'.kind = .compaction := by
        unfold StreamItem.compaction? at hsome
        unfold StreamItem.kind
        split at hsome
        · next hbody => rw [hbody]
        · contradiction
      exact .update hitem hkind (sameItem_of_kind rfl rfl hkind rfl (by decide))
    · contradiction
  · apply Edit.append
    intro new hnew
    rw [mem_singleton.mp hnew]
    rfl

/-- An event edits a list with items of one kind, which is not that of user messages, and may mark
thoughts as ready. Only tool calls bring tool calls. -/
theorem edit_reduceTimelineEvent (state : List StreamItem) (provider : String)
    (item : AgentTimelineItem) (turnId : Option String) (timestamp : ℤ) (source : StreamUpdateSource)
    (reservedItemIds : List String) (timelineCursor : Option TimelinePosition) :
    ∃ kind edited, kind ≠ .userMessage ∧ ((∀ call, item ≠ .toolCall call) → kind ≠ .toolCall) ∧
      Edit kind (fun old => replacedBy state item timestamp old = true) state edited ∧
      (reduceTimelineEvent state provider item turnId timestamp source reservedItemIds
        timelineCursor = edited ∨
      reduceTimelineEvent state provider item turnId timestamp source reservedItemIds
        timelineCursor = finalizeActiveThoughts edited) := by
  cases item with
  | userMessage => exact ⟨.thought, state, by decide, by simp, .keep, .inl rfl⟩
  | assistantMessage text messageId =>
    exact ⟨.assistantMessage, _, by decide, by simp, edit_appendAssistantMessage _ _ _ _ _ _,
      .inr rfl⟩
  | reasoning text => exact ⟨.thought, _, by decide, by simp, edit_appendThought _ _ _, .inl rfl⟩
  | toolCall item =>
    rcases edit_reduceTimelineToolCall provider item turnId timestamp timelineCursor with h | h
    · exact ⟨.toolCall, _, by decide, fun hnone => absurd rfl (hnone item), h, .inr rfl⟩
    · exact ⟨.todoList, _, by decide, by simp, h, .inr rfl⟩
  | todo items => exact ⟨.todoList, _, by decide, by simp, edit_appendTodoList _ _ _ _, .inr rfl⟩
  | error message =>
    exact ⟨.notification, _, by decide, by simp,
      edit_appendNotification rfl fun old hid => beq_iff_eq.mpr hid, .inr rfl⟩
  | notification level message =>
    exact ⟨.notification, _, by decide, by simp,
      edit_appendNotification rfl fun old hid => beq_iff_eq.mpr hid, .inr rfl⟩
  | compaction item =>
    exact ⟨.compaction, _, by decide, by simp, edit_reduceTimelineCompaction _ _ _, .inr rfl⟩
  | plugin item =>
    refine ⟨.plugin, _, by decide, by simp, edit_appendPluginTimelineItem _ _ _ ?_, .inr rfl⟩
    intro old hkind hidentity
    simp only [replacedBy, hkind, hidentity, beq_self_eq_true, Bool.and_self]

end Orqara.Stream
