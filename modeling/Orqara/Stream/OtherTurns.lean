import Orqara.Stream.ShownPrompts
import Orqara.Stream.StartedItems

/-!
# Items of other turns

An event of a turn leaves the items of other turns with them, as long as the item at the end of the
list is one that the event starts or one of its own turn: that item is stamped with the turn.
-/

namespace Orqara.Stream

open Timeline List Option

/-- What an item is known by: the blocks of a message by the id of their group. -/
def StreamItem.key (item : StreamItem) : String := item.blockGroup.getD item.id

/-- Where an item belongs that is not of a turn. -/
def otherOf (turn : String) (item : StreamItem) : Option (String × Option String) :=
  if item.turnId = some turn then none else some (item.key, item.turnId)

/-- The items that are not of a turn, in order, with the turns that they are of. -/
def othersOf (turn : String) (items : List StreamItem) : List (String × Option String) :=
  items.filterMap (otherOf turn)

variable {turn : String} {state : List StreamItem} {kind : StreamItemKind} {edited : List StreamItem}
  {item : AgentTimelineItem} {source : StreamUpdateSource}

@[simp] theorem othersOf_nil : othersOf turn [] = [] := rfl

@[simp] theorem othersOf_append (xs ys : List StreamItem) :
    othersOf turn (xs ++ ys) = othersOf turn xs ++ othersOf turn ys := List.filterMap_append

theorem otherOf_own {item : StreamItem} (h : item.turnId = some turn) : otherOf turn item = none :=
  if_pos h

theorem otherOf_eq {old new : StreamItem} (hkey : new.key = old.key)
    (hturn : new.turnId = old.turnId) : otherOf turn new = otherOf turn old := by
  rw [otherOf, otherOf, hkey, hturn]

theorem SameItem.otherOf {old new : StreamItem} (h : SameItem old new) :
    Stream.otherOf turn new = Stream.otherOf turn old := by
  apply otherOf_eq _ h.turnId
  rw [StreamItem.key, StreamItem.key, h.group, h.id]

theorem sameItem_markThoughtReady (item : StreamItem) : SameItem item (markThoughtReady item) := by
  unfold markThoughtReady
  split
  · next thought hbody =>
    exact sameItem_of_kind rfl rfl (kind_of_thought hbody) rfl (by decide)
  · exact ⟨rfl, rfl, rfl, rfl⟩

theorem otherOf_markThoughtReady (item : StreamItem) :
    otherOf turn (markThoughtReady item) = otherOf turn item :=
  (sameItem_markThoughtReady item).otherOf

theorem othersOf_finalize (items : List StreamItem) :
    othersOf turn (finalizeActiveThoughts items) = othersOf turn items :=
  filterMap_finalize otherOf_markThoughtReady items

/-- A change in place keeps the others, where it changes an item of the turn or none of them. -/
theorem othersOf_set {index : ℕ} {new : StreamItem}
    (h : ∀ old, state[index]? = some old → otherOf turn old = none ∨
      otherOf turn new = otherOf turn old) :
    (othersOf turn state).Sublist (othersOf turn (state.set index new)) := by
  by_cases hlt : index < state.length
  · have hsplit : state = state.take index ++ state[index] :: state.drop (index + 1) := by
      rw [getElem_cons_drop, take_append_drop]
    rw [set_eq_take_append_cons_drop, if_pos hlt]
    conv_lhs => rw [hsplit]
    rw [othersOf_append, othersOf_append]
    apply List.Sublist.append_left
    rcases h _ (getElem?_eq_getElem hlt) with hold | hsame
    · have hnone : othersOf turn (state[index] :: state.drop (index + 1)) =
          othersOf turn (state.drop (index + 1)) := filterMap_cons_none hold
      rw [hnone]
      exact (sublist_cons_self _ _).filterMap _
    · simp only [othersOf, filterMap_cons, hsame, List.Sublist.refl]
  · rw [set_eq_of_length_le (by omega)]

/-! ## The end of a list -/

/-- The stamp is put on the last item only. -/
theorem othersOf_stamp (edited : List StreamItem) :
    (othersOf turn edited.dropLast).Sublist
      (othersOf turn (applyTimelineTurnId edited (some turn))) := by
  unfold applyTimelineTurnId
  split
  · rw [othersOf_append]
    exact sublist_append_left _ _
  · exact (dropLast_sublist edited).filterMap _

theorem othersOf_dropLast (h : ∀ last ∈ state.getLast?, last.turnId = some turn) :
    othersOf turn state.dropLast = othersOf turn state := by
  cases hlast : state.getLast? with
  | none =>
    rw [getLast?_eq_none_iff.mp hlast]
    rfl
  | some last =>
    have hown : othersOf turn [last] = [] := filterMap_cons_none (otherOf_own (h last hlast))
    conv_rhs => rw [← dropLast_append_getLast? last hlast]
    rw [othersOf_append, hown, append_nil]

theorem Appends.othersOf_dropLast (h : Appends kind state edited) :
    (othersOf turn state).Sublist (othersOf turn edited.dropLast) := by
  obtain ⟨items, hne, rfl, -⟩ := h
  rw [dropLast_append_of_ne_nil hne, othersOf_append]
  exact sublist_append_left _ _

theorem dropLast_set (index : ℕ) (new : StreamItem) :
    (state.set index new).dropLast = state.dropLast.set index new := by
  rw [dropLast_eq_take, dropLast_eq_take, length_set, take_set]

/-- What is behind the last item stays there, when the event replaces items of its turn only. -/
theorem Edit.othersOf_dropLast {replaces : StreamItem → Prop} (h : Edit kind replaces state edited)
    (hlast : ∀ last ∈ state.getLast?, last.turnId = some turn)
    (hreplaced : ∀ old ∈ state, replaces old → old.turnId = some turn) :
    (othersOf turn state).Sublist (othersOf turn edited.dropLast) := by
  rw [← Stream.othersOf_dropLast hlast]
  have hinit : ∀ {index : ℕ} {old : StreamItem}, state.dropLast[index]? = some old → state[index]? = some old := by
    intro index old hold
    rw [getElem?_dropLast] at hold
    split at hold
    · exact hold
    · contradiction
  cases h with
  | keep => exact List.Sublist.refl _
  | @update index old new hold hkind hsame =>
    rw [dropLast_set]
    apply othersOf_set
    intro found hfound
    have heq : found = old := some.inj ((hinit hfound).symm.trans hold)
    exact .inr (heq ▸ hsame.otherOf)
  | @replace index old new hold hkind hid hreplaces =>
    rw [dropLast_set]
    apply othersOf_set
    intro found hfound
    have heq : found = old := some.inj ((hinit hfound).symm.trans hold)
    exact .inl (otherOf_own (heq ▸ hreplaced old (mem_of_getElem? hold) hreplaces))
  | @append items hkind =>
    rw [Stream.othersOf_dropLast hlast]
    by_cases hne : items = []
    · rw [hne, append_nil, Stream.othersOf_dropLast hlast]
    · exact Appends.othersOf_dropLast ⟨items, hne, rfl, hkind⟩

/-! ## One event -/

/-- An event of a turn on a list: the last item is the turn's or the event starts one, the item that
it replaces is the turn's, and only tool calls have the identity of its tool call. -/
structure OwnTurn (state : List StreamItem) (provider : String) (item : AgentTimelineItem)
    (turn : String) (timestamp : ℤ) (source : StreamUpdateSource) : Prop where
  last : startsItem state provider item (some turn) timestamp source = true ∨
    ∀ last ∈ state.getLast?, last.turnId = some turn
  replaced : ∀ old ∈ state, replacedBy state item timestamp old = true →
    old.turnId = some turn ∧ old.toolCall? = none
  called : ∀ callId ∈ calledTool provider item, ∀ old ∈ state,
    streamTimelineItemIdentity old = some (agentToolCallIdentity callId (some turn)) →
      old.toolCall?.isSome

instance (state : List StreamItem) (provider : String) (item : AgentTimelineItem)
    (turn : String) (timestamp : ℤ) (source : StreamUpdateSource) :
    Decidable (OwnTurn state provider item turn timestamp source) :=
  decidable_of_iff (_ ∧ _ ∧ _)
    ⟨fun h => ⟨h.1, h.2.1, h.2.2⟩, fun h => ⟨h.last, h.replaced, h.called⟩⟩

theorem dropLast_finalize (items : List StreamItem) :
    (finalizeActiveThoughts items).dropLast = finalizeActiveThoughts items.dropLast :=
  (map_dropLast ..).symm

theorem othersOf_reduce {provider : String} {timestamp : ℤ}
    (hown : OwnTurn state provider item turn timestamp source) (reservedItemIds : List String)
    (timelineCursor : Option TimelinePosition) :
    (othersOf turn state).Sublist (othersOf turn (reduceStreamUpdate state
      (.timeline provider item (some turn)) timestamp source reservedItemIds timelineCursor)) := by
  have hstamp {edited result : List StreamItem}
      (hresult : result = edited ∨ result = finalizeActiveThoughts edited)
      (h : (othersOf turn state).Sublist (othersOf turn edited.dropLast)) :
      (othersOf turn state).Sublist (othersOf turn (applyTimelineTurnId result (some turn))) := by
    apply List.Sublist.trans _ (othersOf_stamp result)
    rcases hresult with rfl | rfl
    · exact h
    · rwa [dropLast_finalize, othersOf_finalize]
  rcases hown.last with hstarts | hlast
  · obtain ⟨kind, edited, -, happends, hresult⟩ := appends_of_starts reservedItemIds timelineCursor
      hstarts
    exact hstamp hresult happends.othersOf_dropLast
  · obtain ⟨kind, edited, -, -, hedit, hresult⟩ := edit_reduceTimelineEvent state provider item
      (some turn) timestamp source reservedItemIds timelineCursor
    exact hstamp hresult (hedit.othersOf_dropLast hlast fun old hmem h => (hown.replaced old hmem h).1)

/-! ## Lanes -/

def Lanes.items (lanes : Lanes) : List StreamItem := lanes.tail ++ lanes.head

section Read

variable {α : Type*} {f : StreamItem → Option α}

/-- A flush keeps what is read off the items, whether thoughts are ready or not. -/
theorem filterMap_flushHead (hready : ∀ item, f (markThoughtReady item) = f item) (lanes : Lanes)
    (h : Fresh lanes.tail lanes.head) :
    lanes.flushHead.items.filterMap f = lanes.items.filterMap f := by
  unfold Lanes.flushHead
  split
  · rfl
  · simp only [Lanes.items, Lanes.setTail, h.flushHeadToTail, append_nil,
      filterMap_append, filterMap_finalize hready]

theorem filterMap_decidedLanes (hready : ∀ item, f (markThoughtReady item) = f item)
    {tail head : List StreamItem} {event : AgentStreamEventPayload}
    (h : shouldFlushHead head event = true → Fresh tail head) :
    (decidedLanes tail head event).items.filterMap f = (tail ++ head).filterMap f := by
  have hflushed : (flushedLanes tail head event).items.filterMap f = (tail ++ head).filterMap f := by
    unfold flushedLanes
    split
    · next hflush => exact filterMap_flushHead hready (Lanes.start tail head) (h hflush)
    · rfl
  cases hresume : getTailAssistantToResume (flushedLanes tail head event) event with
  | none =>
    rw [decidedLanes_of_none hresume, hflushed]
  | some item =>
    obtain ⟨hhead, hlast, -⟩ := getTailAssistantToResume_eq hresume
    have hsplit := dropLast_append_getLast? item hlast
    have hitems : ((flushedLanes tail head event).resume item).items =
        (flushedLanes tail head event).items := by
      simp only [Lanes.items, Lanes.resume, hsplit, hhead, append_nil]
    rw [decidedLanes_of_some hresume, hitems, hflushed]

end Read

/-- The live item is known by the group of its blocks, as the message was. -/
theorem otherOf_liveItem {item : StreamItem} {message : AssistantMessage}
    (h : item.body = .assistantMessage message) (blocks : List String) :
    otherOf turn (liveItem item message blocks) = otherOf turn item := by
  have hgroup : item.blockGroup = message.blockGroupId := by
    rw [StreamItem.blockGroup, StreamItem.assistant?, h]
    rfl
  have hlive : (liveItem item message blocks).blockGroup =
      some (message.blockGroupId.getD item.id) := rfl
  have hkey : (liveItem item message blocks).key = item.key := by
    rw [StreamItem.key, StreamItem.key, hgroup, hlive]
    rfl
  exact otherOf_eq hkey rfl

theorem othersOf_promote (parse : MarkdownParser) (lanes : Lanes) :
    (othersOf turn lanes.items).Sublist
      (othersOf turn (promoteCompletedAssistantBlocks parse lanes).items) := by
  unfold promoteCompletedAssistantBlocks
  split
  · exact List.Sublist.refl _
  · next index item message hactive =>
    simp only []
    split
    · exact List.Sublist.refl _
    · obtain ⟨hget, hbody⟩ := activeAssistant_eq hactive
      have hhead : (othersOf turn lanes.head).Sublist (othersOf turn (lanes.head.set index
          (liveItem item message (splitMarkdownBlocks parse message.text)))) := by
        apply othersOf_set
        intro old hold
        have heq : old = item := some.inj (hold.symm.trans hget)
        exact .inr (by rw [heq]; exact otherOf_liveItem hbody _)
      have htail : (othersOf turn lanes.tail).Sublist
          (othersOf turn (flushHeadToTail lanes.tail (completedBlocks parse lanes.head))) := by
        unfold flushHeadToTail
        rw [othersOf_append]
        exact sublist_append_left _ _
      simpa [Lanes.items, Lanes.setTail] using htail.append hhead

/-- The list that an event is reduced into. -/
def targetLane (tail head : List StreamItem) (event : AgentStreamEventPayload) : List StreamItem :=
  if ((getEventItemKind event).filter isStreamableKind).isSome then
    (decidedLanes tail head event).head
  else (decidedLanes tail head event).tail

theorem othersOf_applyOtherEvent (parse : MarkdownParser) {tail head : List StreamItem}
    {provider : String} {timestamp : ℤ} (timelineCursor : Option TimelinePosition)
    (hfresh : shouldFlushHead head (.timeline provider item (some turn)) = true → Fresh tail head)
    (hown : OwnTurn (targetLane tail head (.timeline provider item (some turn))) provider item turn
      timestamp source) :
    (othersOf turn (tail ++ head)).Sublist (othersOf turn (applyOtherEvent parse tail head
      (.timeline provider item (some turn)) timestamp source timelineCursor).items) := by
  have hdecided : othersOf turn (decidedLanes tail head (.timeline provider item (some turn))).items =
      othersOf turn (tail ++ head) := filterMap_decidedLanes otherOf_markThoughtReady hfresh
  unfold targetLane at hown
  rw [← hdecided]
  unfold applyOtherEvent
  rw [if_neg (by simp [isCompletionEvent])]
  generalize decidedLanes tail head (.timeline provider item (some turn)) = lanes at hown
  unfold applyToLanes
  split
  · next kind hkind =>
    simp only [hkind, isSome_some, if_true] at hown
    have hgrown : (othersOf turn lanes.items).Sublist (othersOf turn (grownLanes lanes kind
        (.timeline provider item (some turn)) timestamp source timelineCursor).items) := by
      have hreduce := othersOf_reduce hown (reservedIds lanes kind) timelineCursor
      simpa [Lanes.items, grownLanes, Lanes.setHead] using hreduce
    unfold applyToHead
    simp only []
    split
    · exact hgrown.trans (othersOf_promote parse _)
    · exact hgrown
  · next hkind =>
    simp only [hkind, isSome_none, Bool.false_eq_true, if_false] at hown
    have hreduce := othersOf_reduce hown [] timelineCursor
    simpa [Lanes.items, Lanes.setTail] using hreduce

end Orqara.Stream
