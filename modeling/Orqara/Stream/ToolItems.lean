import Orqara.Stream.OtherTurns
import Orqara.Stream.TimelineIdentity

/-!
# The items of tool calls

A tool call of a turn has one item. Later events of the call find the item by its turn and its call,
as long as no event of another turn has put its own turn on it.
-/

namespace Orqara.Stream

open Timeline List Option

/-- The turn and the call of a tool item. -/
def StreamItem.toolKey? (item : StreamItem) : Option (Option String × String) :=
  item.toolCall?.map fun data => (item.turnId, data.callId)

def toolKeys (items : List StreamItem) : List (Option String × String) :=
  items.filterMap StreamItem.toolKey?

variable {turn : String} {state : List StreamItem} {kind : StreamItemKind} {items : List StreamItem}
  {item : AgentTimelineItem} {replaces : StreamItem → Prop} {edited : List StreamItem} {provider : String}
  {source : StreamUpdateSource}

@[simp] theorem toolKeys_nil : toolKeys [] = [] := rfl

@[simp] theorem toolKeys_append (xs ys : List StreamItem) :
    toolKeys (xs ++ ys) = toolKeys xs ++ toolKeys ys := List.filterMap_append

theorem toolKey?_of_kind {item : StreamItem} (h : item.kind ≠ .toolCall) :
    item.toolKey? = none := by
  unfold StreamItem.kind at h
  unfold StreamItem.toolKey? StreamItem.toolCall?
  split
  · next hbody =>
    rw [hbody] at h
    contradiction
  · rfl

theorem toolKeys_eq_nil (h : ∀ item ∈ items, item.kind ≠ .toolCall) :
    toolKeys items = [] :=
  filterMap_eq_nil_iff.mpr fun item hitem => toolKey?_of_kind (h item hitem)

theorem toolKey?_markThoughtReady (item : StreamItem) :
    (markThoughtReady item).toolKey? = item.toolKey? := by
  unfold markThoughtReady
  split
  · next thought hbody =>
    have hkind : item.kind ≠ .toolCall := by
      rw [kind_of_thought hbody]
      decide
    rw [toolKey?_of_kind hkind]
    rfl
  · rfl

theorem toolKeys_finalize (items : List StreamItem) :
    toolKeys (finalizeActiveThoughts items) = toolKeys items :=
  filterMap_finalize toolKey?_markThoughtReady items

/-- The key of a tool item names its identity. -/
theorem identity_of_toolKey? {item : StreamItem} {key : Option String × String}
    (h : item.toolKey? = some key) :
    streamTimelineItemIdentity item = some (agentToolCallIdentity key.2 key.1) := by
  obtain ⟨data, hdata, hkey⟩ := map_eq_some_iff.mp h
  rw [streamTimelineItemIdentity, toolCall?_eq hdata, ← hkey]

/-! ## The stamp -/

/-- The last item of a list can be stamped with a turn without a tool item changing its turn. -/
def EndsOwn (turn : String) (items : List StreamItem) : Prop :=
  ∀ last ∈ items.getLast?, last.toolKey? = none ∨ last.turnId = some turn

theorem endsOwn_append (hne : items ≠ [])
    (h : ∀ new ∈ items, new.toolKey? = none ∨ new.turnId = some turn) :
    EndsOwn turn (state ++ items) := by
  intro last hlast
  rw [mem_def, getLast?_append_of_ne_nil _ hne] at hlast
  exact h last (mem_of_getLast? hlast)

theorem endsOwn_set {index : ℕ} {old new : StreamItem} (hold : state[index]? = some old)
    (hlast : ∀ last ∈ state.getLast?, last.turnId = some turn)
    (h : new.toolKey? = none ∨ new.turnId = old.turnId) : EndsOwn turn (state.set index new) := by
  intro last hget
  rw [mem_def, getLast?_eq_getElem?, length_set, getElem?_set] at hget
  split at hget
  · next hindex =>
    have hown : old.turnId = some turn := by
      apply hlast old
      rwa [mem_def, getLast?_eq_getElem?, ← hindex]
    split at hget
    · rw [← some.inj hget, ← hown]
      exact h
    · contradiction
  · right
    apply hlast last
    rwa [mem_def, getLast?_eq_getElem?]

theorem EndsOwn.finalize (h : EndsOwn turn items) :
    EndsOwn turn (finalizeActiveThoughts items) := by
  intro last hlast
  rw [mem_def, finalizeActiveThoughts, getLast?_map, map_eq_some_iff] at hlast
  obtain ⟨item, hitem, rfl⟩ := hlast
  rw [toolKey?_markThoughtReady, (sameItem_markThoughtReady item).turnId]
  exact h item hitem

theorem EndsOwn.toolKeys (h : EndsOwn turn items) :
    toolKeys (applyTimelineTurnId items (some turn)) = toolKeys items := by
  unfold applyTimelineTurnId
  split
  · next stamp last hstamp hlast =>
    rw [dropLast_append_eq_set hlast]
    apply filterMap_set_same (getElem?_of_getLast? hlast)
    have hturn : stamp = turn := (some.inj (eq_some_of_nonEmpty hstamp)).symm
    rcases h last hlast with hnone | hown
    · have hcall : last.toolCall? = none := map_eq_none_iff.mp hnone
      rw [hnone]
      exact map_eq_none_iff.mpr hcall
    · rw [hturn, ← hown]
  · rfl

/-! ## Edits -/

theorem Edit.toolKeys (h : Edit kind replaces state edited) (hkind : kind ≠ .toolCall)
    (hreplaced : ∀ old ∈ state, replaces old → old.toolCall? = none) :
    toolKeys edited = toolKeys state := by
  cases h with
  | keep => rfl
  | update hold holdKind hsame =>
    apply filterMap_set_same hold
    have hnew := hsame.kind
    rw [holdKind] at hnew
    rw [toolKey?_of_kind (hnew ▸ hkind), toolKey?_of_kind (holdKind ▸ hkind)]
  | replace hold hnew hid hreplaces =>
    apply filterMap_set_same hold
    have hnone := hreplaced _ (mem_of_getElem? hold) hreplaces
    rw [toolKey?_of_kind (hnew ▸ hkind), StreamItem.toolKey?, hnone]
    rfl
  | @append items hnew =>
    rw [toolKeys_append, toolKeys_eq_nil fun item hitem => hnew item hitem ▸ hkind,
      append_nil]

theorem Edit.endsOwn (h : Edit kind replaces state edited) (hkind : kind ≠ .toolCall)
    (hlast : ∀ last ∈ state.getLast?, last.turnId = some turn) : EndsOwn turn edited := by
  cases h with
  | keep => exact fun last hget => .inr (hlast last hget)
  | update hold holdKind hsame => exact endsOwn_set hold hlast (.inr hsame.turnId)
  | replace hold hnew hid hreplaces =>
    exact endsOwn_set hold hlast (.inl (toolKey?_of_kind (hnew ▸ hkind)))
  | @append items hnew =>
    by_cases hne : items = []
    · rw [hne, append_nil]
      exact fun last hget => .inr (hlast last hget)
    · exact endsOwn_append hne fun item hitem => .inl (toolKey?_of_kind (hnew item hitem ▸ hkind))

/-! ## One event -/

/-- What is not shown as a call brings no tool item, and starts none. -/
theorem edit_of_not_called (h : calledTool provider item = none) (state : List StreamItem)
    (turnId : Option String) (timestamp : ℤ) (source : StreamUpdateSource) (reservedItemIds : List String)
    (timelineCursor : Option TimelinePosition) :
    ∃ kind edited, kind ≠ .toolCall ∧
      Edit kind (fun old => replacedBy state item timestamp old = true) state edited ∧
      (reduceTimelineEvent state provider item turnId timestamp source reservedItemIds
        timelineCursor = edited ∨
      reduceTimelineEvent state provider item turnId timestamp source reservedItemIds
        timelineCursor = finalizeActiveThoughts edited) := by
  by_cases hcall : ∃ call, item = .toolCall call
  · obtain ⟨call, rfl⟩ := hcall
    have hreduce : reduceTimelineEvent state provider (.toolCall call) turnId timestamp source
        reservedItemIds timelineCursor = finalizeActiveThoughts (showToolCall state provider call
          turnId timestamp timelineCursor (toolCallUse provider call)) := by
      rw [← reduceTimelineToolCall_eq]
      rfl
    unfold calledTool at h
    cases huse : toolCallUse provider call with
    | nothing =>
      rw [huse] at hreduce
      exact ⟨.todoList, state, by decide, .keep, .inr hreduce⟩
    | tasks tasks =>
      rw [huse] at hreduce
      exact ⟨.todoList, _, by decide, edit_appendTodoList _ _ _ _, .inr hreduce⟩
    | call =>
      simp only [huse] at h
      contradiction
  · obtain ⟨kind, edited, -, hkind, hedit, hresult⟩ := edit_reduceTimelineEvent state provider item
      turnId timestamp source reservedItemIds timelineCursor
    exact ⟨kind, edited, hkind fun call heq => hcall ⟨call, heq⟩, hedit, hresult⟩

/-- Keys with that of a call, which is added behind them when it is not one of them. -/
def withCall (keys : List (Option String × String)) (turn : String) :
    Option String → List (Option String × String)
  | none => keys
  | some callId =>
    if (some turn, callId) ∈ keys then keys else keys ++ [(some turn, callId)]

/-- Every tool item is of a turn. -/
def TurnsNamed (keys : List (Option String × String)) : Prop :=
  ∀ key ∈ keys, ∃ turn, key.1 = some turn ∧ turn ≠ ""

theorem nonEmpty_of_ne (h : turn ≠ "") : nonEmpty (some turn) = some turn := by
  simp [nonEmpty, h]

/-- A call with an item is found under its identity, and its data goes there. -/
theorem toolKeys_appendAgentToolCall (data : AgentToolCallData) (timestamp : ℤ)
    (timelineCursor : Option TimelinePosition) (hturn : turn ≠ "")
    (hnamed : TurnsNamed (toolKeys state))
    (hcalled : ∀ old ∈ state, streamTimelineItemIdentity old =
      some (agentToolCallIdentity data.callId (some turn)) → old.toolCall?.isSome)
    (hlast : (findExistingTimelineIdentityIndex state
        (agentToolCallIdentity data.callId (some turn))).isNone = true ∨
      ∀ last ∈ state.getLast?, last.turnId = some turn) :
    toolKeys (appendAgentToolCall state data timestamp (some turn) timelineCursor) =
        withCall (toolKeys state) turn (some data.callId) ∧
      EndsOwn turn (appendAgentToolCall state data timestamp (some turn) timelineCursor) := by
  unfold appendAgentToolCall withCall
  simp only []
  cases hfind : findExistingTimelineIdentityIndex state
      (agentToolCallIdentity data.callId (some turn)) with
  | some index =>
    have hown : ∀ last ∈ state.getLast?, last.turnId = some turn := by
      rw [hfind] at hlast
      exact hlast.resolve_left (by simp)
    obtain ⟨hlt, hidentity, -⟩ := findIdx?_eq_some_iff_getElem.mp hfind
    have hold : state[index]? = some state[index] := getElem?_eq_getElem hlt
    generalize state[index] = old at hold hidentity
    have hmem := mem_of_getElem? hold
    have heq := beq_iff_eq.mp hidentity
    obtain ⟨stored, hstored⟩ := isSome_iff_exists.mp (hcalled old hmem heq)
    have hkey : old.toolKey? = some (old.turnId, stored.callId) := by
      rw [StreamItem.toolKey?, hstored]
      rfl
    have hkeyMem : (old.turnId, stored.callId) ∈ toolKeys state :=
      mem_filterMap.mpr ⟨old, hmem, hkey⟩
    obtain ⟨oldTurn, hnamedTurn, hne⟩ := hnamed _ hkeyMem
    have hsame : turn = oldTurn ∧ data.callId = stored.callId := by
      apply agentToolCallIdentity_inj hturn hne
      have hids := heq.symm.trans (identity_of_toolKey? hkey)
      rw [← hnamedTurn]
      exact some.inj hids
    have hpresent : (some turn, data.callId) ∈ toolKeys state := by
      rw [hsame.1, hsame.2, ← hnamedTurn]
      exact hkeyMem
    rw [if_pos hpresent]
    simp only [hold, bind_some, hstored, map_some]
    split
    · exact ⟨rfl, fun last hget => .inr (hown last hget)⟩
    · constructor
      · apply filterMap_set_same hold
        rw [hkey]
        have hcallId : (mergeAgentToolCallData stored data).1.callId = stored.callId := hsame.2
        rw [← hcallId]
        rfl
      · exact endsOwn_set hold hown (.inr rfl)
  | none =>
    have habsent : (some turn, data.callId) ∉ toolKeys state := by
      intro hmem
      obtain ⟨item, hitem, hkey⟩ := mem_filterMap.mp hmem
      have hnot := findIdx?_eq_none_iff.mp hfind item hitem
      rw [identity_of_toolKey? hkey, beq_self_eq_true] at hnot
      contradiction
    rw [if_neg habsent]
    have hstamp := nonEmpty_of_ne hturn
    constructor
    · rw [toolKeys_append]
      simp [toolKeys, StreamItem.toolKey?, StreamItem.toolCall?, hstamp]
    · apply endsOwn_append (by simp)
      intro new hnew
      rw [mem_singleton.mp hnew]
      exact .inr hstamp

theorem toolKeys_reduce {timestamp : ℤ} (hturn : turn ≠ "") (hnamed : TurnsNamed (toolKeys state))
    (hown : OwnTurn state provider item turn timestamp source) (reservedItemIds : List String)
    (timelineCursor : Option TimelinePosition) :
    toolKeys (reduceStreamUpdate state (.timeline provider item (some turn)) timestamp source
      reservedItemIds timelineCursor) =
        withCall (toolKeys state) turn (calledTool provider item) := by
  have hstamp {edited result : List StreamItem}
      (hresult : result = edited ∨ result = finalizeActiveThoughts edited)
      (hends : EndsOwn turn edited) :
      toolKeys (applyTimelineTurnId result (some turn)) = toolKeys edited := by
    rcases hresult with rfl | rfl
    · exact hends.toolKeys
    · rw [hends.finalize.toolKeys, toolKeys_finalize]
  cases hcalls : calledTool provider item with
  | none =>
    rcases hown.last with hstarts | hlast
    · obtain ⟨kind, edited, hkind, ⟨items, hne, rfl, hnew⟩, hresult⟩ := appends_of_starts
        reservedItemIds timelineCursor hstarts
      have hother : ∀ new ∈ items, new.kind ≠ .toolCall := fun new hmem =>
        hnew new hmem ▸ hkind hcalls
      have hends : EndsOwn turn (state ++ items) :=
        endsOwn_append hne fun new hmem => .inl (toolKey?_of_kind (hother new hmem))
      rw [reduceStreamUpdate, hstamp hresult hends, toolKeys_append, toolKeys_eq_nil hother,
        append_nil]
      rfl
    · obtain ⟨kind, edited, hkind, hedit, hresult⟩ := edit_of_not_called hcalls state (some turn)
        timestamp source reservedItemIds timelineCursor
      exact (hstamp hresult (hedit.endsOwn hkind hlast)).trans
        (hedit.toolKeys hkind fun old hmem h => (hown.replaced old hmem h).2)
  | some callId =>
    unfold calledTool at hcalls
    split at hcalls
    · next call =>
      split at hcalls
      · next huse =>
        obtain rfl := some.inj hcalls
        have hreduce : reduceTimelineEvent state provider (.toolCall call) (some turn) timestamp
            source reservedItemIds timelineCursor = finalizeActiveThoughts (appendAgentToolCall
              state (toolCallData provider call) timestamp (some turn) timelineCursor) := by
          have hshow := reduceTimelineToolCall_eq state provider call (some turn) timestamp
            timelineCursor
          rw [huse] at hshow
          rw [reduceTimelineEvent, hshow]
          rfl
        have hlast := hown.last
        simp only [startsItem, huse, startsToolCall] at hlast
        have hcalled := hown.called call.callId (by simp [calledTool, huse])
        obtain ⟨hkeys, hends⟩ := toolKeys_appendAgentToolCall (toolCallData provider call) timestamp
          timelineCursor hturn hnamed hcalled hlast
        exact (hstamp (.inr hreduce) hends).trans hkeys
      · contradiction
    · contradiction

/-! ## Lanes -/

theorem toolKeys_promote (parse : MarkdownParser) (lanes : Lanes) :
    toolKeys (promoteCompletedAssistantBlocks parse lanes).items = toolKeys lanes.items := by
  unfold promoteCompletedAssistantBlocks
  split
  · rfl
  · next index item message hactive =>
    simp only []
    split
    · rfl
    · obtain ⟨hget, hbody⟩ := activeAssistant_eq hactive
      have hold : item.toolKey? = none := by
        apply toolKey?_of_kind
        rw [kind_of_assistant hbody]
        decide
      have hhead : toolKeys (lanes.head.set index (liveItem item message
          (splitMarkdownBlocks parse message.text))) = toolKeys lanes.head := by
        apply filterMap_set_same hget
        rw [hold]
        rfl
      have hblocks : ∀ block ∈ completedBlocks parse lanes.head, block.kind ≠ .toolCall := by
        intro block hblock
        simp only [completedBlocks, hactive, elim_some, promotedItems, List.mem_map] at hblock
        obtain ⟨entry, -, rfl⟩ := hblock
        exact (by decide : StreamItemKind.assistantMessage ≠ .toolCall)
      have htail : toolKeys (flushHeadToTail lanes.tail (completedBlocks parse lanes.head)) =
          toolKeys lanes.tail := by
        unfold flushHeadToTail
        rw [toolKeys_append]
        have hflushed : toolKeys ((finalizeActiveThoughts (completedBlocks parse lanes.head)).filter
            fun item => !(lanes.tail.map (·.id)).contains item.id) = [] := by
          apply sublist_nil.mp
          have hnone := toolKeys_eq_nil hblocks
          rw [← toolKeys_finalize] at hnone
          rw [← hnone]
          exact filter_sublist.filterMap _
        rw [hflushed, append_nil]
      simp only [Lanes.items, Lanes.setTail, toolKeys_append, hhead, htail]

/-- A tool call finds no head. -/
theorem decidedLanes_head_toolCall (tail head : List StreamItem) (provider : String)
    (call : ToolCallTimelineItem) (turnId : Option String) :
    (decidedLanes tail head (.timeline provider (.toolCall call) turnId)).head = [] := by
  have hflushed : (flushedLanes tail head (.timeline provider (.toolCall call) turnId)).head = [] := by
    unfold flushedLanes
    by_cases hempty : head = []
    · rw [hempty]
      rfl
    · have hflush : shouldFlushHead head (.timeline provider (.toolCall call) turnId) = true := by
        unfold shouldFlushHead
        split
        · contradiction
        · next hnone => contradiction
        · next head' kind _ hkind =>
          obtain rfl := some.inj hkind
          rfl
      rw [if_pos hflush]
      exact flushHead_head _
  have hresume : getTailAssistantToResume (flushedLanes tail head
      (.timeline provider (.toolCall call) turnId)) (.timeline provider (.toolCall call) turnId) =
        none := by
    unfold getTailAssistantToResume
    rw [if_neg]
    rintro ⟨hkind, -⟩
    exact absurd (some.inj hkind) (by decide)
  rw [decidedLanes_of_none hresume, hflushed]

theorem toolKeys_applyOtherEvent (parse : MarkdownParser) {tail head : List StreamItem} {timestamp : ℤ}
    (timelineCursor : Option TimelinePosition) (hturn : turn ≠ "")
    (hnamed : TurnsNamed (toolKeys (tail ++ head)))
    (hfresh : shouldFlushHead head (.timeline provider item (some turn)) = true → Fresh tail head)
    (hown : OwnTurn (targetLane tail head (.timeline provider item (some turn))) provider item turn
      timestamp source) :
    toolKeys (applyOtherEvent parse tail head (.timeline provider item (some turn)) timestamp source
      timelineCursor).items = withCall (toolKeys (tail ++ head)) turn (calledTool provider item) := by
  have hdecided : toolKeys (decidedLanes tail head (.timeline provider item (some turn))).items =
      toolKeys (tail ++ head) := filterMap_decidedLanes toolKey?_markThoughtReady hfresh
  have hhead : calledTool provider item ≠ none →
      (decidedLanes tail head (.timeline provider item (some turn))).head = [] ∧
        (getEventItemKind (.timeline provider item (some turn))).filter isStreamableKind = none := by
    intro hcalled
    cases item with
    | toolCall call => exact ⟨decidedLanes_head_toolCall tail head provider call _, rfl⟩
    | _ => contradiction
  unfold targetLane at hown
  rw [← hdecided] at hnamed ⊢
  unfold applyOtherEvent
  rw [if_neg (by simp [isCompletionEvent])]
  generalize decidedLanes tail head (.timeline provider item (some turn)) = lanes at hown hnamed hhead
  simp only [Lanes.items, toolKeys_append] at hnamed
  unfold applyToLanes
  split
  · next kind hkind =>
    simp only [hkind, isSome_some, if_true] at hown
    have hnone : calledTool provider item = none := by
      by_contra hcalled
      rw [(hhead hcalled).2] at hkind
      contradiction
    have hreduce := toolKeys_reduce hturn (fun key hkey => hnamed key (mem_append_right _ hkey))
      hown (reservedIds lanes kind) timelineCursor
    have hgrown : toolKeys (grownLanes lanes kind (.timeline provider item (some turn)) timestamp
        source timelineCursor).items = toolKeys lanes.items := by
      rw [hnone] at hreduce
      simp only [Lanes.items, grownLanes, Lanes.setHead, toolKeys_append, hreduce, withCall]
    rw [hnone]
    unfold applyToHead
    simp only []
    split
    · exact (toolKeys_promote parse _).trans hgrown
    · exact hgrown
  · next hkind =>
    simp only [hkind, isSome_none, Bool.false_eq_true, if_false] at hown
    have hreduce := toolKeys_reduce hturn (fun key hkey => hnamed key (mem_append_left _ hkey))
      hown [] timelineCursor
    simp only [Lanes.items, Lanes.setTail, toolKeys_append, hreduce]
    cases hcalled : calledTool provider item with
    | none => rfl
    | some callId =>
      have hempty := (hhead (by rw [hcalled]; simp)).1
      rw [hempty, toolKeys_nil, append_nil, append_nil]

end Orqara.Stream
