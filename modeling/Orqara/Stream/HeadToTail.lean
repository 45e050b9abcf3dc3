import Orqara.Stream.StreamedText

/-!
# From head to tail

What splitting a message into blocks, promoting the complete ones and flushing
the head do to the text, and the shape of the head between two events. Nothing is
lost as long as no item is moved under an id that the tail has: `flushHeadToTail`
takes such an item for one it has moved before.
-/

namespace Orqara.Stream

open Timeline List Option

/-! ## Markdown blocks -/

def visibleChars (cs : List Char) : List Char := cs.filter fun c => !isWhiteSpace c

theorem visibleChars_append (xs ys : List Char) :
    visibleChars (xs ++ ys) = visibleChars xs ++ visibleChars ys := List.filter_append ..

theorem visibleChars_joinLines (lines : List (List Char)) :
    visibleChars (joinLines lines) = lines.flatMap visibleChars := by
  induction lines with
  | nil => rfl
  | cons line lines ih =>
    cases lines with
    | nil => simp [joinLines, visibleChars]
    | cons next lines =>
      have hjoin : joinLines (line :: next :: lines) =
          line ++ '\n' :: joinLines (next :: lines) := by
        simp [joinLines, List.intercalate]
      have hnewline : visibleChars ('\n' :: joinLines (next :: lines)) =
          visibleChars (joinLines (next :: lines)) :=
        filter_cons_of_neg (by decide)
      rw [hjoin, visibleChars_append, hnewline, ih, ← flatMap_cons]

theorem visibleChars_blank {line : List Char} (h : isBlankLine line = true) :
    visibleChars line = [] := by
  simpa [visibleChars, isBlankLine] using h

/-- What the lines read so far say. -/
def SplitState.said (state : SplitState) : List Char :=
  state.blocks.flatMap visibleChars ++ state.currentLines.flatMap visibleChars

theorem SplitState.said_line (state : SplitState) (structural : Bool) (line : List Char) :
    (state.line structural line).said = state.said ++ visibleChars line := by
  unfold SplitState.line
  by_cases hblank : isBlankLine line = true
  · have hline := visibleChars_blank hblank
    rw [if_pos hblank, hline]
    split
    · simp [SplitState.said, hline]
    · split <;> simp [SplitState.said]
  · rw [if_neg hblank]
    split
    · simp [SplitState.said, visibleChars_joinLines]
    · simp [SplitState.said]

theorem SplitState.said_foldl (structural : ℕ → Bool) (lines : List (List Char)) :
    ∀ (state : SplitState) (index : ℕ),
      ((lines.zipIdx index).foldl (fun (state : SplitState) (line, index) =>
        state.line (structural index) line) state).said =
        state.said ++ lines.flatMap visibleChars := by
  induction lines with
  | nil => simp
  | cons line lines ih =>
    intro state index
    rw [zipIdx_cons, foldl_cons, ih, SplitState.said_line, flatMap_cons,
      append_assoc]

theorem SplitState.flatMap_finish (state : SplitState) :
    state.finish.flatMap visibleChars = state.said := by
  unfold SplitState.finish SplitState.said
  split
  · simp [visibleChars_joinLines]
  · next h =>
    rw [ne_eq, not_not] at h
    simp [h]

theorem flatMap_filter_ne_nil (blocks : List (List Char)) :
    (blocks.filter (· ≠ [])).flatMap visibleChars = blocks.flatMap visibleChars := by
  induction blocks with
  | nil => rfl
  | cons block blocks ih =>
    by_cases h : block = []
    · rw [filter_cons_of_neg (by simp [h]), ih, h]
      rfl
    · rw [filter_cons_of_pos (by simp [h]), flatMap_cons, ih, flatMap_cons]

/-- Wherever a parser sees blocks, the split keeps the visible characters. -/
theorem visible_splitMarkdownBlocks (parse : MarkdownParser) (text : String) :
    (splitMarkdownBlocks parse text).flatMap visible = visible text := by
  unfold splitMarkdownBlocks
  split
  · next h => rw [h]; rfl
  · have hlines : (text.toList.splitOn '\n').flatMap visibleChars = visible text := by
      rw [← visibleChars_joinLines, joinLines, intercalate_splitOn]
      rfl
    have hmap (blocks : List (List Char)) :
        (blocks.map String.ofList).flatMap visible = blocks.flatMap visibleChars := by
      rw [flatMap_map]
      apply flatMap_congr
      intro block _
      exact visible_ofList block
    rw [hmap, flatMap_filter_ne_nil, SplitState.flatMap_finish, SplitState.said_foldl, hlines]
    rfl

/-! ## Flushing -/

/-- None of the items has the id of an item in the tail. -/
def Fresh (tail items : List StreamItem) : Prop := ∀ item ∈ items, item.id ∉ tail.map (·.id)

instance (tail items : List StreamItem) : Decidable (Fresh tail items) :=
  inferInstanceAs (Decidable (∀ item ∈ items, _))

@[simp] theorem id_markThoughtReady (item : StreamItem) : (markThoughtReady item).id = item.id := by
  unfold markThoughtReady
  split <;> rfl

variable {tail : List StreamItem}

theorem Fresh.flushHeadToTail {items : List StreamItem} (h : Fresh tail items) :
    flushHeadToTail tail items = tail ++ finalizeActiveThoughts items := by
  unfold Stream.flushHeadToTail
  congr 1
  apply filter_eq_self.mpr
  intro item hitem
  obtain ⟨source, hsource, rfl⟩ := List.mem_map.mp hitem
  rw [id_markThoughtReady, Bool.not_eq_true', contains_eq_mem, decide_eq_false_iff_not]
  exact h source hsource

theorem Fresh.nil (tail : List StreamItem) : Fresh tail [] := by simp [Fresh]

/-- A flush keeps what is said. -/
theorem Fresh.spoken_flushHead (lanes : Lanes) (h : Fresh lanes.tail lanes.head) (voice : Voice) :
    spoken voice (lanes.flushHead.tail ++ lanes.flushHead.head) =
      spoken voice (lanes.tail ++ lanes.head) := by
  unfold Lanes.flushHead
  split
  · rfl
  · simp [Lanes.setTail, h.flushHeadToTail]

theorem flushHead_head (lanes : Lanes) : lanes.flushHead.head = [] := by
  unfold Lanes.flushHead
  split
  · next h => exact h
  · rfl

/-! ## Promoting -/

theorem textIn_assistantBlock (voice : Voice) (item : StreamItem) (message : AssistantMessage)
    (offset : ℕ) (text : String) :
    visible ((assistantBlock item message offset text).textIn voice) = added voice .assistant text := by
  cases voice <;> simp [assistantBlock, StreamItem.textIn, StreamItemBody.textIn, added]

theorem spoken_promotedItems (voice : Voice) (item : StreamItem) (message : AssistantMessage)
    (blocks : List String) :
    spoken voice (promotedItems item message blocks) = blocks.flatMap (added voice .assistant) := by
  have hzip (index : ℕ) : spoken voice ((blocks.zipIdx index).map fun pair =>
      assistantBlock item message pair.2 pair.1) = blocks.flatMap (added voice .assistant) := by
    induction blocks generalizing index with
    | nil => rfl
    | cons block blocks ih =>
      rw [zipIdx_cons, map_cons, spoken_cons, textIn_assistantBlock, ih,
        flatMap_cons]
  exact hzip 0

variable {head : List StreamItem} {item : StreamItem} {lanes : Lanes} {event : AgentStreamEventPayload}
  {kind : StreamItemKind} {message : AssistantMessage} {parse : MarkdownParser} {state : List StreamItem}

theorem activeAssistant_eq {index : ℕ} (h : activeAssistant head = some (index, item, message)) :
    head[index]? = some item ∧ item.body = .assistantMessage message := by
  unfold activeAssistant at h
  simp only [bind_eq_bind, bind_eq_some_iff] at h
  obtain ⟨index', _, item', hitem, message', hmessage, heq⟩ := h
  obtain ⟨rfl, hrest⟩ := Prod.mk.inj (some.inj heq)
  obtain ⟨rfl, rfl⟩ := Prod.mk.inj hrest
  exact ⟨hitem, assistant?_eq hmessage⟩

/-- The blocks of a message, split off it and left in it, say what the message says. -/
theorem spoken_blocks (parse : MarkdownParser) (voice : Voice) (item : StreamItem)
    (message : AssistantMessage) (h : splitMarkdownBlocks parse message.text ≠ []) :
    spoken voice (promotedItems item message (splitMarkdownBlocks parse message.text).dropLast) ++
      visible ((liveItem item message (splitMarkdownBlocks parse message.text)).textIn voice) =
      added voice .assistant message.text := by
  rw [spoken_promotedItems, liveItem, textIn_assistantBlock]
  cases voice with
  | thought => simp [added]
  | assistant =>
    have hblocks := visible_splitMarkdownBlocks parse message.text
    rw [← dropLast_append_getLast h, flatMap_append] at hblocks
    have hadded : added .assistant .assistant = visible := by
      funext text
      simp [added]
    rw [hadded, getLast?_eq_some_getLast h, getD_some, visible_append,
      visible_newlines, append_nil]
    simpa using hblocks

/-- Promoting completed blocks keeps what is said, in a head that holds nothing but the
growing message. -/
theorem spoken_promoteCompletedAssistantBlocks (hhead : lanes.head.length ≤ 1)
    (hfresh : Fresh lanes.tail (completedBlocks parse lanes.head)) (voice : Voice) :
    spoken voice ((promoteCompletedAssistantBlocks parse lanes).tail ++
      (promoteCompletedAssistantBlocks parse lanes).head) =
      spoken voice (lanes.tail ++ lanes.head) := by
  unfold promoteCompletedAssistantBlocks
  split
  · rfl
  · next index item message hactive =>
    simp only []
    split
    · rfl
    · next hlength =>
      obtain ⟨hitem, hbody⟩ := activeAssistant_eq hactive
      obtain ⟨hlt, hget⟩ := List.getElem?_eq_some_iff.mp hitem
      obtain rfl : index = 0 := by omega
      have hsingle : lanes.head = [item] := by
        obtain ⟨only, honly⟩ := length_eq_one_iff.mp (by omega : lanes.head.length = 1)
        rw [honly] at hitem ⊢
        rw [some.inj hitem]
      have hne : splitMarkdownBlocks parse message.text ≠ [] := by
        intro h
        simp [h] at hlength
      have htext : visible (item.textIn voice) = added voice .assistant message.text := by
        rw [StreamItem.textIn, hbody]
        cases voice <;> simp [StreamItemBody.textIn, added]
      have hcompleted : completedBlocks parse lanes.head =
          promotedItems item message (splitMarkdownBlocks parse message.text).dropLast := by
        simp [completedBlocks, hactive]
      rw [hfresh.flushHeadToTail, hcompleted, hsingle]
      simp only [Lanes.setTail, set_cons_zero, spoken_append, spoken_cons, spoken_nil,
        spoken_finalizeActiveThoughts, append_assoc, append_nil]
      rw [spoken_blocks parse voice item message hne, htext]

/-! ## The head

Between two events the head holds at most one item, the message or thought that grows. -/

structure HeadShape (head : List StreamItem) : Prop where
  short : head.length ≤ 1
  streamable : ∀ item ∈ head, isStreamableKind item.kind = true

theorem HeadShape.nil : HeadShape [] := ⟨by simp, by simp⟩

theorem HeadShape.single (h : isStreamableKind item.kind = true) :
    HeadShape [item] := ⟨by simp, by simpa using h⟩

theorem HeadShape.eq_nil_or_single (h : HeadShape head) :
    head = [] ∨ ∃ item, head = [item] ∧ isStreamableKind item.kind = true := by
  match head, h with
  | [], _ => exact .inl rfl
  | [item], h => exact .inr ⟨item, rfl, h.streamable item (by simp)⟩
  | _ :: _ :: _, h => exact absurd h.short (by simp)

theorem kind_of_assistant (h : item.body = .assistantMessage message) :
    item.kind = .assistantMessage := by
  rw [StreamItem.kind, h]

theorem kind_of_thought {thought : Thought} (h : item.body = .thought thought) : item.kind = .thought := by
  rw [StreamItem.kind, h]

theorem assistant?_isSome_iff :
    item.assistant?.isSome ↔ item.kind = .assistantMessage := by
  unfold StreamItem.assistant? StreamItem.kind
  cases item.body <;> simp

theorem thought?_isSome_iff :
    item.thought?.isSome ↔ item.kind = .thought := by
  unfold StreamItem.thought? StreamItem.kind
  cases item.body <;> simp

@[simp] theorem kind_markThoughtReady (item : StreamItem) :
    (markThoughtReady item).kind = item.kind := by
  unfold markThoughtReady
  split
  · next thought hbody => rw [kind_of_thought hbody, StreamItem.kind]
  · rfl

theorem HeadShape.finalize (h : HeadShape head) :
    HeadShape (finalizeActiveThoughts head) := by
  constructor
  · simpa [finalizeActiveThoughts] using h.short
  · intro item hitem
    obtain ⟨source, hsource, rfl⟩ := List.mem_map.mp hitem
    rw [kind_markThoughtReady]
    exact h.streamable source hsource

theorem HeadShape.turnId (h : HeadShape head) (turnId : Option String) :
    HeadShape (applyTimelineTurnId head turnId) := by
  rcases h.eq_nil_or_single with rfl | ⟨item, rfl, hkind⟩
  · unfold applyTimelineTurnId
    split <;> simp_all [HeadShape.nil]
  · unfold applyTimelineTurnId
    split
    · next last hturn hlast =>
      rw [getLast?_singleton] at hlast
      obtain rfl := some.inj hlast
      exact HeadShape.single hkind
    · exact HeadShape.single hkind

theorem headShape_appendAssistantMessage {messageId : Option String}
    (h : state = [] ∨ ∃ item, state = [item] ∧ (extendsAssistant messageId item).isSome) (text : String)
    (timestamp : ℤ) (source : StreamUpdateSource) (reservedItemIds : List String)
    (timelineCursor : Option TimelinePosition) :
    HeadShape (appendAssistantMessage state text timestamp source messageId reservedItemIds
      timelineCursor) := by
  unfold appendAssistantMessage
  simp only []
  rcases h with rfl | ⟨item, rfl, hextends⟩
  · have hbehind : assistantBehindUser [] source messageId = none := rfl
    rw [getLast?_nil, bind_none, hbehind]
    simp only []
    split
    · exact HeadShape.nil
    split
    · exact HeadShape.nil
    · exact HeadShape.single rfl
  · obtain ⟨message, hmessage⟩ := isSome_iff_exists.mp hextends
    have hkind := kind_of_assistant (extendsAssistant_eq hmessage).1
    rw [getLast?_singleton, bind_some, hmessage]
    split
    · exact HeadShape.single (by rw [hkind]; rfl)
    · exact HeadShape.single rfl

theorem headShape_appendThought (h : state = [] ∨ ∃ item, state = [item] ∧ item.thought?.isSome)
    (text : String) (timestamp : ℤ) (timelineCursor : Option TimelinePosition) :
    HeadShape (appendThought state text timestamp timelineCursor) := by
  unfold appendThought
  simp only []
  rcases h with rfl | ⟨item, rfl, hthought⟩
  · rw [getLast?_nil, bind_none]
    simp only []
    split
    · exact HeadShape.nil
    split
    · exact HeadShape.nil
    · exact HeadShape.single rfl
  · have hkind := thought?_isSome_iff.mp hthought
    obtain ⟨thought, hbody⟩ := isSome_iff_exists.mp hthought
    rw [getLast?_singleton, bind_some, hbody]
    split
    · exact HeadShape.single (by rw [hkind]; rfl)
    · exact HeadShape.single rfl

theorem headShape_promoteCompletedAssistantBlocks (h : HeadShape lanes.head) :
    HeadShape (promoteCompletedAssistantBlocks parse lanes).head := by
  unfold promoteCompletedAssistantBlocks
  split
  · exact h
  · simp only []
    split
    · exact h
    · constructor
      · simpa using h.short
      · intro item hitem
        rcases mem_or_eq_of_mem_set hitem with hold | rfl
        · exact h.streamable item hold
        · rfl

/-! ## Deciding about the head -/

/-- Whether an event moves the head to the tail. -/
def movesHead (head : List StreamItem) (event : AgentStreamEventPayload) : Bool :=
  isCompletionEvent event || shouldFlushHead head event

theorem spoken_resume (hhead : lanes.head = []) (hlast : lanes.tail.getLast? = some item) (voice : Voice) :
    spoken voice ((lanes.resume item).tail ++ (lanes.resume item).head) =
      spoken voice (lanes.tail ++ lanes.head) := by
  rw [hhead, Lanes.resume, append_nil, spoken_dropLast_append hlast]
  simp

theorem getTailAssistantToResume_eq (h : getTailAssistantToResume lanes event = some item) :
    lanes.head = [] ∧ lanes.tail.getLast? = some item ∧
      (extendsAssistant (getIncomingAssistantMessageId event) item).isSome := by
  unfold getTailAssistantToResume at h
  split at h
  · next hkind =>
    obtain ⟨hlast, hextends⟩ := filter_eq_some_iff.mp h
    exact ⟨hkind.2, hlast, hextends⟩
  · cases h

theorem spoken_flushedLanes (h : movesHead head event = true → Fresh tail head) (voice : Voice) :
    spoken voice ((flushedLanes tail head event).tail ++ (flushedLanes tail head event).head) =
      spoken voice (tail ++ head) := by
  unfold flushedLanes
  by_cases hflush : shouldFlushHead head event = true
  · rw [if_pos hflush]
    exact Fresh.spoken_flushHead (Lanes.start tail head)
      (h (by simp [movesHead, hflush])) voice
  · rw [if_neg hflush]
    rfl

theorem decidedLanes_of_none (h : getTailAssistantToResume (flushedLanes tail head event) event = none) :
    decidedLanes tail head event = flushedLanes tail head event := by
  simp only [decidedLanes, h, elim_none]

theorem decidedLanes_of_some
    (h : getTailAssistantToResume (flushedLanes tail head event) event = some item) :
    decidedLanes tail head event = (flushedLanes tail head event).resume item := by
  simp only [decidedLanes, h, elim_some]

/-- Deciding about the head keeps what is said. -/
theorem spoken_decidedLanes (h : movesHead head event = true → Fresh tail head) (voice : Voice) :
    spoken voice ((decidedLanes tail head event).tail ++ (decidedLanes tail head event).head) =
      spoken voice (tail ++ head) := by
  cases hresume : getTailAssistantToResume (flushedLanes tail head event) event with
  | none =>
    rw [decidedLanes_of_none hresume]
    exact spoken_flushedLanes h voice
  | some item =>
    obtain ⟨hhead, hlast, _⟩ := getTailAssistantToResume_eq hresume
    rw [decidedLanes_of_some hresume, spoken_resume hhead hlast]
    exact spoken_flushedLanes h voice

/-- A head of one item that an event leaves in place is of the event's kind, and an
assistant chunk extends it. -/
theorem shouldFlushHead_single (hkind : getEventItemKind event = some kind)
    (hstreamable : isStreamableKind item.kind = true) (h : shouldFlushHead [item] event = false) :
    item.kind = kind ∧ (item.kind = .assistantMessage →
      (extendsAssistant (getIncomingAssistantMessageId event) item).isSome) := by
  unfold shouldFlushHead at h
  simp only [hkind, reverse_singleton, find?_cons, hstreamable] at h
  split at h
  · cases h
  split at h
  · cases h
  · next hsame =>
    rw [ne_eq, not_not] at hsame
    refine ⟨hsame, ?_⟩
    intro hassistant
    obtain ⟨message, hmessage⟩ := isSome_iff_exists.mp (assistant?_isSome_iff.mpr hassistant)
    rw [hmessage] at h
    rw [extendsAssistant, hmessage, isSome_iff_exists]
    refine ⟨message, filter_eq_some_iff.mpr ⟨rfl, ?_⟩⟩
    cases hid : getIncomingAssistantMessageId event with
    | none => rfl
    | some id => simpa [hid] using h

theorem flushedLanes_head (hhead : HeadShape head) (hkind : getEventItemKind event = some kind) :
    (flushedLanes tail head event).head = [] ∨
      ∃ item, (flushedLanes tail head event).head = [item] ∧ item.kind = kind ∧
        (item.kind = .assistantMessage →
          (extendsAssistant (getIncomingAssistantMessageId event) item).isSome) := by
  unfold flushedLanes
  by_cases hflush : shouldFlushHead head event = true
  · rw [if_pos hflush]
    exact .inl (flushHead_head _)
  · rw [if_neg hflush]
    rcases hhead.eq_nil_or_single with rfl | ⟨item, rfl, hstreamable⟩
    · exact .inl rfl
    · refine .inr ⟨item, rfl, ?_⟩
      exact shouldFlushHead_single hkind hstreamable (by simpa using hflush)

theorem decidedLanes_head (tail : List StreamItem) (hhead : HeadShape head)
    (hkind : getEventItemKind event = some kind) :
    (decidedLanes tail head event).head = [] ∨
      ∃ item, (decidedLanes tail head event).head = [item] ∧ item.kind = kind ∧
        (item.kind = .assistantMessage →
          (extendsAssistant (getIncomingAssistantMessageId event) item).isSome) := by
  cases hresume : getTailAssistantToResume (flushedLanes tail head event) event with
  | none =>
    rw [decidedLanes_of_none hresume]
    exact flushedLanes_head hhead hkind
  | some item =>
    rw [decidedLanes_of_some hresume]
    obtain ⟨_, _, hextends⟩ := getTailAssistantToResume_eq hresume
    obtain ⟨message, hmessage⟩ := isSome_iff_exists.mp hextends
    have hassistant : kind = .assistantMessage := by
      unfold getTailAssistantToResume at hresume
      split at hresume
      · next h => exact some.inj (hkind.symm.trans h.1)
      · cases hresume
    refine .inr ⟨item, rfl, ?_, fun _ => hextends⟩
    rw [hassistant]
    exact kind_of_assistant (extendsAssistant_eq hmessage).1

end Orqara.Stream
