import Orqara.Stream.HeadToTail

/-!
# No streamed text is lost

Runs of chunks, tool calls, user messages and turn ends from an empty transcript.
-/

namespace Orqara.Stream

open Timeline List Option

/-! ## User rows

A user row is rebuilt from the stored one, which needs the id it was stored with. -/

/-- Every user row has an identity. -/
def UsersIdentified (items : List StreamItem) : Prop :=
  ∀ item ∈ items, item.user?.isSome → item.id ≠ ""

/-- The user rows of a result are user rows of the state it was made from. -/
def KeepsUsers (state result : List StreamItem) : Prop :=
  ∀ item ∈ result, item.user?.isSome → ∃ source ∈ state, source.user?.isSome ∧ source.id = item.id

variable {state items : List StreamItem} {item : StreamItem} {result : List StreamItem}
  {message : UserMessageItem}

theorem KeepsUsers.identified (h : KeepsUsers state result) (hstate : UsersIdentified state) :
    UsersIdentified result := by
  intro item hitem huser
  obtain ⟨source, hsource, hsourceUser, hid⟩ := h item hitem huser
  rw [← hid]
  exact hstate source hsource hsourceUser

theorem KeepsUsers.refl (state : List StreamItem) : KeepsUsers state state :=
  fun item hitem huser => ⟨item, hitem, huser, rfl⟩

theorem KeepsUsers.trans {middle : List StreamItem} (h : KeepsUsers state middle)
    (h' : KeepsUsers middle result) : KeepsUsers state result := by
  intro item hitem huser
  obtain ⟨source, hsource, hsourceUser, hid⟩ := h' item hitem huser
  obtain ⟨origin, horigin, horiginUser, hid'⟩ := h source hsource hsourceUser
  exact ⟨origin, horigin, horiginUser, hid'.trans hid⟩

theorem KeepsUsers.of_subset (h : result ⊆ state) :
    KeepsUsers state result := fun item hitem huser => ⟨item, h hitem, huser, rfl⟩

/-- An item that is no user row may be added. -/
theorem KeepsUsers.append (h : KeepsUsers state result) (hitems : ∀ item ∈ items, item.user? = none) :
    KeepsUsers state (result ++ items) := by
  intro item hitem huser
  rcases mem_append.mp hitem with hold | hnew
  · exact h item hold huser
  · rw [hitems item hnew] at huser
    cases huser

/-- An item that is no user row may take another one's place. -/
theorem KeepsUsers.set {index : ℕ} (h : item.user? = none) : KeepsUsers state (state.set index item) := by
  intro found hfound huser
  rcases mem_or_eq_of_mem_set hfound with hold | rfl
  · exact ⟨found, hold, huser, rfl⟩
  · rw [h] at huser
    cases huser

open KeepsUsers

theorem KeepsUsers.dropLast_append (h : item.user? = none) :
    KeepsUsers state (state.dropLast ++ [item]) := by
  apply append (of_subset (dropLast_subset state))
  intro found hfound
  rw [mem_singleton.mp hfound, h]

theorem user?_markThoughtReady (item : StreamItem) : (markThoughtReady item).user? = item.user? := by
  unfold markThoughtReady
  split
  · next thought hbody => simp [StreamItem.user?, hbody]
  · rfl

theorem KeepsUsers.finalize (state : List StreamItem) :
    KeepsUsers state (finalizeActiveThoughts state) := by
  intro item hitem huser
  obtain ⟨source, hsource, rfl⟩ := List.mem_map.mp hitem
  refine ⟨source, hsource, ?_, (id_markThoughtReady source).symm⟩
  rwa [user?_markThoughtReady] at huser

theorem KeepsUsers.turnId (state : List StreamItem) (turnId : Option String) :
    KeepsUsers state (applyTimelineTurnId state turnId) := by
  unfold applyTimelineTurnId
  split
  · next turnId last hturn hlast =>
    intro item hitem huser
    rcases mem_append.mp hitem with hold | hnew
    · exact ⟨item, dropLast_subset state hold, huser, rfl⟩
    · rw [mem_singleton.mp hnew] at huser ⊢
      exact ⟨last, mem_of_getLast? hlast, huser, rfl⟩
  · exact refl state

theorem keepsUsers_appendAgentToolCall (state : List StreamItem) (data : AgentToolCallData)
    (timestamp : ℤ) (turnId : Option String) (timelineCursor : Option TimelinePosition) :
    KeepsUsers state (appendAgentToolCall state data timestamp turnId timelineCursor) := by
  unfold appendAgentToolCall
  simp only []
  split
  · split
    · exact refl state
    · split
      · exact refl state
      · exact set rfl
  · exact (refl state).append (by simp [StreamItem.user?])

theorem keepsUsers_pushActivities (provider : String) (items : List TodoEntry) (timestamp : ℤ)
    (timelineCursor : Option TimelinePosition) (activities : List TaskActivity) :
    ∀ next : List StreamItem, KeepsUsers state next →
      KeepsUsers state (activities.foldl (fun next activity =>
        next ++ [todoItem next provider items timestamp timelineCursor activity]) next) := by
  induction activities with
  | nil => exact fun next h => h
  | cons activity activities ih =>
    intro next h
    exact ih _ (h.append (by simp [StreamItem.user?, todoItem]))

theorem keepsUsers_appendTodoList (state : List StreamItem) (provider : String)
    (items : List TodoEntry) (timestamp : ℤ) (timelineCursor : Option TimelinePosition) :
    KeepsUsers state (appendTodoList state provider items timestamp timelineCursor) := by
  unfold appendTodoList
  simp only []
  split
  · split
    · exact refl state
    · exact set rfl
  · split
    · exact dropLast_append rfl
    · exact keepsUsers_pushActivities provider _ timestamp timelineCursor _ state
        (refl state)

theorem keepsUsers_reduceTimelineToolCall (state : List StreamItem) (provider : String)
    (item : ToolCallTimelineItem) (turnId : Option String) (timestamp : ℤ)
    (timelineCursor : Option TimelinePosition) :
    KeepsUsers state
      (reduceTimelineToolCall state provider item turnId timestamp timelineCursor) := by
  unfold reduceTimelineToolCall
  simp only []
  split
  · exact refl state
  split
  · split
    · exact refl state
    · apply keepsUsers_appendTodoList
  split
  · exact refl state
  split
  · apply keepsUsers_appendTodoList
  · apply keepsUsers_appendAgentToolCall

/-- The tail gets no user row from the head. -/
theorem keepsUsers_flushHeadToTail {tail head : List StreamItem}
    (h : ∀ item ∈ head, item.user? = none) : KeepsUsers tail (flushHeadToTail tail head) := by
  unfold flushHeadToTail
  apply (refl tail).append
  intro item hitem
  obtain ⟨source, hsource, rfl⟩ := List.mem_map.mp (mem_of_mem_filter hitem)
  rw [user?_markThoughtReady, h source hsource]

theorem HeadShape.user? {head : List StreamItem} (h : HeadShape head) :
    ∀ item ∈ head, item.user? = none := by
  intro item hitem
  have hkind := h.streamable item hitem
  unfold StreamItem.kind at hkind
  unfold StreamItem.user?
  cases hbody : item.body <;> simp_all [isStreamableKind]

/-! ## User messages -/

theorem toItem_user? (message : UserMessageItem) :
    message.toItem.user? = some message.toUserMessage := rfl

theorem createUserMessage_ok {id : String} (h : id ≠ "") (input : UserMessageItem) :
    ∃ message, createUserMessage (some id) input = .ok message ∧ message.id = id := by
  unfold createUserMessage
  have hid : nonEmpty (some id <|> input.clientMessageId <|> input.messageId) = some id := by
    simp [nonEmpty, h]
  rw [hid]
  exact ⟨_, rfl, rfl⟩

theorem createUniqueTimelineId_ne (state : List StreamItem) (text : String) (timestamp : ℤ) :
    createUniqueTimelineId state "user" text timestamp ≠ "" := by
  unfold createUniqueTimelineId createTimelineId
  intro h
  have hlist := congrArg String.toList h
  simp at hlist

/-- What a row in place of another user row, or of none, leaves as it was. -/
structure Placed (items : List StreamItem) (result : UserMessageProductionResult) : Prop where
  spoken : ∀ voice, spoken voice result.items = spoken voice items
  identified : UsersIdentified result.items
  message : result.message.id ≠ ""
  user : ∀ index ∈ result.index, ∃ item, result.items[index]? = some item ∧ item.user?.isSome

theorem userItem?_eq (h : item.userItem? = some message) :
    item.user?.isSome ∧ message.id = item.id := by
  unfold StreamItem.userItem? at h
  obtain ⟨user, huser, rfl⟩ := map_eq_some_iff.mp h
  exact ⟨by simp [huser], rfl⟩

theorem produceUserMessage_ok (hitems : UsersIdentified items) {incoming : UserMessageItem}
    (hincoming : incoming.id ≠ "") (policy : UserMessageMatchPolicy) :
    ∃ result, produceUserMessage items incoming none .existing policy = .ok result ∧
      Placed items result := by
  unfold produceUserMessage
  simp only []
  split
  · exact ⟨_, rfl, fun _ => rfl, hitems, hincoming, by simp⟩
  · next index existing hfound =>
    obtain ⟨i, hi, hitem⟩ := bind_eq_some_iff.mp hfound
    obtain ⟨item, hget, hexisting⟩ := bind_eq_some_iff.mp hitem
    obtain ⟨stored, huserItem, heq⟩ := map_eq_some_iff.mp hexisting
    obtain ⟨rfl, rfl⟩ := Prod.mk.inj heq
    obtain ⟨huser, hid⟩ := userItem?_eq huserItem
    have hne : stored.id ≠ "" := by
      rw [hid]
      exact hitems item (mem_of_getElem? hget) huser
    obtain ⟨merged, hmerged, hmergedId⟩ := createUserMessage_ok hne
      { stored with
        clientMessageId := incoming.clientMessageId <|> stored.clientMessageId
        messageId := incoming.messageId <|> stored.messageId
        timelineCursor := incoming.timelineCursor <|> stored.timelineCursor }
    have hmerge : mergeUserMessage stored incoming .existing = .ok merged := hmerged
    rw [hmerge]
    simp only [Except.bind, bind]
    split
    · refine ⟨_, rfl, fun _ => rfl, hitems, hne, ?_⟩
      intro index hindex
      obtain rfl := mem_some_iff.mp hindex
      exact ⟨item, hget, huser⟩
    · have hlt := (List.getElem?_eq_some_iff.mp hget).1
      refine ⟨_, rfl, ?_, ?_, by rw [hmergedId]; exact hne, ?_⟩
      · intro voice
        have hnew : visible (merged.toItem.textIn voice) = [] :=
          visible_user (by rw [toItem_user?]; rfl) voice
        exact spoken_set hget (hnew.trans (visible_user huser voice).symm)
      · intro found hfound huser'
        rcases mem_or_eq_of_mem_set hfound with hmem | rfl
        · exact hitems found hmem huser'
        · exact fun h => hne (hmergedId.symm.trans h)
      · intro index hindex
        obtain rfl := mem_some_iff.mp hindex
        exact ⟨merged.toItem, by simp [hlt], by rw [toItem_user?]; rfl⟩

theorem spoken_eraseIdx_user {index : ℕ} (hget : items[index]? = some item) (huser : item.user?.isSome)
    (voice : Voice) :
    spoken voice (items.eraseIdx index) = spoken voice items := by
  obtain ⟨hlt, hitem⟩ := List.getElem?_eq_some_iff.mp hget
  have hsplit : items = items.take index ++ item :: items.drop (index + 1) := by
    rw [← hitem, getElem_cons_drop, take_append_drop]
  rw [eraseIdx_eq_take_drop_succ, spoken_append]
  conv_rhs => rw [hsplit]
  rw [spoken_append, spoken_cons, visible_user huser, nil_append]

theorem placeCanonicalUserMessageAtTail_ok {tail : List StreamItem} (htail : UsersIdentified tail)
    (hmessage : message.id ≠ "") (insertWhenUnmatched : Bool) :
    ∃ result, placeCanonicalUserMessageAtTail tail message insertWhenUnmatched = .ok result ∧
      (∀ voice, spoken voice result.items = spoken voice tail) ∧
      UsersIdentified result.items := by
  obtain ⟨produced, hproduced, hplaced⟩ :=
    produceUserMessage_ok htail hmessage .canonicalIncoming
  unfold placeCanonicalUserMessageAtTail
  rw [hproduced]
  simp only [bind, Except.bind]
  split
  · exact ⟨_, rfl, hplaced.spoken, hplaced.identified⟩
  · have hlast (voice : Voice) : visible (produced.message.toItem.textIn voice) = [] :=
      visible_user (by rw [toItem_user?]; rfl) voice
    refine ⟨_, rfl, ?_, ?_⟩
    · intro voice
      rw [spoken_append, spoken_cons, hlast voice, spoken_nil]
      cases hindex : produced.index with
      | none => simp [hplaced.spoken voice]
      | some index =>
        obtain ⟨item, hget, huser⟩ := hplaced.user index hindex
        simp [spoken_eraseIdx_user hget huser voice, hplaced.spoken voice]
    · intro item hitem huser
      rcases mem_append.mp hitem with hold | hnew
      · cases hindex : produced.index with
        | none => exact hplaced.identified item (by simpa [hindex] using hold) huser
        | some index =>
          exact hplaced.identified item
            (mem_of_mem_eraseIdx (by simpa [hindex] using hold)) huser
      · rw [mem_singleton.mp hnew]
        exact hplaced.message

theorem reconcileCanonicalUserTurnMembership_eq (items : List StreamItem)
    (clientMessageId turnId : Option String) :
    reconcileCanonicalUserTurnMembership items clientMessageId turnId = items ∨
      ∃ index, reconcileCanonicalUserTurnMembership items clientMessageId turnId =
        items.modify index fun item => { item with turnId := nonEmpty turnId } := by
  unfold reconcileCanonicalUserTurnMembership
  split
  · exact .inl rfl
  · split
    · exact .inl rfl
    · exact .inr ⟨_, rfl⟩

theorem spoken_reconcile (voice : Voice) (items : List StreamItem)
    (clientMessageId turnId : Option String) :
    spoken voice (reconcileCanonicalUserTurnMembership items clientMessageId turnId) =
      spoken voice items := by
  rcases reconcileCanonicalUserTurnMembership_eq items clientMessageId turnId with h | ⟨index, h⟩
  · rw [h]
  · rw [h]
    apply spoken_congr
    apply ext_getElem?
    intro i
    rw [getElem?_map, getElem?_map, getElem?_modify]
    split
    · cases items[i]? <;> rfl
    · cases items[i]? <;> rfl

theorem usersIdentified_reconcile (h : UsersIdentified items) (clientMessageId turnId : Option String) :
    UsersIdentified (reconcileCanonicalUserTurnMembership items clientMessageId turnId) := by
  rcases reconcileCanonicalUserTurnMembership_eq items clientMessageId turnId with heq | ⟨index, heq⟩
  · rw [heq]
    exact h
  · rw [heq]
    intro item hitem huser
    obtain ⟨i, hget⟩ := mem_iff_getElem?.mp hitem
    rw [getElem?_modify, Option.map_eq_map, map_eq_some_iff] at hget
    obtain ⟨source, hsource, rfl⟩ := hget
    have hmem := mem_of_getElem? hsource
    by_cases hi : index = i
    · rw [if_pos hi] at huser ⊢
      exact h source hmem huser
    · rw [if_neg hi] at huser ⊢
      exact h source hmem huser

/-- A user message with an identity is placed, says nothing, and leaves the head empty. -/
theorem applyCanonicalUserMessageEvent_ok {tail head : List StreamItem}
    (htail : UsersIdentified tail) (hhead : HeadShape head) (hfresh : Fresh tail head)
    {messageId : Option String} (hid : messageId ≠ some "") (text : String)
    (clientMessageId turnId : Option String) (timestamp : ℤ)
    (timelineCursor : Option TimelinePosition) :
    ∃ result, applyCanonicalUserMessageEvent tail head text messageId clientMessageId turnId
        timestamp timelineCursor .tail = .ok result ∧ result.head = [] ∧
      UsersIdentified result.tail ∧
      ∀ voice, spoken voice (result.tail ++ result.head) = spoken voice (tail ++ head) := by
  unfold applyCanonicalUserMessageEvent
  simp only []
  have hne : messageId.getD (createUniqueTimelineId (tail ++ head) "user"
      (trim (normalizeChunk text).chunk) timestamp) ≠ "" := by
    cases messageId with
    | none => exact createUniqueTimelineId_ne _ _ _
    | some id => exact fun h => hid (by rw [show id = "" from h])
  obtain ⟨canonical, hcanonical, hcanonicalId⟩ := createUserMessage_ok hne
    { id := "", messageId, clientMessageId, turnId, timelineCursor
      text := (normalizeChunk text).chunk, timestamp, images := [], attachments := [] }
  rw [hcanonical]
  have hflushed : UsersIdentified ((Lanes.start tail head).flushHead).tail := by
    unfold Lanes.flushHead
    split
    · exact htail
    · exact (keepsUsers_flushHeadToTail hhead.user?).identified htail
  obtain ⟨placed, hplaced, hspoken, hidentified⟩ :=
    placeCanonicalUserMessageAtTail_ok hflushed (hcanonicalId ▸ hne)
      (normalizeChunk text).hasContent
  simp only [bind, Except.bind]
  rw [if_neg (by decide), hplaced]
  refine ⟨_, rfl, flushHead_head _, usersIdentified_reconcile hidentified _ _, ?_⟩
  intro voice
  have hflush := Fresh.spoken_flushHead (Lanes.start tail head) hfresh voice
  rw [flushHead_head, append_nil] at hflush
  simp only [Lanes.setTail]
  rw [flushHead_head, append_nil, spoken_reconcile, hspoken voice, hflush]
  rfl

/-! ## Runs -/

/-- A live event as `applyStreamEvent` gets it. -/
structure StreamedEvent where
  event : AgentStreamEventPayload
  timestamp : ℤ
  timelineCursor : Option TimelinePosition

/-- Chunks of messages and thoughts, tool calls, user messages and the ends of turns. -/
def isTranscriptEvent : AgentStreamEventPayload → Bool
  | .timeline _ (.assistantMessage ..) _ | .timeline _ (.reasoning _) _
  | .timeline _ (.toolCall _) _ | .timeline _ (.userMessage ..) _
  | .turnCompleted | .turnFailed | .turnCanceled => true
  | _ => false

structure Transcript where
  tail : List StreamItem
  head : List StreamItem
  deriving DecidableEq

def emptyTranscript : Transcript where
  tail := []
  head := []

def Transcript.apply (parse : MarkdownParser) (transcript : Transcript) (e : StreamedEvent) :
    Except String Transcript := do
  let result ← applyStreamEvent parse transcript.tail transcript.head e.event e.timestamp .live
    e.timelineCursor .tail
  return { tail := result.tail, head := result.head }

def Transcript.applyAll (parse : MarkdownParser) (transcript : Transcript)
    (events : List StreamedEvent) : Except String Transcript :=
  events.foldlM (Transcript.apply parse) transcript

/-- The lanes in which an assistant chunk has grown the head, before blocks are promoted. -/
def Transcript.grown (transcript : Transcript) (e : StreamedEvent) : Lanes :=
  grownLanes (decidedLanes transcript.tail transcript.head e.event) .assistantMessage e.event
    e.timestamp .live e.timelineCursor

/-- An empty id is no identity. -/
def hasIdentity : AgentStreamEventPayload → Bool
  | .timeline _ (.userMessage _ messageId _) _ => messageId != some ""
  | _ => true

/-- Every item that a step moves to the tail has an id of its own there, and a user
message has an identity. -/
structure OwnIds (parse : MarkdownParser) (transcript : Transcript) (e : StreamedEvent) : Prop where
  head : movesHead transcript.head e.event = true → Fresh transcript.tail transcript.head
  blocks : getEventItemKind e.event = some .assistantMessage →
    Fresh (transcript.grown e).tail (completedBlocks parse (transcript.grown e).head)
  user : hasIdentity e.event = true

instance (parse : MarkdownParser) (transcript : Transcript) (e : StreamedEvent) :
    Decidable (OwnIds parse transcript e) :=
  decidable_of_iff (_ ∧ _ ∧ _)
    ⟨fun h => ⟨h.1, h.2.1, h.2.2⟩, fun h => ⟨h.head, h.blocks, h.user⟩⟩

/-- The condition along a run. -/
def OwnIdsAlong (parse : MarkdownParser) : Transcript → List StreamedEvent → Prop
  | _, [] => True
  | transcript, e :: events =>
    OwnIds parse transcript e ∧
      match transcript.apply parse e with
      | .ok next => OwnIdsAlong parse next events
      | .error _ => True

instance decidableOwnIdsAlong (parse : MarkdownParser) :
    ∀ (transcript : Transcript) (events : List StreamedEvent),
      Decidable (OwnIdsAlong parse transcript events)
  | _, [] => isTrue trivial
  | transcript, e :: events =>
    have : Decidable (match transcript.apply parse e with
        | .ok next => OwnIdsAlong parse next events
        | .error _ => True) :=
      match transcript.apply parse e with
      | .ok next => decidableOwnIdsAlong parse next events
      | .error _ => isTrue trivial
    inferInstanceAs (Decidable (_ ∧ _))

/-- What is received in a voice. -/
def heard (voice : Voice) (event : AgentStreamEventPayload) : List Char :=
  visible (chunkIn voice event)

/-- Between two events. -/
structure Transcript.Wellformed (transcript : Transcript) : Prop where
  head : HeadShape transcript.head
  users : UsersIdentified transcript.tail

/-- What one step does to a transcript. -/
structure Transcript.Hears (transcript : Transcript) (event : AgentStreamEventPayload)
    (next : Transcript) : Prop where
  wellformed : next.Wellformed
  spoken : ∀ voice, spoken voice (next.tail ++ next.head) =
    spoken voice (transcript.tail ++ transcript.head) ++ heard voice event

theorem keepsUsers_decidedLanes {tail head : List StreamItem} (hhead : HeadShape head)
    (event : AgentStreamEventPayload) : KeepsUsers tail (decidedLanes tail head event).tail := by
  have hflushed : KeepsUsers tail (flushedLanes tail head event).tail := by
    unfold flushedLanes Lanes.flushHead
    split
    · split
      · exact refl tail
      · exact keepsUsers_flushHeadToTail hhead.user?
    · exact refl tail
  cases hresume : getTailAssistantToResume (flushedLanes tail head event) event with
  | none =>
    rw [decidedLanes_of_none hresume]
    exact hflushed
  | some item =>
    rw [decidedLanes_of_some hresume]
    exact hflushed.trans (of_subset (dropLast_subset _))

theorem keepsUsers_promoteCompletedAssistantBlocks (parse : MarkdownParser) (lanes : Lanes) :
    KeepsUsers lanes.tail (promoteCompletedAssistantBlocks parse lanes).tail := by
  unfold promoteCompletedAssistantBlocks
  split
  · exact refl _
  · next index item message hactive =>
    simp only []
    split
    · exact refl _
    · apply keepsUsers_flushHeadToTail
      intro block hblock
      simp only [completedBlocks, hactive, elim_some, promotedItems, List.mem_map] at hblock
      obtain ⟨entry, _, rfl⟩ := hblock
      rfl

section Step

variable {parse : MarkdownParser} {transcript : Transcript} {e : StreamedEvent}

section

variable (hwell : transcript.Wellformed) (hown : OwnIds parse transcript e) {provider : String}
  {text : String}
include hwell hown

/-- An assistant chunk. -/
theorem hears_assistant {messageId turnId : Option String}
    (he : e.event = .timeline provider (.assistantMessage text messageId) turnId) :
    ∃ next, transcript.apply parse e = .ok next ∧ transcript.Hears e.event next := by
  have hkind : getEventItemKind e.event = some .assistantMessage := by rw [he]; rfl
  have hid : getIncomingAssistantMessageId e.event = messageId := by rw [he]; rfl
  have happly : transcript.apply parse e =
      .ok { tail := (promoteCompletedAssistantBlocks parse (transcript.grown e)).tail
            head := (promoteCompletedAssistantBlocks parse (transcript.grown e)).head } := by
    simp only [Transcript.apply, Transcript.grown, he]
    rfl
  refine ⟨_, happly, ?_⟩
  have hhead : HeadShape (transcript.grown e).head := by
    have hsingle := decidedLanes_head transcript.tail hwell.head hkind
    rw [hid] at hsingle
    have hshape : (decidedLanes transcript.tail transcript.head e.event).head = [] ∨
        ∃ item, (decidedLanes transcript.tail transcript.head e.event).head = [item] ∧
          (extendsAssistant messageId item).isSome := by
      rcases hsingle with h | ⟨item, h, hitem, hextends⟩
      · exact .inl h
      · exact .inr ⟨item, h, hextends hitem⟩
    rw [Transcript.grown, grownLanes, he]
    rw [he] at hshape
    exact ((headShape_appendAssistantMessage hshape ..).finalize).turnId turnId
  refine ⟨⟨headShape_promoteCompletedAssistantBlocks hhead, ?_⟩, ?_⟩
  · apply ((keepsUsers_decidedLanes hwell.head e.event).trans ?_).identified hwell.users
    exact keepsUsers_promoteCompletedAssistantBlocks parse (transcript.grown e)
  · intro voice
    rw [spoken_promoteCompletedAssistantBlocks hhead.short (hown.blocks hkind),
      ← spoken_decidedLanes hown.head]
    have hgrown : spoken voice (transcript.grown e).head =
        spoken voice (decidedLanes transcript.tail transcript.head e.event).head ++
          added voice .assistant text := by
      rw [Transcript.grown, grownLanes, he]
      simp only [Lanes.setHead, reduceStreamUpdate, reduceTimelineEvent,
        spoken_applyTimelineTurnId, spoken_finalizeActiveThoughts, spoken_appendAssistantMessage]
    have hheard : heard voice e.event = added voice .assistant text := by
      rw [he]
      cases voice <;> simp [heard, chunkIn, added]
    rw [spoken_append, spoken_append, hgrown, hheard, append_assoc]
    rfl

/-- A thought chunk. -/
theorem hears_reasoning {turnId : Option String}
    (he : e.event = .timeline provider (.reasoning text) turnId) :
    ∃ next, transcript.apply parse e = .ok next ∧ transcript.Hears e.event next := by
  have hkind : getEventItemKind e.event = some .thought := by rw [he]; rfl
  let decided := decidedLanes transcript.tail transcript.head e.event
  let grown := grownLanes decided .thought e.event e.timestamp .live e.timelineCursor
  have happly : transcript.apply parse e = .ok { tail := grown.tail, head := grown.head } := by
    simp only [Transcript.apply, grown, decided, he]
    rfl
  refine ⟨_, happly, ?_⟩
  have hshape : decided.head = [] ∨ ∃ item, decided.head = [item] ∧ item.thought?.isSome := by
    rcases decidedLanes_head transcript.tail hwell.head hkind with h | ⟨item, h, hitem, _⟩
    · exact .inl h
    · exact .inr ⟨item, h, thought?_isSome_iff.mpr hitem⟩
  have hgrown : grown.head = applyTimelineTurnId
      (appendThought decided.head text e.timestamp e.timelineCursor) turnId := by
    simp only [grown, grownLanes, he]
    rfl
  refine ⟨⟨?_, ?_⟩, ?_⟩
  · rw [hgrown]
    exact (headShape_appendThought hshape ..).turnId turnId
  · exact (keepsUsers_decidedLanes hwell.head e.event).identified hwell.users
  · intro voice
    have hheard : heard voice e.event = added voice .thought text := by
      rw [he]
      cases voice <;> simp [heard, chunkIn, added]
    rw [← spoken_decidedLanes hown.head]
    simp only [spoken_append, hgrown, spoken_applyTimelineTurnId, spoken_appendThought, hheard,
      append_assoc]
    rfl

/-- A tool call. -/
theorem hears_toolCall {item : ToolCallTimelineItem} {turnId : Option String}
    (he : e.event = .timeline provider (.toolCall item) turnId) :
    ∃ next, transcript.apply parse e = .ok next ∧ transcript.Hears e.event next := by
  have hkind : getEventItemKind e.event = some .toolCall := by rw [he]; rfl
  let decided := decidedLanes transcript.tail transcript.head e.event
  have hempty : decided.head = [] := by
    rcases decidedLanes_head transcript.tail hwell.head hkind with h | ⟨item, h, hitem, _⟩
    · exact h
    · -- a head that is left in place would be a tool call, which no head is
      have hflushed : (flushedLanes transcript.tail transcript.head e.event).head = [] := by
        unfold flushedLanes
        rcases hwell.head.eq_nil_or_single with hhead | ⟨only, hhead, _⟩
        · rw [hhead]
          split
          · exact flushHead_head _
          · rfl
        · have hflush : shouldFlushHead transcript.head e.event = true := by
            rw [hhead]
            unfold shouldFlushHead
            simp only [hkind]
            rfl
          rw [if_pos hflush]
          exact flushHead_head _
      have hresume : getTailAssistantToResume
          (flushedLanes transcript.tail transcript.head e.event) e.event = none := by
        unfold getTailAssistantToResume
        rw [if_neg (by simp [hkind])]
      exact (congrArg Lanes.head (decidedLanes_of_none hresume)).trans hflushed
  let reduced := finalizeActiveThoughts (reduceTimelineToolCall decided.tail provider item turnId
    e.timestamp e.timelineCursor)
  have happly : transcript.apply parse e =
      .ok { tail := applyTimelineTurnId reduced turnId, head := decided.head } := by
    simp only [Transcript.apply, reduced, decided, he]
    rfl
  refine ⟨_, happly, ⟨?_, ?_⟩, ?_⟩
  · rw [hempty]
    exact HeadShape.nil
  · have hreduced : KeepsUsers decided.tail (applyTimelineTurnId reduced turnId) :=
      ((keepsUsers_reduceTimelineToolCall _ _ _ _ _ _).trans (KeepsUsers.finalize _)).trans
        (KeepsUsers.turnId _ turnId)
    exact ((keepsUsers_decidedLanes hwell.head e.event).trans hreduced).identified hwell.users
  · intro voice
    have hheard : heard voice e.event = [] := by
      rw [he]
      cases voice <;> rfl
    rw [← spoken_decidedLanes hown.head, hheard, append_nil]
    simp only [spoken_append, reduced, spoken_applyTimelineTurnId, spoken_finalizeActiveThoughts,
      spoken_reduceTimelineToolCall]
    rfl

/-- The end of a turn. -/
theorem hears_completion (he : isCompletionEvent e.event = true) :
    ∃ next, transcript.apply parse e = .ok next ∧ transcript.Hears e.event next := by
  let flushed := (Lanes.start transcript.tail transcript.head).flushHead
  have hreduce (state : List StreamItem) :
      reduceStreamUpdate state e.event e.timestamp .live [] none = finalizeActiveThoughts state := by
    unfold isCompletionEvent at he
    split at he
    all_goals first | (next h => rw [h]; rfl) | cases he
  have hheard (voice : Voice) : heard voice e.event = [] := by
    unfold isCompletionEvent at he
    split at he
    all_goals first | (next h => rw [h]; cases voice <;> rfl) | cases he
  have happly : transcript.apply parse e =
      .ok { tail := finalizeActiveThoughts (finalizeActiveThoughts flushed.tail)
            head := flushed.head } := by
    have hother : applyStreamEvent parse transcript.tail transcript.head e.event e.timestamp .live
        e.timelineCursor .tail = .ok { applyOtherEvent parse transcript.tail transcript.head e.event
          e.timestamp .live e.timelineCursor with acknowledgedClientMessageIds := [] } := by
      unfold isCompletionEvent at he
      split at he
      all_goals first | (next h => rw [h]; rfl) | cases he
    simp only [Transcript.apply, hother, applyOtherEvent, if_pos he, applyCompletionToTail, hreduce,
      Lanes.setTail]
    rfl
  refine ⟨_, happly, ⟨?_, ?_⟩, ?_⟩
  · rw [flushHead_head]
    exact HeadShape.nil
  · have hflushed : KeepsUsers transcript.tail flushed.tail := by
      simp only [flushed]
      unfold Lanes.flushHead
      split
      · exact refl _
      · exact keepsUsers_flushHeadToTail hwell.head.user?
    exact ((hflushed.trans (finalize _)).trans (finalize _)).identified
      hwell.users
  · intro voice
    have hfresh : Fresh transcript.tail transcript.head := hown.head (by simp [movesHead, he])
    have hflush := Fresh.spoken_flushHead (Lanes.start transcript.tail transcript.head)
      hfresh voice
    rw [hheard voice, append_nil]
    simp only [spoken_append, spoken_finalizeActiveThoughts]
    rw [← spoken_append]
    exact hflush.trans (spoken_append _ _ _)

/-- A user message. -/
theorem hears_userMessage {messageId clientMessageId turnId : Option String}
    (he : e.event = .timeline provider (.userMessage text messageId clientMessageId) turnId) :
    ∃ next, transcript.apply parse e = .ok next ∧ transcript.Hears e.event next := by
  have hid : messageId ≠ some "" := by
    rintro rfl
    have huser := hown.user
    rw [he] at huser
    simp [hasIdentity] at huser
  have hfresh : Fresh transcript.tail transcript.head := by
    rcases hwell.head.eq_nil_or_single with hhead | ⟨item, hhead, _⟩
    · rw [hhead]
      exact Fresh.nil _
    · apply hown.head
      rw [hhead, he]
      rfl
  obtain ⟨result, hresult, hhead, husers, hspoken⟩ := applyCanonicalUserMessageEvent_ok
    hwell.users hwell.head hfresh hid text clientMessageId turnId e.timestamp e.timelineCursor
  have happly : transcript.apply parse e = .ok { tail := result.tail, head := result.head } := by
    simp only [Transcript.apply, he, applyStreamEvent, hresult]
    rfl
  refine ⟨_, happly, ⟨?_, husers⟩, ?_⟩
  · rw [hhead]
    exact HeadShape.nil
  · intro voice
    have hheard : heard voice e.event = [] := by
      rw [he]
      cases voice <;> rfl
    rw [hheard, append_nil]
    exact hspoken voice

/-- One event adds its chunk to what is said. -/
theorem hears_step (he : isTranscriptEvent e.event = true) :
    ∃ next, transcript.apply parse e = .ok next ∧ transcript.Hears e.event next := by
  unfold isTranscriptEvent at he
  split at he
  · next h => exact hears_assistant hwell hown h
  · next h => exact hears_reasoning hwell hown h
  · next h => exact hears_toolCall hwell hown h
  · next h => exact hears_userMessage hwell hown h
  · next h => exact hears_completion hwell hown (by rw [h]; rfl)
  · next h => exact hears_completion hwell hown (by rw [h]; rfl)
  · next h => exact hears_completion hwell hown (by rw [h]; rfl)
  · cases he

end

/-- A run adds its chunks, in order. -/
theorem hears_run (parse : MarkdownParser) (events : List StreamedEvent) :
    ∀ transcript : Transcript, transcript.Wellformed →
      (∀ e ∈ events, isTranscriptEvent e.event = true) → OwnIdsAlong parse transcript events →
      ∃ next, transcript.applyAll parse events = .ok next ∧
        ∀ voice, spoken voice (next.tail ++ next.head) =
          spoken voice (transcript.tail ++ transcript.head) ++
            events.flatMap fun e => heard voice e.event := by
  induction events with
  | nil =>
    intro transcript _ _ _
    exact ⟨transcript, rfl, by simp⟩
  | cons e events ih =>
    intro transcript hwell hevents hown
    obtain ⟨next, hnext, hhears⟩ := hears_step hwell hown.1 (hevents e (by simp))
    have hrest : OwnIdsAlong parse next events := by
      have halong := hown.2
      rwa [hnext] at halong
    obtain ⟨last, hlast, hspoken⟩ := ih next hhears.wellformed
      (fun e' he' => hevents e' (mem_cons_of_mem _ he')) hrest
    refine ⟨last, ?_, ?_⟩
    · rw [Transcript.applyAll, foldlM_cons, hnext]
      exact hlast
    · intro voice
      rw [hspoken voice, hhears.spoken voice, flatMap_cons, append_assoc]

end Step

/-- The texts of the items in a voice, one after the other. -/
def textsIn (voice : Voice) (items : List StreamItem) : String :=
  String.join (items.map (·.textIn voice))

/-- The chunks received in a voice, one after the other. -/
def chunksIn (voice : Voice) (events : List StreamedEvent) : String :=
  String.join (events.map fun e => chunkIn voice e.event)

theorem visible_join (texts : List String) : visible (String.join texts) = texts.flatMap visible := by
  induction texts with
  | nil => rfl
  | cons text texts ih => rw [String.join_cons, visible_append, ih, flatMap_cons]

/-- In every run from an empty transcript in which each item keeps its id to itself, what
the assistant says and what it thinks is what was received, up to white space. -/
theorem streamedText_kept (parse : MarkdownParser) (events : List StreamedEvent)
    (hevents : ∀ e ∈ events, isTranscriptEvent e.event = true)
    (hown : OwnIdsAlong parse emptyTranscript events) :
    ∃ next, emptyTranscript.applyAll parse events = .ok next ∧
      ∀ voice, visible (textsIn voice (next.tail ++ next.head)) =
        visible (chunksIn voice events) := by
  have hempty : emptyTranscript.Wellformed := ⟨HeadShape.nil, by simp [UsersIdentified, emptyTranscript]⟩
  obtain ⟨next, hnext, hspoken⟩ := hears_run parse events emptyTranscript hempty hevents hown
  refine ⟨next, hnext, ?_⟩
  intro voice
  rw [textsIn, chunksIn, visible_join, visible_join, List.flatMap_map, List.flatMap_map]
  exact hspoken voice

/-- Two paragraphs, in two chunks, and the end of the turn. -/
def paragraphs : List StreamedEvent :=
  [⟨.timeline "codex" (.assistantMessage "one\n\ntw" (some "m")) none, 5, none⟩,
    ⟨.timeline "codex" (.assistantMessage "o" (some "m")) none, 6, none⟩,
    ⟨.turnCompleted, 7, none⟩]

/-- The level-0 tokens of the texts that `paragraphs` has parsed. -/
def parseParagraphs : MarkdownParser := fun text =>
  if text = "one\n\ntw" then [(0, 1), (2, 3)] else [(0, 1)]

theorem streamedText_kept_paragraphs :
    ∃ next, emptyTranscript.applyAll parseParagraphs paragraphs = .ok next ∧
      ∀ voice, visible (textsIn voice (next.tail ++ next.head)) =
        visible (chunksIn voice paragraphs) :=
  streamedText_kept parseParagraphs paragraphs (by decide) (by decide +kernel)

/-- A tool call between two thoughts of the same text and millisecond. -/
def sameMillisecond : List StreamedEvent :=
  let tool (callId : String) : AgentStreamEventPayload := .timeline "codex" (.toolCall
    { callId, name := "shell", status := .completed, error := none, detail := ⟨.shell, []⟩
      metadata := none, extra := [] }) none
  [⟨.timeline "codex" (.reasoning "go") none, 5, none⟩, ⟨tool "a", 5, none⟩,
    ⟨.timeline "codex" (.reasoning "go") none, 5, none⟩, ⟨tool "b", 5, none⟩]

/-- The second thought gets the first one's id and is dropped when the head is flushed. -/
theorem sameMillisecond_lost :
    ((emptyTranscript.applyAll parseParagraphs sameMillisecond).toOption.map fun next =>
        visible (textsIn .thought (next.tail ++ next.head))) = some ['g', 'o'] ∧
      visible (chunksIn .thought sameMillisecond) = ['g', 'o', 'g', 'o'] := by
  decide +kernel

end Orqara.Stream
