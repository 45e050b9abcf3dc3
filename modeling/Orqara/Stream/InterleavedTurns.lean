import Orqara.Stream.ToolItems

/-!
# Interleaved turns

Events of turns in any order. As long as an event finds items of its own turn at the end of the list
and under its identities, every call that was seen has one tool item, and the items of other turns
stay with them.
-/

namespace Orqara.Stream

open Timeline List Option

/-! ## Canonical messages -/

/-- A message matches rows of a turn only. -/
def MatchesOwn (turn : String) (incoming : UserMessage) (items : List StreamItem) : Prop :=
  ∀ item ∈ items, item.user?.any (rowMatches incoming) = true → item.turnId = some turn

instance (turn : String) (incoming : UserMessage) (items : List StreamItem) :
    Decidable (MatchesOwn turn incoming items) := inferInstanceAs (Decidable (∀ item ∈ items, _))

section Rows

variable {α : Type*} {f : StreamItem → Option α} {turn : String} {incoming message : UserMessageItem}

theorem MatchesOwn.finalize {incoming : UserMessage} {items : List StreamItem}
    (h : MatchesOwn turn incoming items) :
    MatchesOwn turn incoming (finalizeActiveThoughts items) := by
  intro item hitem hmatches
  obtain ⟨source, hsource, rfl⟩ := List.mem_map.mp hitem
  rw [user?_markThoughtReady] at hmatches
  rw [(sameItem_markThoughtReady source).turnId]
  exact h source hsource hmatches

/-- Placing a message of a turn, for a reader that does not see user rows of the turn. -/
theorem Production.filterMap_eq {items : List StreamItem} {insertAt : Option ℕ}
    {result : UserMessageProductionResult} (h : Production items incoming insertAt result)
    (hturn : turn ≠ "")
    (hblind : ∀ item : StreamItem, item.user?.isSome → item.turnId = some turn → f item = none)
    (hown : MatchesOwn turn incoming.toUserMessage items) (hincoming : incoming.turnId = some turn) :
    result.items.filterMap f = items.filterMap f ∧
      MatchesOwn turn incoming.toUserMessage result.items ∧ result.message.turnId = some turn := by
  cases h with
  | unmatched hnone =>
    cases insertAt with
    | none => exact ⟨rfl, hown, hincoming⟩
    | some index =>
      have hitem : f incoming.toItem = none := hblind _ rfl hincoming
      refine ⟨?_, ?_, hincoming⟩
      · simp only [elim_some, filterMap_append, filterMap_cons_none hitem]
        rw [← filterMap_append, take_append_drop]
      · intro item hmem hmatches
        rcases mem_append.mp hmem with hmem | hmem
        · exact hown item (mem_of_mem_take hmem) hmatches
        · rcases mem_cons.mp hmem with rfl | hmem
          · exact hincoming
          · exact hown item (mem_of_mem_drop hmem) hmatches
  | @matched pre post old new existing message hitems hpre hold hmatches hnew hmerged hmembership =>
    have holdMem : old ∈ items := by
      rw [hitems]
      exact mem_append_right _ mem_cons_self
    have holdTurn : old.turnId = some turn := by
      apply hown old holdMem
      rwa [hold, any_some]
    have hmessage : message.turnId = some turn := by
      rcases hmembership.2 with hsame | hsame
      · rw [hsame, holdTurn]
      · rw [hsame, holdTurn, nonEmpty_of_ne hturn]
    have hnewTurn : new.turnId = some turn := hmembership.1.trans hmessage
    refine ⟨?_, ?_, hmessage⟩
    · have hf := hblind old (by rw [hold]; rfl) holdTurn
      have hf' := hblind new (by rw [hnew]; rfl) hnewTurn
      rw [hitems, filterMap_append, filterMap_append, filterMap_cons_none hf,
        filterMap_cons_none hf']
    · intro item hmem hitem
      rcases mem_append.mp hmem with hmem | hmem
      · exact hown item (by rw [hitems]; exact mem_append_left _ hmem) hitem
      · rcases mem_cons.mp hmem with rfl | hmem
        · exact hnewTurn
        · apply hown item _ hitem
          rw [hitems]
          exact mem_append_right _ (mem_cons_of_mem _ hmem)

/-- A row with the client id of a message matches it. -/
theorem rowMatches_of_client {incoming row : UserMessage} {clientMessageId : String}
    (hne : clientMessageId ≠ "") (hincoming : incoming.clientMessageId = some clientMessageId)
    (hrow : row.clientMessageId = some clientMessageId) : rowMatches incoming row = true := by
  simp [rowMatches, matchesUserMessage, hincoming, hrow, truthy, hne]

theorem filterMap_reconcile {items : List StreamItem} (hturn : turn ≠ "")
    (hblind : ∀ item : StreamItem, item.user?.isSome → item.turnId = some turn → f item = none)
    (hown : MatchesOwn turn incoming.toUserMessage items) :
    (reconcileCanonicalUserTurnMembership items incoming.clientMessageId (some turn)).filterMap f =
      items.filterMap f := by
  unfold reconcileCanonicalUserTurnMembership
  split
  · rfl
  · next id hid =>
    split
    · rfl
    · next index hindex =>
      obtain ⟨hlt, hrow, -⟩ := findIdx?_eq_some_iff_getElem.mp hindex
      have hold : items[index]? = some items[index] := getElem?_eq_getElem hlt
      generalize items[index] = old at hold hrow
      obtain ⟨row, huser, hsame⟩ := (Option.any_eq_true _ _).mp hrow
      have hne : id ≠ "" := by
        have hfilter := (filter_eq_some_iff.mp hid).2
        simpa using hfilter
      have hmatches : rowMatches incoming.toUserMessage row = true :=
        rowMatches_of_client hne (eq_some_of_nonEmpty hid) (beq_iff_eq.mp hsame)
      have holdTurn : old.turnId = some turn := by
        apply hown old (mem_of_getElem? hold)
        rwa [huser, any_some]
      rw [modify_eq_set_getElem?, hold]
      apply filterMap_set_same hold
      have hf := hblind old (by rw [huser]; rfl) holdTurn
      have hf' := hblind { old with turnId := nonEmpty (some turn) } (by exact huser ▸ rfl)
        (nonEmpty_of_ne hturn)
      rw [hf, hf']

theorem filterMap_placeCanonicalUserMessageAtTail {tail : List StreamItem} {inserts : Bool}
    {result : PlacedUserMessage} (h : placeCanonicalUserMessageAtTail tail message inserts = .ok result)
    (hturn : turn ≠ "")
    (hblind : ∀ item : StreamItem, item.user?.isSome → item.turnId = some turn → f item = none)
    (hown : MatchesOwn turn message.toUserMessage tail) (hmessage : message.turnId = some turn) :
    result.items.filterMap f = tail.filterMap f ∧
      MatchesOwn turn message.toUserMessage result.items := by
  unfold placeCanonicalUserMessageAtTail at h
  obtain ⟨produced, hproduced, h⟩ := bind_eq_ok.mp h
  have hproduction := production_produceUserMessage hproduced
  obtain ⟨hitems, hownItems, hplaced⟩ := hproduction.filterMap_eq hturn hblind hown hmessage
  have hend : f produced.message.toItem = none := hblind _ rfl hplaced
  have hadded {items : List StreamItem} (hown : MatchesOwn turn message.toUserMessage items) :
      MatchesOwn turn message.toUserMessage (items ++ [produced.message.toItem]) := by
    intro item hmem hmatches
    rcases mem_append.mp hmem with hmem | hmem
    · exact hown item hmem hmatches
    · rw [mem_singleton.mp hmem]
      exact hplaced
  cases hproduction with
  | unmatched hnone =>
    cases inserts with
    | false =>
      rw [← Except.ok.inj h]
      exact ⟨rfl, hown⟩
    | true =>
      rw [← Except.ok.inj h]
      refine ⟨?_, hadded hown⟩
      simp only [elim_none, filterMap_append, filterMap_cons_none hend,
        filterMap_nil, append_nil]
  | @matched pre post old new existing merged hsplit hpre hold hmatches hnew hmerged hmembership =>
    have herase : (pre ++ new :: post).eraseIdx pre.length = pre ++ post := by
      rw [eraseIdx_append_of_length_le le_rfl]
      simp
    rw [← Except.ok.inj h]
    simp only [elim_some, herase]
    have hnewOwn : new.turnId = some turn := hmembership.1.trans hplaced
    have hf : f new = none := hblind new (by rw [hnew]; rfl) hnewOwn
    constructor
    · rw [← hitems, filterMap_append, filterMap_append, filterMap_append,
        filterMap_cons_none hf, filterMap_cons_none hend, filterMap_nil,
        append_nil]
    · apply hadded
      intro item hmem hmatches
      apply hownItems item _ hmatches
      rcases mem_append.mp hmem with hmem | hmem
      · exact mem_append_left _ hmem
      · exact mem_append_right _ (mem_cons_of_mem _ hmem)

/-- What an upsert leaves of the lanes. -/
theorem filterMap_upsertUserMessageAcrossStream {tail head : List StreamItem} {insert : UserMessageInsert}
    {result : UserMessageStreamUpsertResult}
    (h : upsertUserMessageAcrossStream tail head message insert .existing .canonicalIncoming =
      .ok result) (hturn : turn ≠ "")
    (hblind : ∀ item : StreamItem, item.user?.isSome → item.turnId = some turn → f item = none)
    (htail : MatchesOwn turn message.toUserMessage tail)
    (hhead : MatchesOwn turn message.toUserMessage head) (hmessage : message.turnId = some turn) :
    (result.lanes.tail.filterMap f = tail.filterMap f ∧
      MatchesOwn turn message.toUserMessage result.lanes.tail) ∧
    result.lanes.head.filterMap f = head.filterMap f ∧
      MatchesOwn turn message.toUserMessage result.lanes.head := by
  unfold upsertUserMessageAcrossStream at h
  obtain ⟨tailResult, htailResult, h⟩ := bind_eq_ok.mp h
  have hplaced {items : List StreamItem} {insertAt : Option ℕ}
      {produced : UserMessageProductionResult}
      (hproduced : produceUserMessage items message insertAt .existing .canonicalIncoming =
        .ok produced) (hown : MatchesOwn turn message.toUserMessage items) :
      produced.items.filterMap f = items.filterMap f ∧
        MatchesOwn turn message.toUserMessage produced.items := by
    obtain ⟨hitems, hownItems, -⟩ :=
      (production_produceUserMessage hproduced).filterMap_eq hturn hblind hown hmessage
    exact ⟨hitems, hownItems⟩
  split at h
  · rw [← Except.ok.inj h]
    exact ⟨hplaced htailResult htail, rfl, hhead⟩
  · obtain ⟨headResult, hheadResult, h⟩ := bind_eq_ok.mp h
    split at h
    · rw [← Except.ok.inj h]
      exact ⟨⟨rfl, htail⟩, hplaced hheadResult hhead⟩
    · cases insert with
      | none =>
        rw [← Except.ok.inj h]
        exact ⟨⟨rfl, htail⟩, rfl, hhead⟩
      | head =>
        obtain ⟨inserted, hinserted, h⟩ := bind_eq_ok.mp h
        rw [← Except.ok.inj h]
        exact ⟨⟨rfl, htail⟩, hplaced hinserted hhead⟩
      | tail =>
        obtain ⟨inserted, hinserted, h⟩ := bind_eq_ok.mp h
        rw [← Except.ok.inj h]
        exact ⟨hplaced hinserted htail, rfl, hhead⟩
      | prependTail =>
        obtain ⟨inserted, hinserted, h⟩ := bind_eq_ok.mp h
        rw [← Except.ok.inj h]
        exact ⟨hplaced hinserted htail, rfl, hhead⟩

/-- A canonical message of a turn changes user rows of the turn only. -/
theorem filterMap_applyCanonicalUserMessageEvent {tail head : List StreamItem} {text : String}
    {messageId clientMessageId : Option String} {timestamp : ℤ}
    {timelineCursor : Option TimelinePosition} {unmatchedInsert : UserMessageInsert}
    {result : ApplyStreamEventResult}
    (h : applyCanonicalUserMessageEvent tail head text messageId clientMessageId (some turn) timestamp
      timelineCursor unmatchedInsert = .ok result) (hturn : turn ≠ "")
    (hready : ∀ item, f (markThoughtReady item) = f item)
    (hblind : ∀ item : StreamItem, item.user?.isSome → item.turnId = some turn → f item = none)
    (hfresh : unmatchedInsert ≠ .head → Fresh tail head)
    (hown : MatchesOwn turn (canonicalRow text messageId clientMessageId) (tail ++ head)) :
    result.toLanes.items.filterMap f = (tail ++ head).filterMap f := by
  unfold applyCanonicalUserMessageEvent at h
  simp only [] at h
  obtain ⟨canonical, hcanonical, h⟩ := bind_eq_ok.mp h
  have hrow := createUserMessage_row hcanonical
  have hmessage : canonical.turnId = some turn :=
    (createUserMessage_eq hcanonical).2.2.trans (nonEmpty_of_ne hturn)
  rw [← hrow] at hown
  have hownTail : MatchesOwn turn canonical.toUserMessage tail := fun item hitem =>
    hown item (mem_append_left _ hitem)
  have hownHead : MatchesOwn turn canonical.toUserMessage head := fun item hitem =>
    hown item (mem_append_right _ hitem)
  split at h
  · obtain ⟨reconciled, hupsert, h⟩ := bind_eq_ok.mp h
    obtain ⟨⟨htail, htailOwn⟩, hhead, hheadOwn⟩ :=
      filterMap_upsertUserMessageAcrossStream hupsert hturn hblind hownTail hownHead hmessage
    rw [← Except.ok.inj h]
    simp only [Lanes.items, Lanes.setTail, Lanes.setHead, filterMap_append,
      filterMap_reconcile hturn hblind htailOwn, filterMap_reconcile hturn hblind hheadOwn, htail,
      hhead]
  · next hinsert =>
    obtain ⟨placed, hplaced, h⟩ := bind_eq_ok.mp h
    have hflush := filterMap_flushHead hready (Lanes.start tail head) (hfresh hinsert)
    have hflushOwn : MatchesOwn turn canonical.toUserMessage
        ((Lanes.start tail head).flushHead).tail := by
      intro item hitem
      unfold Lanes.flushHead at hitem
      split at hitem
      · exact hownTail item hitem
      · rcases mem_append.mp hitem with hitem | hitem
        · exact hownTail item hitem
        · exact hownHead.finalize item (mem_of_mem_filter hitem)
    obtain ⟨hitems, hitemsOwn⟩ := filterMap_placeCanonicalUserMessageAtTail hplaced hturn hblind
      hflushOwn hmessage
    simp only [Lanes.items, flushHead_head, append_nil] at hflush
    rw [← Except.ok.inj h]
    simp only [Lanes.items, Lanes.setTail, flushHead_head, append_nil,
      filterMap_reconcile hturn hblind hitemsOwn, hitems, hflush]
    rfl

end Rows

/-! ## Steps -/

/-- An event of a turn, as it comes to the lanes. -/
structure TurnEvent where
  provider : String
  item : AgentTimelineItem
  turn : String
  timestamp : ℤ
  source : StreamUpdateSource
  timelineCursor : Option TimelinePosition
  unmatchedUserMessageInsert : UserMessageInsert

def TurnEvent.payload (event : TurnEvent) : AgentStreamEventPayload :=
  .timeline event.provider event.item (some event.turn)

def TurnEvent.op (event : TurnEvent) : Op :=
  .event event.payload event.timestamp event.source event.timelineCursor
    event.unmatchedUserMessageInsert

def Transcript.applyTurns (parse : MarkdownParser) (transcript : Transcript)
    (events : List TurnEvent) : Transcript :=
  transcript.run parse (events.map TurnEvent.op)

def Transcript.items (transcript : Transcript) : List StreamItem :=
  transcript.tail ++ transcript.head

/-- Whether an event moves the head to the tail. -/
def TurnEvent.flushes (transcript : Transcript) (event : TurnEvent) : Prop :=
  match event.item with
  | .userMessage .. => event.unmatchedUserMessageInsert ≠ .head
  | _ => shouldFlushHead transcript.head event.payload = true

/-- What an event changes is of its own turn. -/
def TurnEvent.ChangesOwn (transcript : Transcript) (event : TurnEvent) : Prop :=
  match event.item with
  | .userMessage text messageId clientMessageId =>
    MatchesOwn event.turn (canonicalRow text messageId clientMessageId) transcript.items
  | item =>
    OwnTurn (targetLane transcript.tail transcript.head event.payload) event.provider item event.turn
      event.timestamp event.source

/-- An event that leaves other turns alone: its turn has a name, the head that it moves has ids of its
own, and what it changes is of its turn. -/
structure TurnEvent.Own (transcript : Transcript) (event : TurnEvent) : Prop where
  named : event.turn ≠ ""
  fresh : event.flushes transcript → Fresh transcript.tail transcript.head
  changes : event.ChangesOwn transcript

instance (transcript : Transcript) (event : TurnEvent) : Decidable (event.flushes transcript) := by
  unfold TurnEvent.flushes
  split <;> infer_instance

instance (transcript : Transcript) (event : TurnEvent) : Decidable (event.ChangesOwn transcript) := by
  unfold TurnEvent.ChangesOwn
  split <;> infer_instance

instance (transcript : Transcript) (event : TurnEvent) : Decidable (event.Own transcript) :=
  decidable_of_iff (_ ∧ _ ∧ _) ⟨fun h => ⟨h.1, h.2.1, h.2.2⟩, fun h => ⟨h.named, h.fresh, h.changes⟩⟩

variable {transcript : Transcript} {event : TurnEvent}

section

variable (parse : MarkdownParser) {calls : List (String × String)}

section

variable (hown : event.Own transcript)
include hown

/-- A step changes nothing that a reader sees in user rows, or is the application of the event. -/
theorem items_step {α : Type} {f : StreamItem → Option α}
    (hready : ∀ item, f (markThoughtReady item) = f item)
    (hblind : ∀ item : StreamItem, item.user?.isSome → item.turnId = some event.turn →
      f item = none) :
    (∃ text messageId clientMessageId, event.item = .userMessage text messageId clientMessageId) ∧
      (transcript.step parse event.op).items.filterMap f = transcript.items.filterMap f ∨
    (shouldFlushHead transcript.head event.payload = true →
        Fresh transcript.tail transcript.head) ∧
      OwnTurn (targetLane transcript.tail transcript.head event.payload) event.provider event.item
        event.turn event.timestamp event.source ∧
      (transcript.step parse event.op).items = (applyOtherEvent parse transcript.tail transcript.head
        event.payload event.timestamp event.source event.timelineCursor).items := by
  obtain ⟨provider, item, turn, timestamp, source, timelineCursor, insert⟩ := event
  obtain ⟨hnamed, hfresh, hchanges⟩ := hown
  cases item with
  | userMessage text messageId clientMessageId =>
    refine .inl ⟨⟨text, messageId, clientMessageId, rfl⟩, ?_⟩
    simp only [TurnEvent.op, TurnEvent.payload, Transcript.step, applyStreamEvent]
    split
    · next result hresult =>
      exact filterMap_applyCanonicalUserMessageEvent hresult hnamed hready hblind hfresh hchanges
    · rfl
  | _ => exact .inr ⟨hfresh, hchanges, rfl⟩

theorem othersOf_step :
    (othersOf event.turn transcript.items).Sublist
      (othersOf event.turn (transcript.step parse event.op).items) := by
  rcases items_step parse hown otherOf_markThoughtReady fun item _ => otherOf_own with
    ⟨-, hsame⟩ | ⟨hfresh, hchanges, hitems⟩
  · have heq : othersOf event.turn (transcript.step parse event.op).items =
        othersOf event.turn transcript.items := hsame
    rw [heq]
  · rw [hitems]
    exact othersOf_applyOtherEvent parse event.timelineCursor hfresh hchanges

omit hown in
theorem toolKey?_of_user {item : StreamItem} (h : item.user?.isSome) : item.toolKey? = none := by
  apply toolKey?_of_kind
  intro hkind
  rw [user?_of_kind (by rw [hkind]; decide)] at h
  contradiction

theorem toolKeys_step (hnamed : TurnsNamed (toolKeys transcript.items)) :
    toolKeys (transcript.step parse event.op).items =
      withCall (toolKeys transcript.items) event.turn (calledTool event.provider event.item) := by
  rcases items_step parse hown toolKey?_markThoughtReady fun item huser _ => toolKey?_of_user huser with
    ⟨⟨text, messageId, clientMessageId, huser⟩, hsame⟩ | ⟨hfresh, hchanges, hitems⟩
  · rw [huser]
    exact hsame
  · rw [hitems]
    exact toolKeys_applyOtherEvent parse event.timelineCursor hown.named hnamed hfresh hchanges

end

/-! ## Runs -/

/-- The condition along a run. -/
def Transcript.OwnAlong (parse : MarkdownParser) : Transcript → List TurnEvent → Prop
  | _, [] => True
  | transcript, event :: events =>
    event.Own transcript ∧ (transcript.step parse event.op).OwnAlong parse events

instance decidableOwnAlong (parse : MarkdownParser) :
    ∀ (transcript : Transcript) (events : List TurnEvent), Decidable (transcript.OwnAlong parse events)
  | _, [] => .isTrue trivial
  | transcript, event :: events =>
    have := decidableOwnAlong parse (transcript.step parse event.op) events
    inferInstanceAs (Decidable (_ ∧ _))

/-- The turn and the call of an event that is shown as a call. -/
def TurnEvent.call? (event : TurnEvent) : Option (String × String) :=
  (calledTool event.provider event.item).map fun callId => (event.turn, callId)

def seenCalls (events : List TurnEvent) : List (String × String) :=
  events.filterMap TurnEvent.call?

/-- Every call that was seen has one tool item, and there is no other. -/
structure OneItemEach (calls : List (String × String)) (items : List StreamItem) : Prop where
  once : (toolKeys items).Nodup
  seen : ∀ key, key ∈ toolKeys items ↔ ∃ call ∈ calls, key = (some call.1, call.2)

theorem OneItemEach.withCall {items items' : List StreamItem} {turn : String} {called : Option String}
    (h : OneItemEach calls items) (hitems : toolKeys items' = withCall (toolKeys items) turn called) :
    OneItemEach (calls ++ (called.map fun callId => (turn, callId)).toList) items' := by
  cases called with
  | none =>
    rw [map_none, toList_none, append_nil]
    exact ⟨hitems ▸ h.once, hitems ▸ h.seen⟩
  | some callId =>
    have hcalls : ∀ key : Option String × String,
        (∃ call ∈ calls ++ [(turn, callId)], key = (some call.1, call.2)) ↔
          key ∈ toolKeys items ∨ key = (some turn, callId) := by
      intro key
      rw [h.seen]
      constructor
      · rintro ⟨call, hcall, rfl⟩
        rcases mem_append.mp hcall with hcall | hcall
        · exact .inl ⟨call, hcall, rfl⟩
        · rw [mem_singleton.mp hcall]
          exact .inr rfl
      · rintro (⟨call, hcall, rfl⟩ | rfl)
        · exact ⟨call, mem_append_left _ hcall, rfl⟩
        · exact ⟨(turn, callId), mem_append_right _ (mem_singleton_self _), rfl⟩
    by_cases hmem : (some turn, callId) ∈ toolKeys items
    · rw [Stream.withCall, if_pos hmem] at hitems
      refine ⟨hitems ▸ h.once, ?_⟩
      intro key
      rw [hitems, map_some, toList_some, hcalls]
      constructor
      · exact .inl
      · rintro (hkey | rfl)
        · exact hkey
        · exact hmem
    · rw [Stream.withCall, if_neg hmem] at hitems
      constructor
      · rw [hitems, nodup_append]
        refine ⟨h.once, nodup_singleton _, ?_⟩
        intro key hkey other hother heq
        rw [mem_singleton.mp hother] at heq
        exact hmem (heq ▸ hkey)
      · intro key
        rw [hitems, map_some, toList_some, hcalls, mem_append,
          mem_singleton]

theorem oneItemEach_run (events : List TurnEvent) (h : OneItemEach calls transcript.items)
    (hcalls : ∀ call ∈ calls, call.1 ≠ "") (hown : transcript.OwnAlong parse events) :
    OneItemEach (calls ++ seenCalls events) (transcript.applyTurns parse events).items := by
  induction events generalizing transcript calls with
  | nil =>
    rw [seenCalls, filterMap_nil, append_nil]
    exact h
  | cons event events ih =>
    have hnamed : TurnsNamed (toolKeys transcript.items) := by
      intro key hkey
      obtain ⟨call, hcall, rfl⟩ := (h.seen key).mp hkey
      exact ⟨call.1, rfl, hcalls call hcall⟩
    have hstep := h.withCall (toolKeys_step parse hown.1 hnamed)
    have hseen : calls ++ seenCalls (event :: events) =
        (calls ++ event.call?.toList) ++ seenCalls events := by
      rw [append_assoc]
      congr 1
      unfold seenCalls
      cases hcall : event.call? with
      | none => rw [filterMap_cons_none hcall]; rfl
      | some call => rw [filterMap_cons_some hcall]; rfl
    rw [hseen]
    apply ih hstep _ hown.2
    intro call hcall
    rcases mem_append.mp hcall with hcall | hcall
    · exact hcalls call hcall
    · obtain ⟨callId, -, rfl⟩ := map_eq_some_iff.mp (mem_toList.mp hcall)
      exact hown.1.named

end

theorem own_of_ownAlong {parse : MarkdownParser} {after : List TurnEvent} (before : List TurnEvent)
    (h : transcript.OwnAlong parse (before ++ event :: after)) :
    event.Own (transcript.applyTurns parse before) := by
  induction before generalizing transcript with
  | nil => exact h.1
  | cons first before ih => exact ih h.2

def toolEvent (turn callId : String) (status : ToolCallStatus) : TurnEvent where
  provider := "codex"
  item := .toolCall { callId, name := "shell", status, error := none, detail := ⟨.shell, []⟩
                      metadata := none, extra := [] }
  turn := turn
  timestamp := 5
  source := .live
  timelineCursor := none
  unmatchedUserMessageInsert := .tail

/-- An update of the first turn's call after the second turn's call has started. -/
def overlapping : List TurnEvent :=
  [toolEvent "t" "a" .running, toolEvent "u" "b" .running, toolEvent "t" "a" .completed]

/-- The second turn's call is updated while its item is the last one. -/
def nested : List TurnEvent :=
  [toolEvent "t" "a" .running, toolEvent "u" "b" .running, toolEvent "u" "b" .completed,
    { toolEvent "t" "" .running with item := .assistantMessage "done" none }]

end Orqara.Stream
