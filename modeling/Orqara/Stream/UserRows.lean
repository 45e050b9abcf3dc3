import Orqara.Stream.Edits
import Orqara.Stream.NoTextLost

/-!
# The rows of user messages

Only submitted prompts and canonical user messages bring rows; every other event keeps them or drops
some. A canonical message goes into the first row that it matches, from the tail on.
-/

namespace Orqara.Stream

open Timeline Lanes List Option

/-! ## Rows -/

def userRows (items : List StreamItem) : List UserMessage := items.filterMap StreamItem.user?

/-- Two rows have a client id or a message id in common. -/
def SharesId (a b : UserMessage) : Prop :=
  a.clientMessageId.isSome ∧ a.clientMessageId = b.clientMessageId ∨
    a.messageId.isSome ∧ a.messageId = b.messageId

instance (a b : UserMessage) : Decidable (SharesId a b) := inferInstanceAs (Decidable (_ ∨ _))

theorem SharesId.symm {a b : UserMessage} (h : SharesId a b) : SharesId b a := by
  rcases h with ⟨hsome, heq⟩ | ⟨hsome, heq⟩
  · exact .inl ⟨heq ▸ hsome, heq.symm⟩
  · exact .inr ⟨heq ▸ hsome, heq.symm⟩

/-- No two rows share an id. -/
def ShownOnce (rows : List UserMessage) : Prop := rows.Pairwise fun a b => ¬ SharesId a b

theorem ShownOnce.sublist {rows rows' : List UserMessage} (h : ShownOnce rows)
    (hsub : rows'.Sublist rows) : ShownOnce rows' := List.Pairwise.sublist hsub h

theorem ShownOnce.perm {rows rows' : List UserMessage} (h : ShownOnce rows) (hperm : rows.Perm rows') :
    ShownOnce rows' :=
  (hperm.pairwise_iff fun hab hba => hab hba.symm).mp h

@[simp] theorem userRows_append (xs ys : List StreamItem) :
    userRows (xs ++ ys) = userRows xs ++ userRows ys := List.filterMap_append

@[simp] theorem userRows_nil : userRows [] = [] := rfl

theorem userRows_cons_of_some {item : StreamItem} {row : UserMessage} (h : item.user? = some row)
    (items : List StreamItem) : userRows (item :: items) = row :: userRows items :=
  filterMap_cons_some h

variable {items : List StreamItem} {message incoming : UserMessageItem} {result : UserMessageProductionResult}
  {inserts : Bool} {timelineCursor : Option TimelinePosition}

theorem userRows_eq_nil (h : ∀ item ∈ items, item.user? = none) :
    userRows items = [] := List.filterMap_eq_nil_iff.mpr h

/-- Items with the same rows one by one. -/
theorem userRows_map {f : StreamItem → StreamItem} (h : ∀ item, (f item).user? = item.user?)
    (items : List StreamItem) : userRows (items.map f) = userRows items := by
  unfold userRows
  rw [filterMap_map]
  congr 1
  funext item
  exact h item

theorem userRows_finalize (items : List StreamItem) :
    userRows (finalizeActiveThoughts items) = userRows items :=
  userRows_map user?_markThoughtReady items

theorem userRows_sublist {items' : List StreamItem} (h : items.Sublist items') :
    (userRows items).Sublist (userRows items') := h.filterMap _

/-- An item with another one's row in its place. -/
theorem userRows_set_same {index : ℕ} {old new : StreamItem} (hold : items[index]? = some old)
    (h : new.user? = old.user?) :
    userRows (items.set index new) = userRows items := filterMap_set_same hold h

theorem userRows_set_none {index : ℕ} {new : StreamItem} (h : new.user? = none) :
    (userRows (items.set index new)).Sublist (userRows items) := by
  by_cases hlt : index < items.length
  · rw [set_eq_take_append_cons_drop, if_pos hlt]
    have hsplit : items = items.take index ++ items[index] :: items.drop (index + 1) := by
      rw [getElem_cons_drop, take_append_drop]
    conv_rhs => rw [hsplit]
    rw [userRows_append, userRows_append]
    apply List.Sublist.append_left
    have hnew : userRows (new :: items.drop (index + 1)) = userRows (items.drop (index + 1)) :=
      filterMap_cons_none h
    rw [hnew]
    exact userRows_sublist (sublist_cons_self _ _)
  · rw [set_eq_of_length_le (by omega)]

theorem userRows_turnId (items : List StreamItem) (turnId : Option String) :
    userRows (applyTimelineTurnId items turnId) = userRows items := by
  unfold applyTimelineTurnId
  split
  · next turnId last hturn hlast =>
    rw [dropLast_append_eq_set hlast]
    exact userRows_set_same (getElem?_of_getLast? hlast) rfl
  · rfl

theorem user?_of_kind {item : StreamItem} (h : item.kind ≠ .userMessage) : item.user? = none := by
  unfold StreamItem.kind at h
  unfold StreamItem.user?
  split
  · next hbody =>
    rw [hbody] at h
    contradiction
  · rfl

/-- Other events bring no row. -/
theorem Edit.userRows_sublist {kind : StreamItemKind} {replaces : StreamItem → Prop}
    {state edited : List StreamItem} (h : Edit kind replaces state edited) (hkind : kind ≠ .userMessage) :
    (userRows edited).Sublist (userRows state) := by
  cases h with
  | keep => exact List.Sublist.refl _
  | update hold holdKind hsame =>
    apply userRows_set_none
    rw [← holdKind, ← hsame.kind] at hkind
    exact user?_of_kind hkind
  | replace hold hnew hid hreplaces =>
    apply userRows_set_none
    rw [← hnew] at hkind
    exact user?_of_kind hkind
  | @append items hnew =>
    have hnone : ∀ item ∈ items, item.user? = none := by
      intro item hitem
      rw [← hnew item hitem] at hkind
      exact user?_of_kind hkind
    rw [userRows_append, userRows_eq_nil hnone, append_nil]

theorem userRows_reduceStreamUpdate (state : List StreamItem) (event : AgentStreamEventPayload)
    (timestamp : ℤ) (source : StreamUpdateSource) (reservedItemIds : List String)
    (timelineCursor : Option TimelinePosition) :
    (userRows (reduceStreamUpdate state event timestamp source reservedItemIds
      timelineCursor)).Sublist (userRows state) := by
  unfold reduceStreamUpdate
  split
  · next provider item turnId =>
    rw [userRows_turnId]
    obtain ⟨kind, edited, hkind, -, hedit, hresult⟩ := edit_reduceTimelineEvent state provider item
      turnId timestamp source reservedItemIds timelineCursor
    have hsub := hedit.userRows_sublist hkind
    rcases hresult with hresult | hresult
    · rwa [hresult]
    · rwa [hresult, userRows_finalize]
  · rw [userRows_finalize]

/-! ## Lanes -/

theorem userRows_flushHeadToTail (tail head : List StreamItem) :
    (userRows (flushHeadToTail tail head)).Sublist (userRows (tail ++ head)) := by
  unfold flushHeadToTail
  rw [userRows_append, userRows_append]
  apply List.Sublist.append_left
  have hfilter := userRows_sublist (filter_sublist (l := finalizeActiveThoughts head)
    (p := fun item => !(tail.map (·.id)).contains item.id))
  rwa [userRows_finalize] at hfilter

def Lanes.rows (lanes : Lanes) : List UserMessage := userRows (lanes.tail ++ lanes.head)

theorem rows_flushHead (lanes : Lanes) : (lanes.flushHead.rows).Sublist lanes.rows := by
  unfold flushHead
  split
  · exact List.Sublist.refl _
  · have hflush := userRows_flushHeadToTail lanes.tail lanes.head
    simpa [rows, setTail] using hflush

theorem rows_flushedLanes (tail head : List StreamItem) (event : AgentStreamEventPayload) :
    (flushedLanes tail head event).rows.Sublist (userRows (tail ++ head)) := by
  unfold flushedLanes
  split
  · exact rows_flushHead _
  · exact List.Sublist.refl _

theorem rows_decidedLanes (tail head : List StreamItem) (event : AgentStreamEventPayload) :
    (decidedLanes tail head event).rows.Sublist (userRows (tail ++ head)) := by
  have hflushed := rows_flushedLanes tail head event
  cases hresume : getTailAssistantToResume (flushedLanes tail head event) event with
  | none =>
    rw [decidedLanes_of_none hresume]
    exact hflushed
  | some item =>
    obtain ⟨hhead, hlast, -⟩ := getTailAssistantToResume_eq hresume
    rw [decidedLanes_of_some hresume]
    have hsplit := dropLast_append_getLast? item hlast
    have hrows : ((flushedLanes tail head event).resume item).rows =
        (flushedLanes tail head event).rows := by
      simp only [rows, resume, hsplit, hhead, append_nil]
    rwa [hrows]

section

variable (parse : MarkdownParser)

theorem rows_promote (lanes : Lanes) :
    (promoteCompletedAssistantBlocks parse lanes).rows.Sublist lanes.rows := by
  unfold promoteCompletedAssistantBlocks
  split
  · exact List.Sublist.refl _
  · next index item message hactive =>
    simp only []
    split
    · exact List.Sublist.refl _
    · have hblocks : userRows (completedBlocks parse lanes.head) = [] := by
        apply userRows_eq_nil
        intro block hblock
        simp only [completedBlocks, hactive, elim_some, promotedItems, List.mem_map] at hblock
        obtain ⟨entry, -, rfl⟩ := hblock
        rfl
      have hflush := userRows_flushHeadToTail lanes.tail (completedBlocks parse lanes.head)
      rw [userRows_append, hblocks, append_nil] at hflush
      have hhead : (userRows (lanes.head.set index (liveItem item message
          (splitMarkdownBlocks parse message.text)))).Sublist (userRows lanes.head) :=
        userRows_set_none rfl
      simpa [rows, setTail] using hflush.append hhead

theorem rows_applyToLanes (lanes : Lanes) (event : AgentStreamEventPayload) (timestamp : ℤ)
    (source : StreamUpdateSource) (timelineCursor : Option TimelinePosition) :
    (applyToLanes parse lanes event timestamp source timelineCursor).rows.Sublist lanes.rows := by
  unfold applyToLanes
  split
  · next kind hkind =>
    have hgrown : (grownLanes lanes kind event timestamp source timelineCursor).rows.Sublist
        lanes.rows := by
      have hreduce := userRows_reduceStreamUpdate lanes.head event timestamp source
        (reservedIds lanes kind) timelineCursor
      simpa [rows, grownLanes, setHead] using hreduce
    unfold applyToHead
    simp only []
    split
    · exact (rows_promote parse _).trans hgrown
    · exact hgrown
  · have hreduce := userRows_reduceStreamUpdate lanes.tail event timestamp source [] timelineCursor
    simpa [rows, setTail] using hreduce

/-- An event that is no user message brings no row. -/
theorem rows_applyOtherEvent (tail head : List StreamItem) (event : AgentStreamEventPayload)
    (timestamp : ℤ) (source : StreamUpdateSource) (timelineCursor : Option TimelinePosition) :
    (applyOtherEvent parse tail head event timestamp source timelineCursor).rows.Sublist
      (userRows (tail ++ head)) := by
  unfold applyOtherEvent
  split
  · have hreduce := userRows_reduceStreamUpdate
      (finalizeActiveThoughts ((start tail head).flushHead).tail) event timestamp source []
      none
    rw [userRows_finalize] at hreduce
    have hflush := rows_flushHead (start tail head)
    simp only [rows, flushHead_head, append_nil] at hflush
    have hrows := hreduce.trans hflush
    simpa [rows, setTail, start, flushHead_head, applyCompletionToTail] using hrows
  · exact (rows_applyToLanes parse _ event timestamp source timelineCursor).trans
      (rows_decidedLanes tail head event)

end

/-! ## Placing a canonical message -/

/-- Whether a canonical message goes into a row. -/
def rowMatches (incoming existing : UserMessage) : Bool :=
  matchesUserMessage existing incoming .canonicalIncoming

/-- The ids of a row that a message has gone into. -/
structure Merged (row existing incoming : UserMessage) : Prop where
  client : row.clientMessageId = nonEmpty (incoming.clientMessageId <|> existing.clientMessageId)
  message : row.messageId = nonEmpty (incoming.messageId <|> existing.messageId)

/-- What placing a message makes of the rows; a message without content is not inserted. -/
inductive Placing (rows : List UserMessage) (incoming : UserMessage) (inserts : Bool) :
    List UserMessage → Prop
  | left {placed : List UserMessage} (h : placed.Perm rows) : Placing rows incoming inserts placed
  | inserted {placed : List UserMessage} (hinserts : inserts = true)
      (hnone : ∀ row ∈ rows, rowMatches incoming row = false)
      (h : placed.Perm (incoming :: rows)) : Placing rows incoming inserts placed
  | merged {existing row : UserMessage} {placed : List UserMessage}
      (hrows : rows.Perm (existing :: rows.eraseP (rowMatches incoming)))
      (hmatches : rowMatches incoming existing = true) (hmerged : Merged row existing incoming)
      (h : placed.Perm (row :: rows.eraseP (rowMatches incoming))) :
      Placing rows incoming inserts placed

/-- When the message goes into a row or is inserted, no other row has an id of it. -/
def Unclaimed (rows : List UserMessage) (incoming : UserMessage) (inserts : Bool) : Prop :=
  (inserts || rows.any (rowMatches incoming)) = true →
    ∀ row ∈ rows.eraseP (rowMatches incoming), ¬ SharesId row incoming

instance (rows : List UserMessage) (incoming : UserMessage) (inserts : Bool) :
    Decidable (Unclaimed rows incoming inserts) := inferInstanceAs (Decidable (_ → ∀ row ∈ _, _))

theorem eq_some_of_nonEmpty {s : Option String} {t : String} (h : nonEmpty s = some t) :
    s = some t := (Option.filter_eq_some_iff.mp h).1

/-- An id of a merged row is the message's or the old row's. -/
theorem Merged.sharesId {row existing incoming other : UserMessage}
    (h : Merged row existing incoming) (hshares : SharesId row other) :
    SharesId incoming other ∨ SharesId existing other := by
  have hpick {a b c d : Option String} (hc : c = nonEmpty (a <|> b)) (hsome : c.isSome)
      (hd : c = d) : a.isSome ∧ a = d ∨ b.isSome ∧ b = d := by
    obtain ⟨id, hid⟩ := isSome_iff_exists.mp hsome
    have hor := eq_some_of_nonEmpty (hc ▸ hid)
    cases a with
    | none => exact .inr ⟨by rw [show b = some id from hor]; rfl, by rw [← hd, hid]; exact hor⟩
    | some a => exact .inl ⟨rfl, by rw [← hd, hid]; exact hor⟩
  rcases hshares with ⟨hsome, heq⟩ | ⟨hsome, heq⟩
  · exact (hpick h.client hsome heq).imp .inl .inl
  · exact (hpick h.message hsome heq).imp .inr .inr

theorem eraseP_eq_of_none {rows : List UserMessage} {incoming : UserMessage}
    (h : ∀ row ∈ rows, rowMatches incoming row = false) :
    rows.eraseP (rowMatches incoming) = rows := by
  apply eraseP_of_forall_not
  intro row hrow
  simp [h row hrow]

theorem Placing.shownOnce {rows placed : List UserMessage} {incoming : UserMessage}
    (h : Placing rows incoming inserts placed) (hrows : ShownOnce rows)
    (hunclaimed : Unclaimed rows incoming inserts) : ShownOnce placed := by
  cases h with
  | left h => exact hrows.perm h.symm
  | inserted hinserts hnone h =>
    have hothers := hunclaimed (by rw [hinserts]; rfl)
    rw [eraseP_eq_of_none hnone] at hothers
    apply ShownOnce.perm _ h.symm
    exact List.Pairwise.cons (fun row hrow hshares => hothers row hrow hshares.symm) hrows
  | merged hold hmatches hmerged h =>
    have hany : rows.any (rowMatches incoming) = true :=
      List.any_eq_true.mpr ⟨_, hold.symm.subset mem_cons_self, hmatches⟩
    have hothers := hunclaimed (by rw [hany, Bool.or_true])
    have hpairs := pairwise_cons.mp (hrows.perm hold)
    apply ShownOnce.perm _ h.symm
    refine List.Pairwise.cons ?_ hpairs.2
    intro row hrow hshares
    rcases hmerged.sharesId hshares with hincoming | hexisting
    · exact hothers row hrow hincoming.symm
    · exact hpairs.1 row hrow hexisting

/-- The row that a message goes into, between items that it does not go into and the others. -/
theorem placing_of_split {pre post : List StreamItem} {old : StreamItem}
    {incoming existing row : UserMessage} {placed : List UserMessage}
    (hpre : ∀ row ∈ userRows pre, rowMatches incoming row = false) (hold : old.user? = some existing)
    (hmatches : rowMatches incoming existing = true) (hmerged : Merged row existing incoming)
    (hplaced : placed.Perm (row :: (userRows pre ++ userRows post))) :
    Placing (userRows (pre ++ old :: post)) incoming inserts placed := by
  have hrows : userRows (pre ++ old :: post) = userRows pre ++ existing :: userRows post := by
    rw [userRows_append, userRows_cons_of_some hold]
  have herase : (userRows (pre ++ old :: post)).eraseP (rowMatches incoming) =
      userRows pre ++ userRows post := by
    rw [hrows, eraseP_append_right _ (by simpa using hpre), eraseP_cons_of_pos hmatches]
  refine .merged ?_ hmatches hmerged (by rwa [herase])
  rw [herase, hrows]
  exact perm_middle

theorem createUserMessage_eq {id : Option String} {input : UserMessageItem}
    (h : createUserMessage id input = .ok message) :
    message.clientMessageId = nonEmpty input.clientMessageId ∧
      message.messageId = nonEmpty input.messageId ∧
      message.turnId = nonEmpty input.turnId := by
  unfold createUserMessage at h
  split at h
  · contradiction
  · rw [← Except.ok.inj h]
    exact ⟨rfl, rfl, rfl⟩

theorem merged_mergeUserMessage {existing merged : UserMessageItem}
    (h : mergeUserMessage existing incoming .existing = .ok merged) :
    Merged merged.toUserMessage existing.toUserMessage incoming.toUserMessage := by
  obtain ⟨hclient, hmessage, -⟩ := createUserMessage_eq h
  exact ⟨hclient, hmessage⟩

/-- A row that a message would not change has the ids that the message would give it. -/
theorem Merged.of_same {existing merged : UserMessageItem}
    (h : Merged merged.toUserMessage existing.toUserMessage incoming.toUserMessage)
    (hsame : sameUserMessage existing merged = true) :
    Merged existing.toUserMessage existing.toUserMessage incoming.toUserMessage := by
  have heq : existing = { merged with turnId := existing.turnId } := of_decide_eq_true hsame
  have hrow := congrArg UserMessageItem.toUserMessage heq
  dsimp only at hrow
  rwa [← hrow] at h

/-- Where a message is placed in a list. -/
inductive Production (items : List StreamItem) (incoming : UserMessageItem)
    (insertAt : Option ℕ) : UserMessageProductionResult → Prop
  | unmatched (hnone : ∀ row ∈ userRows items, rowMatches incoming.toUserMessage row = false) :
      Production items incoming insertAt
        ⟨insertAt.elim items fun i => items.take i ++ incoming.toItem :: items.drop i, insertAt,
          incoming, false⟩
  | matched {pre post : List StreamItem} {old new : StreamItem} {existing : UserMessage}
      {message : UserMessageItem} (hitems : items = pre ++ old :: post)
      (hpre : ∀ row ∈ userRows pre, rowMatches incoming.toUserMessage row = false)
      (hold : old.user? = some existing)
      (hmatches : rowMatches incoming.toUserMessage existing = true)
      (hnew : new.user? = some message.toUserMessage)
      (hmerged : Merged message.toUserMessage existing incoming.toUserMessage)
      (hturn : new.turnId = message.turnId ∧
        (message.turnId = old.turnId ∨ message.turnId = nonEmpty old.turnId)) :
      Production items incoming insertAt ⟨pre ++ new :: post, some pre.length, message, true⟩

theorem production_produceUserMessage {insertAt : Option ℕ}
    (h : produceUserMessage items incoming insertAt .existing .canonicalIncoming = .ok result) :
    Production items incoming insertAt result := by
  unfold produceUserMessage at h
  simp only [] at h
  split at h
  · next hfound =>
    have hnone : ∀ row ∈ userRows items, rowMatches incoming.toUserMessage row = false := by
      cases hindex : items.findIdx? fun item => item.user?.any fun existing =>
          matchesUserMessage existing incoming.toUserMessage .canonicalIncoming with
      | none =>
        intro row hrow
        obtain ⟨item, hitem, huser⟩ := mem_filterMap.mp hrow
        have hnot := findIdx?_eq_none_iff.mp hindex item hitem
        rwa [huser, any_some] at hnot
      | some index =>
        rw [hindex, bind_some] at hfound
        obtain ⟨hlt, huser, -⟩ := findIdx?_eq_some_iff_getElem.mp hindex
        obtain ⟨row, hrow, -⟩ := (Option.any_eq_true _ _).mp huser
        rw [getElem?_eq_getElem hlt, bind_some, StreamItem.userItem?, hrow] at hfound
        contradiction
    cases insertAt with
    | none =>
      rw [← Except.ok.inj h]
      exact .unmatched hnone
    | some index =>
      rw [← Except.ok.inj h]
      exact .unmatched hnone
  · next index existing hfound =>
    obtain ⟨found, hindex, hbind⟩ := bind_eq_some_iff.mp hfound
    obtain ⟨item, hitem, hexisting⟩ := bind_eq_some_iff.mp hbind
    obtain ⟨stored, hstored, heq⟩ := map_eq_some_iff.mp hexisting
    obtain ⟨rfl, rfl⟩ := Prod.mk.inj heq
    obtain ⟨hlt, huser, hbefore⟩ := findIdx?_eq_some_iff_getElem.mp hindex
    have hget : items[found] = item := by
      rw [getElem?_eq_getElem hlt] at hitem
      exact some.inj hitem
    have hold : item.user? = some stored.toUserMessage := by
      unfold StreamItem.userItem? at hstored
      obtain ⟨user, hsome, heq⟩ := map_eq_some_iff.mp hstored
      rw [hsome, ← heq]
    have hturn : stored.turnId = item.turnId := by
      unfold StreamItem.userItem? at hstored
      obtain ⟨user, -, heq⟩ := map_eq_some_iff.mp hstored
      rw [← heq]
    have hsplit : items = items.take found ++ item :: items.drop (found + 1) := by
      rw [← hget, getElem_cons_drop, take_append_drop]
    have hlength : (items.take found).length = found := by
      rw [length_take]
      omega
    have hpre : ∀ row ∈ userRows (items.take found),
        rowMatches incoming.toUserMessage row = false := by
      intro row hrow
      obtain ⟨other, hother, hsome⟩ := mem_filterMap.mp hrow
      obtain ⟨j, hj, hat⟩ := mem_take_iff_getElem.mp hother
      have hnot := hbefore j (by omega)
      rw [hat, hsome, any_some, Bool.not_eq_true] at hnot
      exact hnot
    have hmatches : rowMatches incoming.toUserMessage stored.toUserMessage = true := by
      rwa [hget, hold, any_some] at huser
    obtain ⟨merged, hmerge, hresult⟩ := bind_eq_ok.mp h
    have hmerged := merged_mergeUserMessage hmerge
    have hmergedTurn : merged.turnId = nonEmpty stored.turnId := (createUserMessage_eq hmerge).2.2
    split at hresult
    · next hsame =>
      have hproduction : Production items incoming insertAt _ :=
        .matched hsplit hpre hold hmatches hold (hmerged.of_same hsame)
          ⟨hturn.symm, .inl hturn⟩
      rw [← Except.ok.inj hresult]
      rwa [← hsplit, hlength] at hproduction
    · have hproduction : Production items incoming insertAt _ :=
        .matched hsplit hpre hold hmatches (toItem_user? merged) hmerged
          ⟨rfl, .inr (hturn ▸ hmergedTurn)⟩
      rw [← Except.ok.inj hresult]
      rw [hlength] at hproduction
      rwa [set_eq_take_append_cons_drop, if_pos hlt]

/-- A message that goes into a row of a list goes into that row of the lanes around it. -/
theorem placing_of_production (pre post : List StreamItem) (inserts : Bool)
    (h : Production items incoming none result) (hmatched : result.matched = true)
    (hpre : ∀ row ∈ userRows pre, rowMatches incoming.toUserMessage row = false) :
    Placing (userRows (pre ++ (items ++ post))) incoming.toUserMessage inserts
      (userRows (pre ++ (result.items ++ post))) := by
  cases h with
  | unmatched hnone => contradiction
  | @matched before after old new existing message hitems hbefore hold hmatches hnew hmerged hturn =>
    have hall : ∀ row ∈ userRows (pre ++ before),
        rowMatches incoming.toUserMessage row = false := by
      intro row hrow
      rw [userRows_append] at hrow
      rcases mem_append.mp hrow with hrow | hrow
      · exact hpre row hrow
      · exact hbefore row hrow
    have hsplit : pre ++ (items ++ post) = (pre ++ before) ++ old :: (after ++ post) := by
      rw [hitems]
      simp
    rw [hsplit]
    apply placing_of_split hall hold hmatches hmerged
    have hplaced : userRows (pre ++ (before ++ new :: after ++ post)) =
        userRows (pre ++ before) ++ message.toUserMessage :: userRows (after ++ post) := by
      rw [← userRows_cons_of_some hnew, ← userRows_append]
      simp
    rw [hplaced]
    exact perm_middle

theorem rows_of_unmatched (h : Production items incoming none result)
    (hunmatched : ¬ result.matched = true) :
    (∀ row ∈ userRows items, rowMatches incoming.toUserMessage row = false) ∧
      result = ⟨items, none, incoming, false⟩ := by
  cases h with
  | unmatched hnone => exact ⟨hnone, rfl⟩
  | matched => contradiction

theorem rows_insert (items : List StreamItem) (i : ℕ) (message : UserMessageItem) :
    (userRows (items.take i ++ message.toItem :: items.drop i)).Perm
      (message.toUserMessage :: userRows items) := by
  rw [userRows_append, userRows_cons_of_some (toItem_user? message)]
  conv_rhs => rw [← take_append_drop i items]
  rw [userRows_append]
  exact perm_middle

theorem rows_of_inserted {i : ℕ} (h : Production items incoming (some i) result)
    (hnone : ∀ row ∈ userRows items, rowMatches incoming.toUserMessage row = false) :
    (userRows result.items).Perm (incoming.toUserMessage :: userRows items) := by
  cases h with
  | unmatched => exact rows_insert items i incoming
  | @matched before after old new existing message hitems hbefore hold hmatches hnew hmerged hturn =>
    have hmem : existing ∈ userRows items := by
      rw [hitems, userRows_append, userRows_cons_of_some hold]
      exact mem_append_right _ mem_cons_self
    rw [hnone existing hmem] at hmatches
    contradiction

/-- Across the lanes a message goes into the first row that it matches, from the tail on. -/
theorem placing_upsertUserMessageAcrossStream {tail head : List StreamItem} {insert : UserMessageInsert}
    {result : UserMessageStreamUpsertResult}
    (h : upsertUserMessageAcrossStream tail head message insert .existing .canonicalIncoming =
      .ok result) :
    Placing (userRows (tail ++ head)) message.toUserMessage (insert != .none)
      result.lanes.rows := by
  unfold upsertUserMessageAcrossStream at h
  obtain ⟨tailResult, htail, h⟩ := bind_eq_ok.mp h
  have htailProduction := production_produceUserMessage htail
  split at h
  · next hmatched =>
    have hplacing := placing_of_production [] head (insert != .none) htailProduction hmatched
      (by simp)
    rw [← Except.ok.inj h]
    exact hplacing
  · next hunmatched =>
    have htailNone := (rows_of_unmatched htailProduction hunmatched).1
    obtain ⟨headResult, hhead, h⟩ := bind_eq_ok.mp h
    have hheadProduction := production_produceUserMessage hhead
    split at h
    · next hmatched =>
      have hplacing := placing_of_production tail [] (insert != .none) hheadProduction hmatched
        htailNone
      simp only [append_nil] at hplacing
      rw [← Except.ok.inj h]
      exact hplacing
    · next hunmatched' =>
      have hheadNone := (rows_of_unmatched hheadProduction hunmatched').1
      have hnone : ∀ row ∈ userRows (tail ++ head),
          rowMatches message.toUserMessage row = false := by
        intro row hrow
        rw [userRows_append] at hrow
        exact (mem_append.mp hrow).elim (htailNone row) (hheadNone row)
      cases insert with
      | none =>
        rw [← Except.ok.inj h]
        exact .left (List.Perm.refl _)
      | head =>
        obtain ⟨inserted, hinserted, h⟩ := bind_eq_ok.mp h
        have hperm := rows_of_inserted (production_produceUserMessage hinserted) hheadNone
        rw [← Except.ok.inj h]
        refine .inserted rfl hnone ?_
        simp only [rows, setHead, start, userRows_append]
        exact (hperm.append_left _).trans perm_middle
      | tail =>
        obtain ⟨inserted, hinserted, h⟩ := bind_eq_ok.mp h
        have hperm := rows_of_inserted (production_produceUserMessage hinserted) htailNone
        rw [← Except.ok.inj h]
        refine .inserted rfl hnone ?_
        simp only [rows, setTail, start, userRows_append]
        exact hperm.append_right _
      | prependTail =>
        obtain ⟨inserted, hinserted, h⟩ := bind_eq_ok.mp h
        have hperm := rows_of_inserted (production_produceUserMessage hinserted) htailNone
        rw [← Except.ok.inj h]
        refine .inserted rfl hnone ?_
        simp only [rows, setTail, start, userRows_append]
        exact hperm.append_right _

/-- At the end of the tail the row that a message goes into comes last. -/
theorem placing_placeCanonicalUserMessageAtTail {tail : List StreamItem} {result : PlacedUserMessage}
    (h : placeCanonicalUserMessageAtTail tail message inserts = .ok result) :
    Placing (userRows tail) message.toUserMessage inserts (userRows result.items) := by
  unfold placeCanonicalUserMessageAtTail at h
  obtain ⟨produced, hproduced, h⟩ := bind_eq_ok.mp h
  have hproduction := production_produceUserMessage hproduced
  by_cases hmatched : produced.matched = true
  · rw [hmatched, Bool.not_true, Bool.false_and, if_neg (by decide)] at h
    rw [← Except.ok.inj h]
    cases hproduction with
    | unmatched => contradiction
    | @matched pre post old new existing merged hitems hpre hold hmatches hnew hmerged hturn =>
      rw [hitems]
      apply placing_of_split hpre hold hmatches hmerged
      have herase : (pre ++ new :: post).eraseIdx pre.length = pre ++ post := by
        rw [eraseIdx_append_of_length_le le_rfl]
        simp
      have hrows : userRows [merged.toItem] = [merged.toUserMessage] := rfl
      simp only [elim_some, herase, userRows_append, hrows]
      exact perm_append_singleton _ _
  · obtain ⟨hnone, rfl⟩ := rows_of_unmatched hproduction hmatched
    cases inserts with
    | false =>
      rw [← Except.ok.inj h]
      exact .left (List.Perm.refl _)
    | true =>
      have hrows : userRows [message.toItem] = [message.toUserMessage] := rfl
      rw [← Except.ok.inj h]
      refine .inserted rfl hnone ?_
      simp only [elim_none, userRows_append, hrows]
      exact perm_append_singleton _ _

theorem userRows_reconcile (items : List StreamItem) (clientMessageId turnId : Option String) :
    userRows (reconcileCanonicalUserTurnMembership items clientMessageId turnId) =
      userRows items := by
  rcases reconcileCanonicalUserTurnMembership_eq items clientMessageId turnId with h | ⟨index, h⟩
  · rw [h]
  · rw [h]
    cases hget : items[index]? with
    | none => rw [modify_eq_self (List.getElem?_eq_none_iff.mp hget)]
    | some item =>
      have hset : items.modify index (fun item => { item with turnId := nonEmpty turnId }) =
          items.set index { item with turnId := nonEmpty turnId } := by
        rw [modify_eq_set_getElem?, hget]
        rfl
      rw [hset]
      exact userRows_set_same hget rfl

/-! ## Canonical events -/

/-- The row of a canonical user message. -/
def canonicalRow (text : String) (messageId clientMessageId : Option String) : UserMessage where
  clientMessageId := nonEmpty clientMessageId
  messageId := nonEmpty messageId
  text := (normalizeChunk text).chunk
  images := []
  attachments := []

/-- The items that a canonical message is matched with: it goes to the tail behind the head, unless
unmatched messages go to the head. -/
def matchedItems (tail head : List StreamItem) (unmatchedInsert : UserMessageInsert) :
    List StreamItem :=
  if unmatchedInsert = .head then tail ++ head else (Lanes.start tail head).flushHead.tail

theorem createUserMessage_row {id messageId clientMessageId turnId : Option String} {text : String}
    {timestamp : ℤ} (h : createUserMessage id
      { id := "", messageId, clientMessageId, turnId, timelineCursor
        text := (normalizeChunk text).chunk, timestamp, images := [], attachments := [] } =
          .ok message) :
    message.toUserMessage = canonicalRow text messageId clientMessageId := by
  unfold createUserMessage at h
  split at h
  · contradiction
  · rw [← Except.ok.inj h]
    rfl

theorem placing_applyCanonicalUserMessageEvent {tail head : List StreamItem} {text : String}
    {messageId clientMessageId turnId : Option String} {timestamp : ℤ}
    {unmatchedInsert : UserMessageInsert} {result : ApplyStreamEventResult}
    (h : applyCanonicalUserMessageEvent tail head text messageId clientMessageId turnId timestamp
      timelineCursor unmatchedInsert = .ok result) :
    Placing (userRows (matchedItems tail head unmatchedInsert))
      (canonicalRow text messageId clientMessageId) (normalizeChunk text).hasContent
      (userRows (result.tail ++ result.head)) := by
  unfold applyCanonicalUserMessageEvent at h
  simp only [] at h
  obtain ⟨canonical, hcanonical, h⟩ := bind_eq_ok.mp h
  have hrow := createUserMessage_row hcanonical
  unfold matchedItems
  split at h
  · next hhead =>
    obtain ⟨reconciled, hupsert, h⟩ := bind_eq_ok.mp h
    have hplacing := placing_upsertUserMessageAcrossStream hupsert
    rw [hrow] at hplacing
    have hinserts : ((if (normalizeChunk text).hasContent = true then UserMessageInsert.head
        else UserMessageInsert.none) != .none) = (normalizeChunk text).hasContent := by
      cases (normalizeChunk text).hasContent <;> rfl
    rw [hinserts] at hplacing
    rw [if_pos hhead, ← Except.ok.inj h]
    simpa [rows, setTail, setHead, userRows_reconcile] using hplacing
  · next htail =>
    obtain ⟨placed, hplaced, h⟩ := bind_eq_ok.mp h
    have hplacing := placing_placeCanonicalUserMessageAtTail hplaced
    rw [hrow] at hplacing
    rw [if_neg htail, ← Except.ok.inj h]
    simpa [setTail, flushHead_head, userRows_reconcile] using hplacing

end Orqara.Stream
