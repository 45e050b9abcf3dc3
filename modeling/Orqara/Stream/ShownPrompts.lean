import Orqara.Stream.UserRows

/-!
# A prompt is shown once

A prompt is shown when it is submitted, under the client's id, and comes back as a canonical user
message with either id or both. A canonical message goes into the first row that it matches, and two
rows get one id when another row has an id of the message too.
-/

namespace Orqara.Stream

open Timeline

/-! ## The steps -/

def appendSubmittedUserMessage (tail head : List StreamItem) (message : UserMessageItem) :
    Except String Transcript :=
  match nonEmpty message.clientMessageId with
  | none => .error "Submitted user message requires client identity"
  | some clientMessageId =>
    if (tail ++ head).any fun item => item.user?.any (·.clientMessageId == some clientMessageId) then
      .error ("Submitted user message already exists: " ++ clientMessageId)
    else
      .ok (if head ≠ [] then ⟨tail, head ++ [message.toItem]⟩ else ⟨tail ++ [message.toItem], head⟩)

def isUnreconciledLocalUserMessage (message : UserMessageItem) : Bool :=
  message.clientMessageId.isSome && message.messageId.isNone && message.timelineCursor.isNone

def removeSubmittedUserMessage (tail head : List StreamItem) (clientMessageId : String) :
    Transcript :=
  let remove (items : List StreamItem) := items.filter fun item =>
    item.userItem?.all fun message =>
      message.clientMessageId != some clientMessageId || !isUnreconciledLocalUserMessage message
  ⟨remove tail, remove head⟩

/-- What is done to the lanes of an agent. -/
inductive Op
  | submit (message : UserMessageItem)
  | reject (clientMessageId : String)
  | event (event : AgentStreamEventPayload) (timestamp : ℤ) (source : StreamUpdateSource)
      (timelineCursor : Option TimelinePosition) (unmatchedUserMessageInsert : UserMessageInsert)
  | flush

/-- What throws leaves the lanes as they were. -/
def Transcript.step (parse : MarkdownParser) (transcript : Transcript) : Op → Transcript
  | .submit message =>
    (appendSubmittedUserMessage transcript.tail transcript.head message).toOption.getD transcript
  | .reject clientMessageId =>
    removeSubmittedUserMessage transcript.tail transcript.head clientMessageId
  | .event event timestamp source timelineCursor unmatchedUserMessageInsert =>
    match applyStreamEvent parse transcript.tail transcript.head event timestamp source
      timelineCursor unmatchedUserMessageInsert with
    | .ok result => ⟨result.tail, result.head⟩
    | .error _ => transcript
  | .flush => ⟨flushHeadToTail transcript.tail transcript.head, []⟩

def Transcript.run (parse : MarkdownParser) (transcript : Transcript) (ops : List Op) : Transcript :=
  ops.foldl (Transcript.step parse) transcript

/-! ## Runs -/

/-- Where a step may place a message: a submitted one has no message id yet, and a canonical one
shares its ids with the row that it goes into only. -/
def Op.Fits (transcript : Transcript) : Op → Prop
  | .submit message => message.messageId = none
  | .event (.timeline _ (.userMessage text messageId clientMessageId) _) _ _ _ unmatchedInsert =>
    Unclaimed (userRows (matchedItems transcript.tail transcript.head unmatchedInsert))
      (canonicalRow text messageId clientMessageId) (normalizeChunk text).hasContent
  | _ => True

instance (transcript : Transcript) (op : Op) : Decidable (op.Fits transcript) := by
  unfold Op.Fits
  split <;> infer_instance

def Transcript.rows (transcript : Transcript) : List UserMessage :=
  userRows (transcript.tail ++ transcript.head)

variable {transcript : Transcript}

theorem shownOnce_submit {next : Transcript} {message : UserMessageItem}
    (h : appendSubmittedUserMessage transcript.tail transcript.head message = .ok next)
    (hshown : ShownOnce transcript.rows) (hnew : message.messageId = none) :
    ShownOnce next.rows := by
  unfold appendSubmittedUserMessage at h
  split at h
  · contradiction
  · next clientMessageId hclient =>
    split at h
    · contradiction
    · next hexists =>
      have hrows : next.rows.Perm (message.toUserMessage :: transcript.rows) := by
        have hrow : userRows [message.toItem] = [message.toUserMessage] := rfl
        rw [← Except.ok.inj h]
        split
        · simp only [Transcript.rows, userRows_append, hrow, ← List.append_assoc]
          exact List.perm_append_singleton _ _
        · simp only [Transcript.rows, userRows_append, hrow, List.append_assoc]
          exact List.perm_middle
      apply ShownOnce.perm _ hrows.symm
      refine List.Pairwise.cons ?_ hshown
      intro row hrow hshares
      obtain ⟨item, hitem, huser⟩ := List.mem_filterMap.mp hrow
      apply hexists
      rcases hshares with ⟨-, heq⟩ | ⟨hsome, -⟩
      · refine List.any_eq_true.mpr ⟨item, hitem, ?_⟩
        rw [huser, Option.any_some, ← heq, eq_some_of_nonEmpty hclient, beq_self_eq_true]
      · rw [hnew] at hsome
        contradiction

theorem shownOnce_reject (clientMessageId : String) (hshown : ShownOnce transcript.rows) :
    ShownOnce (removeSubmittedUserMessage transcript.tail transcript.head clientMessageId).rows := by
  apply hshown.sublist
  apply userRows_sublist
  exact List.filter_sublist.append List.filter_sublist

theorem rows_matchedItems (tail head : List StreamItem) (unmatchedInsert : UserMessageInsert) :
    (userRows (matchedItems tail head unmatchedInsert)).Sublist (userRows (tail ++ head)) := by
  unfold matchedItems
  split
  · exact List.Sublist.refl _
  · have hflush := rows_flushHead (Lanes.start tail head)
    simp only [Lanes.rows, flushHead_head, List.append_nil] at hflush
    exact hflush

theorem shownOnce_event {parse : MarkdownParser} {event : AgentStreamEventPayload} {timestamp : ℤ}
    {source : StreamUpdateSource} {timelineCursor : Option TimelinePosition}
    {unmatchedInsert : UserMessageInsert} {result : ApplyStreamEventResult}
    (h : applyStreamEvent parse transcript.tail transcript.head event timestamp source
      timelineCursor unmatchedInsert = .ok result) (hshown : ShownOnce transcript.rows)
    (hfits : (Op.event event timestamp source timelineCursor unmatchedInsert).Fits transcript) :
    ShownOnce (userRows (result.tail ++ result.head)) := by
  unfold applyStreamEvent at h
  split at h
  · have hplacing := placing_applyCanonicalUserMessageEvent h
    exact hplacing.shownOnce (hshown.sublist (rows_matchedItems _ _ _)) hfits
  · have hrows := rows_applyOtherEvent parse transcript.tail transcript.head event timestamp source
      timelineCursor
    rw [← Except.ok.inj h]
    exact hshown.sublist hrows

/-- A step that fits shows no prompt twice. -/
theorem shownOnce_step (parse : MarkdownParser) {op : Op} (hshown : ShownOnce transcript.rows)
    (hfits : op.Fits transcript) :
    ShownOnce (transcript.step parse op).rows := by
  cases op with
  | submit message =>
    simp only [Transcript.step]
    cases hsubmit : appendSubmittedUserMessage transcript.tail transcript.head message with
    | error => exact hshown
    | ok next => exact shownOnce_submit hsubmit hshown hfits
  | reject clientMessageId => exact shownOnce_reject clientMessageId hshown
  | event event timestamp source timelineCursor unmatchedInsert =>
    simp only [Transcript.step]
    split
    · next result hresult => exact shownOnce_event hresult hshown hfits
    · exact hshown
  | flush =>
    apply hshown.sublist
    have hflush := userRows_flushHeadToTail transcript.tail transcript.head
    simpa only [Transcript.rows, Transcript.step, List.append_nil] using hflush

/-- The condition along a run. -/
def Transcript.FitsAlong (parse : MarkdownParser) : Transcript → List Op → Prop
  | _, [] => True
  | transcript, op :: ops =>
    op.Fits transcript ∧ (transcript.step parse op).FitsAlong parse ops

instance decidableFitsAlong (parse : MarkdownParser) :
    ∀ (transcript : Transcript) (ops : List Op), Decidable (transcript.FitsAlong parse ops)
  | _, [] => .isTrue trivial
  | transcript, op :: ops =>
    have := decidableFitsAlong parse (transcript.step parse op) ops
    inferInstanceAs (Decidable (_ ∧ _))

theorem shownOnce_run (parse : MarkdownParser) (ops : List Op) (hshown : ShownOnce transcript.rows)
    (hfits : transcript.FitsAlong parse ops) :
    ShownOnce (transcript.run parse ops).rows := by
  induction ops generalizing transcript with
  | nil => exact hshown
  | cons op ops ih => exact ih (shownOnce_step parse hshown hfits.1) hfits.2

theorem ShownOnce.nodup {rows : List UserMessage} (h : ShownOnce rows) :
    (rows.filterMap (·.clientMessageId)).Nodup ∧ (rows.filterMap (·.messageId)).Nodup := by
  constructor
  · refine List.Pairwise.filterMap _ ?_ h
    intro a b hab id hid id' hid' heq
    exact hab (.inl ⟨by rw [hid]; rfl, by rw [hid, hid', heq]⟩)
  · refine List.Pairwise.filterMap _ ?_ h
    intro a b hab id hid id' hid' heq
    exact hab (.inr ⟨by rw [hid]; rfl, by rw [hid, hid', heq]⟩)

/-- In every run in which a canonical message shares its ids with the row that it goes into only, no
two user messages have one client id or one message id. -/
theorem promptsShownOnce (parse : MarkdownParser) (ops : List Op)
    (hfits : emptyTranscript.FitsAlong parse ops) :
    ((emptyTranscript.run parse ops).rows.filterMap (·.clientMessageId)).Nodup ∧
      ((emptyTranscript.run parse ops).rows.filterMap (·.messageId)).Nodup := by
  have hempty : ShownOnce emptyTranscript.rows := List.Pairwise.nil
  exact (shownOnce_run parse ops hempty hfits).nodup

/-! ## One prompt, and its message delivered twice -/

def submittedPrompt : UserMessageItem where
  clientMessageId := some "c"
  messageId := none
  text := "run the tests"
  images := []
  attachments := []
  id := "c"
  turnId := none
  timelineCursor := none
  timestamp := 1

/-- The canonical message of the prompt. -/
def echo (text : String) (clientMessageId : Option String) : Op :=
  .event (.timeline "codex" (.userMessage text (some "m") clientMessageId) none) 2 .live none .tail

/-- Without the client id the message gets a row of its own when its text was changed; with both ids
it goes into the submitted row as well. -/
theorem echo_shownTwice :
    (emptyTranscript.run parseParagraphs [.submit submittedPrompt, echo "run the tests!" none,
      echo "run the tests!" (some "c")]).rows.filterMap (·.messageId) = ["m", "m"] ∧
    ¬ ["m", "m"].Nodup := by
  decide +kernel

theorem promptsShownOnce_echo :
    ((emptyTranscript.run parseParagraphs [.submit submittedPrompt, echo "run the tests!" (some "c"),
      echo "run the tests!" (some "c"), .flush]).rows.filterMap (·.clientMessageId)).Nodup ∧
    ((emptyTranscript.run parseParagraphs [.submit submittedPrompt, echo "run the tests!" (some "c"),
      echo "run the tests!" (some "c"), .flush]).rows.filterMap (·.messageId)).Nodup :=
  promptsShownOnce parseParagraphs _ (by decide +kernel)

end Orqara.Stream
