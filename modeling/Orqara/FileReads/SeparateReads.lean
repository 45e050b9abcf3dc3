import Orqara.FileReads.StreamedBytes

/-!
# Reads of different requests

What a client has for one request comes of the events for it alone: the frames of the others may as
well not come.
-/

namespace Orqara.FileReads

open Client List Option

namespace Client

variable {s : Client} {requestId id : String} {read : FileRead} {error : Option String}
  {file : Option FileReadResult} {maxLength : ℕ} {frame : FileTransferFrame} {α : Type}
  {reads : List FileRead}

/-- The part of a client that has to do with one request. -/
def only (requestId : String) (s : Client) : Client where
  pendingBinaryFileReads id := if id = requestId then s.pendingBinaryFileReads id else none
  activeBinaryFileTransfers id := if id = requestId then s.activeBinaryFileTransfers id else none
  completedBinaryFileReads id := if id = requestId then s.completedBinaryFileReads id else none
  reads := s.reads.filter fun read => read.requestId = requestId
  nextRead := s.nextRead
  outcomes := s.outcomes.filter fun entry => entry.1.requestId = requestId

/-! ## Entries of maps -/

section

variable (m : String → Option α)

theorem twice_only :
    (fun id => if id = requestId then if id = requestId then m id else none else none) =
      fun id => if id = requestId then m id else none := by
  ext1 id
  split <;> rfl

theorem update_only (value : Option α) :
    (fun id => if id = requestId then Function.update m requestId value id else none) =
      Function.update (fun id => if id = requestId then m id else none) requestId value := by
  ext1 id
  by_cases h : id = requestId
  · subst h
    simp
  · simp [h]

theorem update_other (value : Option α) (h : id ≠ requestId) :
    (fun other => if other = requestId then Function.update m id value other else none) =
      fun other => if other = requestId then m other else none := by
  ext1 other
  by_cases hother : other = requestId
  · rw [if_pos hother, if_pos hother, Function.update_of_ne (by rw [hother]; exact h.symm)]
  · rw [if_neg hother, if_neg hother]

end

theorem only_only : (s.only requestId).only requestId = s.only requestId := by
  simp only [only, twice_only, List.filter_filter, Bool.and_self]

/-! ## Reads -/

theorem only_finish (h : read.requestId = requestId) (outcome : ReadOutcome) :
    (s.finish read outcome).only requestId = (s.only requestId).finish read outcome := by
  subst h
  simp only [only, finish, update_only, erase_filter, filter_append]
  simp

theorem only_finish_other (h : read.requestId ≠ requestId) (outcome : ReadOutcome) :
    (s.finish read outcome).only requestId = s.only requestId := by
  have hreads : (s.reads.erase read).filter (fun read => read.requestId = requestId) =
      s.reads.filter fun read => read.requestId = requestId := by
    rw [← erase_filter]
    apply erase_of_not_mem
    simp [h]
  simp only [only, finish, update_other _ _ h, hreads, filter_append]
  simp [h]

theorem only_resume (h : read.requestId = requestId) :
    (s.resume error file read).only requestId = (s.only requestId).resume error file read := by
  have hcompleted : (s.only requestId).completedBinaryFileReads read.requestId =
      s.completedBinaryFileReads read.requestId := if_pos h
  unfold resume
  cases error.filter (· ≠ "") with
  | some error => exact only_finish h _
  | none =>
    dsimp only
    rw [hcompleted]
    cases s.completedBinaryFileReads read.requestId with
    | some result =>
      dsimp only
      rw [only_finish h]
      subst h
      simp only [only, update_only]
    | none =>
      cases file with
      | some file => exact only_finish h _
      | none => exact only_finish h _

theorem only_resume_other (h : read.requestId ≠ requestId) :
    (s.resume error file read).only requestId = s.only requestId := by
  unfold resume
  cases error.filter (· ≠ "") with
  | some error => exact only_finish_other h _
  | none =>
    dsimp only
    cases s.completedBinaryFileReads read.requestId with
    | some result =>
      dsimp only
      rw [only_finish_other h]
      simp only [only, update_other _ _ h]
    | none =>
      cases file with
      | some file => exact only_finish_other h _
      | none => exact only_finish_other h _

theorem only_foldl (h : ∀ read ∈ reads, read.requestId = requestId) :
    (reads.foldl (·.resume error file) s).only requestId =
      reads.foldl (·.resume error file) (s.only requestId) := by
  induction reads generalizing s with
  | nil => rfl
  | cons read reads ih =>
    rw [foldl_cons, foldl_cons, ih fun read hmem => h read (mem_cons_of_mem _ hmem),
      only_resume (h read mem_cons_self)]

theorem only_foldl_other (h : ∀ read ∈ reads, read.requestId ≠ requestId) :
    (reads.foldl (·.resume error file) s).only requestId = s.only requestId := by
  induction reads generalizing s with
  | nil => rfl
  | cons read reads ih =>
    rw [foldl_cons, ih fun read hmem => h read (mem_cons_of_mem _ hmem),
      only_resume_other (h read mem_cons_self)]

theorem only_response : (s.handleFileExplorerResponse requestId error file).only requestId =
    (s.only requestId).handleFileExplorerResponse requestId error file := by
  rw [handleFileExplorerResponse, handleFileExplorerResponse, only_foldl]
  · simp [only]
  · intro read hread
    simpa using (mem_filter.mp hread).2

theorem only_response_other (h : id ≠ requestId) :
    (s.handleFileExplorerResponse id error file).only requestId = s.only requestId := by
  apply only_foldl_other
  intro read hread
  have hid : read.requestId = id := by simpa using (mem_filter.mp hread).2
  rwa [hid]

/-! ## Frames -/

theorem only_dropTransfer :
    (s.dropTransfer requestId).only requestId = (s.only requestId).dropTransfer requestId := by
  simp only [only, dropTransfer, update_only]

theorem only_dropTransfer_other (h : id ≠ requestId) :
    (s.dropTransfer id).only requestId = s.only requestId := by
  simp only [only, dropTransfer, update_other _ _ h]

theorem only_frame (h : frame.requestId = requestId) :
    (s.handleFileTransferFrame maxLength frame).map (only requestId) =
      (s.only requestId).handleFileTransferFrame maxLength frame := by
  cases frame with
  | fileBegin id metadata =>
    obtain rfl : id = requestId := h
    simp only [handleFileTransferFrame, beginTransfer, only, if_true]
    cases s.pendingBinaryFileReads id with
    | none => rfl
    | some pending => simp only [map_some, update_only, only]
  | fileChunk id payload =>
    obtain rfl : id = requestId := h
    simp only [handleFileTransferFrame, pushChunk, only, if_true]
    cases s.activeBinaryFileTransfers id with
    | none => rfl
    | some transfer =>
      dsimp only
      split
      · rfl
      · simp only [map_some, update_only, only]
  | fileEnd id =>
    obtain rfl : id = requestId := h
    have hactive : (s.only id).activeBinaryFileTransfers id = s.activeBinaryFileTransfers id :=
      if_pos rfl
    simp only [handleFileTransferFrame, endTransfer, hactive]
    cases s.activeBinaryFileTransfers id with
    | none => rfl
    | some transfer =>
      dsimp only
      split
      · rw [map_some, only_response, only_dropTransfer]
      · cases concatByteChunks maxLength transfer.chunks transfer.size with
        | none => rfl
        | some bytes =>
          rw [map_some, map_some, map_some, only_response]
          simp only [completeTransfer, only, dropTransfer, update_only]

theorem only_frame_other (h : frame.requestId ≠ requestId) :
    ((s.handleFileTransferFrame maxLength frame).getD s).only requestId = s.only requestId := by
  cases frame with
  | fileBegin id metadata =>
    have hid : id ≠ requestId := h
    simp only [handleFileTransferFrame, beginTransfer, getD_some]
    cases s.pendingBinaryFileReads id with
    | none => rfl
    | some pending => simp only [only, update_other _ _ hid]
  | fileChunk id payload =>
    have hid : id ≠ requestId := h
    simp only [handleFileTransferFrame, pushChunk, getD_some]
    cases s.activeBinaryFileTransfers id with
    | none => rfl
    | some transfer =>
      dsimp only
      split
      · rfl
      · simp only [only, update_other _ _ hid]
  | fileEnd id =>
    have hid : id ≠ requestId := h
    simp only [handleFileTransferFrame, endTransfer]
    cases s.activeBinaryFileTransfers id with
    | none => rfl
    | some transfer =>
      dsimp only
      split
      · rw [getD_some, only_response_other hid, only_dropTransfer_other hid]
      · cases concatByteChunks maxLength transfer.chunks transfer.size with
        | none => rfl
        | some bytes =>
          rw [map_some, getD_some, only_response_other hid]
          simp only [completeTransfer, only, dropTransfer, update_other _ _ hid]

/-! ## Runs -/

theorem only_step_frame (h : frame.requestId = requestId) :
    (s.step maxLength (.frame frame)).only requestId =
      (s.only requestId).step maxLength (.frame frame) := by
  show ((s.handleFileTransferFrame maxLength frame).getD s).only requestId =
    ((s.only requestId).handleFileTransferFrame maxLength frame).getD (s.only requestId)
  rw [← only_frame h]
  cases s.handleFileTransferFrame maxLength frame <;> rfl

theorem only_readFile {cwd path : String} {maxBytes : Option ℕ} :
    (s.readFile id cwd path maxBytes).only requestId =
      ((s.only requestId).readFile id cwd path maxBytes).only requestId := by
  by_cases h : id = requestId
  · subst h
    simp only [readFile, only, update_only, twice_only, filter_append, List.filter_filter,
      Bool.and_self]
  · simp only [readFile, only, update_other _ _ h, twice_only, filter_append,
      List.filter_filter, Bool.and_self]

theorem only_rejects (message : String) : (s.step maxLength (.rejects read message)).only requestId =
    ((s.only requestId).step maxLength (.rejects read message)).only requestId := by
  show (if read ∈ s.reads then s.finish read (.failed message) else s).only requestId =
    (if read ∈ (s.only requestId).reads then (s.only requestId).finish read (.failed message)
      else s.only requestId).only requestId
  by_cases h : read.requestId = requestId
  · have hmem : read ∈ (s.only requestId).reads ↔ read ∈ s.reads := by simp [only, h]
    simp only [hmem]
    split
    · rw [only_finish h, only_finish h, only_only]
    · rw [only_only]
  · have hmem : read ∉ (s.only requestId).reads := by simp [only, h]
    rw [if_neg hmem, only_only]
    split
    · exact only_finish_other h _
    · rfl

/-- What has to do with a request comes of what has to do with it. -/
theorem only_step (event : ClientEvent) : (s.step maxLength event).only requestId =
    ((s.only requestId).step maxLength event).only requestId := by
  cases event with
  | readFile id cwd path maxBytes => exact only_readFile
  | rejects read message => exact only_rejects message
  | response id error file =>
    show (s.handleFileExplorerResponse id error file).only requestId =
      ((s.only requestId).handleFileExplorerResponse id error file).only requestId
    by_cases h : id = requestId
    · subst h
      rw [only_response, only_response, only_only]
    · rw [only_response_other h, only_response_other h, only_only]
  | frame frame =>
    by_cases h : frame.requestId = requestId
    · rw [only_step_frame h, only_step_frame h, only_only]
    · have hother : ∀ s : Client, (s.step maxLength (.frame frame)).only requestId =
          s.only requestId := fun s => only_frame_other h
      rw [hother, hother, only_only]

end Client

/-- No frame of another request. -/
def ClientEvent.concerns (requestId : String) : ClientEvent → Bool
  | .frame sent => sent.requestId = requestId
  | _ => true

variable {requestId : String} {transfer : BinaryFileTransferState} {s : Client}

theorem Client.only_step_of_not_concerns {maxLength : ℕ} {event : ClientEvent}
    (h : ¬ event.concerns requestId = true) (s : Client) :
    (s.step maxLength event).only requestId = s.only requestId := by
  cases event with
  | frame sent => exact only_frame_other (by simpa [ClientEvent.concerns] using h)
  | readFile id cwd path maxBytes => exact absurd rfl h
  | response id error file => exact absurd rfl h
  | rejects read error => exact absurd rfl h

/-- The frames of other requests change nothing for a request. -/
theorem only_run_filter (maxLength : ℕ) (requestId : String) (events : List ClientEvent) :
    (run maxLength (events.filter (·.concerns requestId))).only requestId =
      (run maxLength events).only requestId := by
  induction events using List.reverseRecOn with
  | nil => rfl
  | append_singleton events event ih =>
    rw [filter_append, run_append]
    by_cases h : event.concerns requestId = true
    · rw [filter_cons_of_pos h, filter_nil, run_append, only_step, ih,
        ← only_step]
    · rw [filter_cons_of_neg h, filter_nil, append_nil,
        only_step_of_not_concerns h, ih]

/-! ## Right steps -/

variable {maxLength : ℕ} {events : List ClientEvent} {event : ClientEvent}

/-- What comes out as a file is what has come, and no frame throws that has come for as many bytes
as are not said. -/
structure StepRight (maxLength : ℕ) (events : List ClientEvent) (event : ClientEvent) : Prop where
  exact : ∃ entries, (Client.run maxLength (events ++ [event])).outcomes =
      (Client.run maxLength events).outcomes ++ entries ∧
    ∀ read result, (read, .binary result) ∈ entries → ∃ metadata chunks,
      latest read.requestId events = some (metadata, chunks) ∧ result.bytes = chunks.flatten ∧
        result.bytes.length = metadata.size ∧ result.size = metadata.size
  throws : ∀ frame, event = .frame frame →
    (Client.run maxLength events).handleFileTransferFrame maxLength frame = none →
    SizeReached frame.requestId events

/-- An end that completes a transfer comes behind as many bytes as were said. -/
def SizeKept (maxLength : ℕ) (events : List ClientEvent) (event : ClientEvent) : Prop :=
  ∀ requestId transfer, event = .frame (.fileEnd requestId) →
    (Client.run maxLength events).activeBinaryFileTransfers requestId = some transfer →
    Client.overBudget transfer = false → SizeReached requestId events

theorem answerOutcome_ne_binary (error : Option String) (file : Option FileReadResult)
    (result : FileReadResult) : answerOutcome error file ≠ .binary result := by
  unfold answerOutcome
  cases error.filter (· ≠ "") with
  | some error => nofun
  | none => cases file <;> nofun

/-- Reads come out without a binary result. -/
def ComesToNothing (s s' : Client) : Prop :=
  ∃ entries, s'.outcomes = s.outcomes ++ entries ∧
    ∀ read result, (read, ReadOutcome.binary result) ∉ entries

theorem comesToNothing_of_same {s' : Client} (h : s'.outcomes = s.outcomes) :
    ComesToNothing s s' := ⟨[], by simpa using h, by simp⟩

theorem comesToNothing_of_answered {s' : Client} {reads : List FileRead} {error : Option String}
    {file : Option FileReadResult} (h : Client.Answered s s' requestId reads
      (reads.map fun read => (read, answerOutcome error file))) : ComesToNothing s s' := by
  refine ⟨_, h.outcomes, ?_⟩
  intro read result hmem
  obtain ⟨other, -, hother⟩ := List.mem_map.mp hmem
  exact answerOutcome_ne_binary error file result (congrArg Prod.snd hother)

/-- An end that the client completes a transfer at. -/
structure Completes (s : Client) (requestId : String)
    (transfer : BinaryFileTransferState) : Prop where
  active : s.activeBinaryFileTransfers requestId = some transfer
  under : Client.overBudget transfer = false

section

variable (htracked : Client.Tracked events s)
include htracked

/-- Other events complete nothing. -/
theorem comesToNothing_step (h : ∀ requestId transfer, event = .frame (.fileEnd requestId) →
      ¬ Completes s requestId transfer) :
    ComesToNothing s (s.step maxLength event) ∧ ∀ sent, event = .frame sent →
      s.handleFileTransferFrame maxLength sent ≠ none := by
  cases event with
  | readFile id cwd path maxBytes => exact ⟨comesToNothing_of_same rfl, nofun⟩
  | response id error file =>
    have hlatest : ∀ other, latest other (events ++ [.response id error file]) =
        latest other events := fun _ => latest_append
    exact ⟨comesToNothing_of_answered (htracked.response hlatest).2, nofun⟩
  | rejects read message =>
    refine ⟨?_, nofun⟩
    show ComesToNothing s (if read ∈ s.reads then s.finish read (.failed message) else s)
    split
    · exact ⟨[(read, .failed message)], rfl, by simp⟩
    · exact comesToNothing_of_same rfl
  | frame sent =>
    cases sent with
    | fileBegin id metadata =>
      refine ⟨comesToNothing_of_same ?_, ?_⟩
      · show (s.beginTransfer id metadata).outcomes = s.outcomes
        unfold beginTransfer
        split <;> rfl
      · rintro _ ⟨⟩
        nofun
    | fileChunk id payload =>
      refine ⟨comesToNothing_of_same ?_, ?_⟩
      · show (s.pushChunk id payload).outcomes = s.outcomes
        unfold pushChunk
        split
        · rfl
        · split <;> rfl
      · rintro _ ⟨⟩
        nofun
    | fileEnd id =>
      have hstep : s.step maxLength (.frame (.fileEnd id)) = (s.endTransfer maxLength id).getD s := rfl
      rw [hstep]
      cases hactive : s.activeBinaryFileTransfers id with
      | none =>
        have hend : s.endTransfer maxLength id = some s := by rw [endTransfer, hactive]
        rw [hend]
        refine ⟨comesToNothing_of_same rfl, ?_⟩
        rintro _ ⟨⟩ hnone
        rw [handleFileTransferFrame, hend] at hnone
        cases hnone
      | some transfer =>
        have hover : overBudget transfer = true := by
          by_contra hunder
          exact h id transfer rfl ⟨hactive, by simpa using hunder⟩
        have hend : s.endTransfer maxLength id =
            some ((s.dropTransfer id).handleFileExplorerResponse id
              (some "File is too large to display") none) := by
          rw [endTransfer, hactive]
          dsimp only
          rw [if_pos hover]
        rw [hend]
        constructor
        · have hlatest : ∀ other, latest other (events ++ [.frame (.fileEnd id)]) =
              latest other events := fun _ => latest_append
          have hanswered : ComesToNothing (s.dropTransfer id)
              ((s.dropTransfer id).handleFileExplorerResponse id
                (some "File is too large to display") none) :=
            comesToNothing_of_answered (htracked.dropTransfer.response hlatest).2
          exact hanswered
        · rintro _ ⟨⟩ hnone
          rw [handleFileTransferFrame, hend] at hnone
          cases hnone

section

variable (h : Completes s requestId transfer)
include h

/-- What has come for a transfer that is not over its budget. -/
theorem latest_of_completes :
    ∃ metadata, latest requestId events = some (metadata, transfer.chunks) ∧
      metadata.size = transfer.size := by
  obtain ⟨chunks, hlatest, hsame⟩ := htracked.received requestId transfer h.active
  obtain ⟨⟨metadata, received⟩, hentry, hpair⟩ := map_eq_some_iff.mp hlatest
  obtain ⟨hsize, hchunks⟩ := Prod.mk.inj hpair
  have hreceived : received = transfer.chunks := hchunks.trans (hsame h.under).symm
  exact ⟨metadata, by rw [hentry, hreceived], hsize⟩

theorem sizeReached_iff :
    SizeReached requestId events ↔ transfer.chunks.flatten.length = transfer.size := by
  obtain ⟨metadata, hlatest, hsize⟩ := latest_of_completes htracked h
  rw [← hsize]
  constructor
  · intro hreached
    exact hreached metadata transfer.chunks hlatest
  · intro hlength other chunks hother
    rw [hlatest] at hother
    obtain ⟨rfl, rfl⟩ := Prod.mk.inj (some.inj hother)
    exact hlength

/-- As many bytes as were said come out as they have come. -/
theorem exact_of_sizeReached (hreached : SizeReached requestId events) :
    ∃ entries, (s.step maxLength (.frame (.fileEnd requestId))).outcomes = s.outcomes ++ entries ∧
      ∀ read result, (read, .binary result) ∈ entries → ∃ metadata chunks,
        latest read.requestId events = some (metadata, chunks) ∧ result.bytes = chunks.flatten ∧
          result.bytes.length = metadata.size ∧ result.size = metadata.size := by
  have hlength := (sizeReached_iff htracked h).mp hreached
  have hstep : s.step maxLength (.frame (.fileEnd requestId)) =
      (s.endTransfer maxLength requestId).getD s := rfl
  rw [hstep]
  cases hbytes : concatByteChunks maxLength transfer.chunks transfer.size with
  | none =>
    have hend : s.endTransfer maxLength requestId = none := by
      rw [endTransfer, h.active]
      dsimp only
      rw [if_neg (by simp [h.under]), hbytes, map_none]
    exact ⟨[], by rw [hend, append_nil]; rfl, by simp⟩
  | some bytes =>
    obtain ⟨s', first, rest, hend, hanswered, hmem, -⟩ := htracked.endTransfer h.active h.under hbytes
    obtain ⟨metadata, hlatest, hsize⟩ := latest_of_completes htracked h
    have hflatten : bytes = transfer.chunks.flatten := by
      rw [concatByteChunks_eq] at hbytes
      split at hbytes
      · rw [← some.inj hbytes, hlength, Nat.sub_self, replicate_zero, append_nil]
      · cases hbytes
    refine ⟨_, by rw [hend]; exact hanswered.outcomes, ?_⟩
    intro read result hentry
    rcases mem_cons.mp hentry with hfirst | hrest
    · obtain ⟨rfl, hresult⟩ := Prod.mk.inj hfirst
      obtain rfl := ReadOutcome.binary.inj hresult
      refine ⟨metadata, transfer.chunks, ?_, hflatten, ?_, hsize.symm⟩
      · rw [hmem read mem_cons_self, hlatest]
      · show bytes.length = metadata.size
        rw [hflatten, hlength, hsize]
    · obtain ⟨other, -, hother⟩ := List.mem_map.mp hrest
      cases congrArg Prod.snd hother

end

end

/-- A step is right exactly where no transfer is completed with another size. -/
theorem stepRight_iff : StepRight maxLength events event ↔ SizeKept maxLength events event := by
  have htracked := tracked_run maxLength events
  constructor
  · rintro ⟨hexact, hthrows⟩ requestId transfer rfl hactive hunder
    rw [run_append] at hexact
    cases hbytes : concatByteChunks maxLength transfer.chunks transfer.size with
    | none =>
      apply hthrows (.fileEnd requestId) rfl
      rw [handleFileTransferFrame, endTransfer, hactive]
      dsimp only
      rw [if_neg (by simp [hunder]), hbytes, map_none]
    | some bytes =>
      obtain ⟨s', first, rest, hend, hanswered, hmem, -⟩ :=
        htracked.endTransfer hactive hunder hbytes
      have hstep : (run maxLength events).step maxLength (.frame (.fileEnd requestId)) = s' := by
        show ((run maxLength events).endTransfer maxLength requestId).getD _ = s'
        rw [hend]
        rfl
      obtain ⟨entries, hentries, hright⟩ := hexact
      rw [hstep, hanswered.outcomes] at hentries
      have hsame := append_cancel_left hentries
      obtain ⟨metadata, chunks, hlatest, hflatten, hlength, -⟩ :=
        hright first _ (hsame ▸ mem_cons_self)
      rw [hmem first mem_cons_self] at hlatest
      intro other others hother
      rw [hlatest] at hother
      obtain ⟨rfl, rfl⟩ := Prod.mk.inj (some.inj hother)
      rw [← hflatten, hlength]
  · intro hkept
    by_cases hends : ∃ requestId transfer, event = .frame (.fileEnd requestId) ∧
        Completes (run maxLength events) requestId transfer
    · obtain ⟨requestId, transfer, rfl, hcompletes⟩ := hends
      have hreached := hkept requestId transfer rfl hcompletes.active hcompletes.under
      refine ⟨?_, ?_⟩
      · rw [run_append]
        exact exact_of_sizeReached htracked hcompletes hreached
      · rintro _ ⟨⟩ _
        exact hreached
    · obtain ⟨⟨entries, houtcomes, hnothing⟩, hthrows⟩ := comesToNothing_step htracked
        (fun requestId transfer hevent hcompletes => hends ⟨requestId, transfer, hevent, hcompletes⟩)
      rw [← run_append] at houtcomes
      exact ⟨⟨entries, houtcomes, fun read result hmem => absurd hmem (hnothing read result)⟩,
        fun sent hevent hnone => absurd hnone (hthrows sent hevent)⟩

/-- Every step of a run is right. -/
def RunRight (maxLength : ℕ) (events : List ClientEvent) : Prop :=
  ∀ before event after, events = before ++ event :: after → StepRight maxLength before event

/-- A run is right exactly where every transfer that is completed has had as many bytes as were
said; and what comes of a request is the same without the frames of the others. -/
theorem runRight_iff (maxLength : ℕ) (events : List ClientEvent) :
    (RunRight maxLength events ↔
      ∀ before event after, events = before ++ event :: after → SizeKept maxLength before event) ∧
    ∀ requestId, (Client.run maxLength (events.filter (·.concerns requestId))).only requestId =
      (Client.run maxLength events).only requestId := by
  refine ⟨?_, fun requestId => only_run_filter maxLength requestId events⟩
  constructor
  · intro h before event after hevents
    exact stepRight_iff.mp (h before event after hevents)
  · intro h before event after hevents
    exact stepRight_iff.mpr (h before event after hevents)

/-- The daemon says two bytes and sends one. -/
def shortTransfer : List ClientEvent :=
  [.readFile "r" "/" "a" none,
    .frame (.fileBegin "r" ⟨"text/plain", 2, .utf8, "", none⟩), .frame (.fileChunk "r" [97])]

theorem shortTransfer_completes :
    ¬ ∀ maxLength events, RunRight maxLength events := by
  intro hall
  have hright := hall 100 (shortTransfer ++ [.frame (.fileEnd "r")]) shortTransfer
    (.frame (.fileEnd "r")) [] rfl
  obtain ⟨entries, hentries, hexact⟩ := hright.exact
  have houtcomes : (run 100 shortTransfer).outcomes = [] := by decide +kernel
  rw [houtcomes, List.nil_append] at hentries
  have hread : (run 100 (shortTransfer ++ [.frame (.fileEnd "r")])).outcomes =
      [(⟨0, "r"⟩, .binary ⟨[97, 0], "text/plain", 2, "a", .text, "", none⟩)] := by
    decide +kernel
  obtain ⟨metadata, chunks, hlatest, hbytes, -, -⟩ :=
    hexact ⟨0, "r"⟩ ⟨[97, 0], "text/plain", 2, "a", .text, "", none⟩
      (by rw [← hentries, hread]; exact List.mem_singleton_self _)
  have hcame : latest "r" shortTransfer = some (⟨"text/plain", 2, .utf8, "", none⟩, [[97]]) := by
    decide +kernel
  rw [hcame] at hlatest
  obtain ⟨-, rfl⟩ := Prod.mk.inj (Option.some.inj hlatest)
  cases hbytes

end Orqara.FileReads
