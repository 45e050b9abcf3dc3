import Orqara.FileReads.BinaryReads

/-!
# What a read returns

The bytes of a read are the chunks that came for its request since the latest beginning, if these
are as many as the beginning said. Where they are fewer, the read returns zeros behind them; where
they are more, the handler of the message throws.
-/

namespace Orqara.FileReads

open List Option Function

/-! ## Copying -/

theorem setBytes_append (done rest chunk : List UInt8) :
    setBytes (done ++ rest) chunk done.length =
      if chunk.length ≤ rest.length then some (done ++ chunk ++ rest.drop chunk.length) else none := by
  rw [setBytes, length_append, take_left, drop_append]
  by_cases hfits : chunk.length ≤ rest.length
  · rw [if_pos hfits, if_pos (Nat.add_le_add_left hfits _)]
    simp
  · rw [if_neg hfits, if_neg (by omega)]

/-- The chunks are copied behind what is done, over what is there. -/
theorem copyChunks_append (chunks : List (List UInt8)) (done rest : List UInt8) :
    copyChunks chunks done.length (done ++ rest) =
      if chunks.flatten.length ≤ rest.length then
        some (done ++ chunks.flatten ++ rest.drop chunks.flatten.length)
      else none := by
  induction chunks generalizing done rest with
  | nil => simp [copyChunks]
  | cons chunk chunks ih =>
    rw [copyChunks, setBytes_append, flatten_cons, length_append]
    by_cases hfits : chunk.length ≤ rest.length
    · have hrest : chunks.flatten.length ≤ (rest.drop chunk.length).length ↔
          chunk.length + chunks.flatten.length ≤ rest.length := by
        rw [length_drop]
        omega
      rw [if_pos hfits, bind_some, ← length_append, ih]
      simp only [hrest, drop_drop, append_assoc]
    · have hmore : ¬ chunk.length + chunks.flatten.length ≤ rest.length := by omega
      rw [if_neg hfits, if_neg hmore, bind_none]

theorem concatByteChunks_eq (maxLength : ℕ) (chunks : List (List UInt8)) (size : ℕ) :
    concatByteChunks maxLength chunks size =
      if size ≤ maxLength ∧ chunks.flatten.length ≤ size then
        some (chunks.flatten ++ List.replicate (size - chunks.flatten.length) 0)
      else none := by
  have hcopy := copyChunks_append chunks [] (List.replicate size 0)
  rw [length_nil, nil_append, length_replicate, nil_append,
    drop_replicate] at hcopy
  rw [concatByteChunks, hcopy]
  by_cases hlength : size ≤ maxLength <;> simp [hlength]

/-! ## Answers -/

/-- What a read without a binary result makes of an answer. -/
def answerOutcome (error : Option String) (file : Option FileReadResult) : ReadOutcome :=
  match error.filter (· ≠ "") with
  | some error => .failed error
  | none =>
    match file with
    | some file => .legacy file
    | none => .failed "File unavailable."

namespace Client

variable {s s' : Client} {error : Option String} {file : Option FileReadResult} {read : FileRead}
  {requestId : String} {reads : List FileRead}

theorem resume_of_completed_eq_none (h : s.completedBinaryFileReads read.requestId = none) :
    s.resume error file read = s.finish read (answerOutcome error file) := by
  unfold resume answerOutcome
  cases error.filter (· ≠ "") with
  | some error => rfl
  | none =>
    dsimp only
    rw [h]
    cases file <;> rfl

/-- What answers leave behind: the reads are over, and nothing of other requests has changed. -/
structure Answered (s s' : Client) (requestId : String) (reads : List FileRead)
    (entries : List (FileRead × ReadOutcome)) : Prop where
  others : ∀ id, id ≠ requestId → s'.pendingBinaryFileReads id = s.pendingBinaryFileReads id ∧
    s'.activeBinaryFileTransfers id = s.activeBinaryFileTransfers id
  gone : reads ≠ [] → s'.pendingBinaryFileReads requestId = none ∧
    s'.activeBinaryFileTransfers requestId = none
  kept : reads = [] → s' = s
  completed : s'.completedBinaryFileReads = s.completedBinaryFileReads
  reads : s'.reads = s.reads.diff reads
  nextRead : s'.nextRead = s.nextRead
  outcomes : s'.outcomes = s.outcomes ++ entries

theorem answered_finish (outcome : ReadOutcome) :
    Answered s (s.finish read outcome) read.requestId [read] [(read, outcome)] where
  others := by
    intro id hid
    exact ⟨update_of_ne hid _ _, update_of_ne hid _ _⟩
  gone := fun _ => ⟨update_self .., update_self ..⟩
  kept := nofun
  completed := rfl
  reads := by simp [finish]
  nextRead := rfl
  outcomes := rfl

theorem Answered.trans {s'' : Client} {more : List FileRead}
    {entries others : List (FileRead × ReadOutcome)} (h : Answered s s' requestId reads entries)
    (h' : Answered s' s'' requestId more others) :
    Answered s s'' requestId (reads ++ more) (entries ++ others) where
  others := by
    intro id hid
    rw [(h'.others id hid).1, (h'.others id hid).2]
    exact h.others id hid
  gone := by
    intro hne
    by_cases hmore : more = []
    · rw [h'.kept hmore]
      rw [hmore, append_nil] at hne
      exact h.gone hne
    · exact h'.gone hmore
  kept := by
    intro hnil
    rw [append_eq_nil_iff] at hnil
    rw [h'.kept hnil.2, h.kept hnil.1]
  completed := h'.completed.trans h.completed
  reads := by rw [h'.reads, h.reads, diff_append]
  nextRead := h'.nextRead.trans h.nextRead
  outcomes := by rw [h'.outcomes, h.outcomes, append_assoc]

/-- Answers without a binary result. -/
theorem answered_foldl (h : s.completedBinaryFileReads requestId = none)
    (hreads : ∀ read ∈ reads, read.requestId = requestId) :
    Answered s (reads.foldl (·.resume error file) s) requestId reads
      (reads.map fun read => (read, answerOutcome error file)) := by
  induction reads generalizing s with
  | nil => exact ⟨fun _ _ => ⟨rfl, rfl⟩, fun hne => absurd rfl hne, fun _ => rfl, rfl, by simp, rfl, by simp⟩
  | cons read reads ih =>
    obtain rfl := hreads read mem_cons_self
    have hfirst : Answered s (s.finish read (answerOutcome error file)) read.requestId [read] _ :=
      answered_finish (answerOutcome error file)
    rw [foldl_cons, resume_of_completed_eq_none h]
    exact hfirst.trans (ih h fun read hmem => hreads read (mem_cons_of_mem _ hmem))

/-- The first read that waits takes the binary result. -/
theorem answered_of_completed {result : FileReadResult}
    (h : s.completedBinaryFileReads requestId = some result)
    (hwaits : ∃ read ∈ s.reads, read.requestId = requestId) :
    ∃ first rest, Answered
      { s with completedBinaryFileReads := Function.update s.completedBinaryFileReads requestId none }
      (s.handleFileExplorerResponse requestId none none) requestId (first :: rest)
      ((first, .binary result) :: rest.map fun read => (read, .failed "File unavailable.")) ∧
      first :: rest = s.reads.filter fun read => read.requestId = requestId := by
  obtain ⟨read, hread, hid⟩ := hwaits
  have hmem : read ∈ s.reads.filter fun read => read.requestId = requestId :=
    mem_filter.mpr ⟨hread, by simpa using hid⟩
  obtain ⟨first, rest, hreads⟩ := exists_cons_of_ne_nil (ne_nil_of_mem hmem)
  refine ⟨first, rest, ?_, hreads.symm⟩
  have hall : ∀ read ∈ first :: rest, read.requestId = requestId := by
    intro read hmem
    rw [← hreads] at hmem
    simpa using (mem_filter.mp hmem).2
  obtain rfl := hall first mem_cons_self
  rw [handleFileExplorerResponse, hreads, foldl_cons]
  have htaken : s.resume none none first =
      { s with
        completedBinaryFileReads :=
          Function.update s.completedBinaryFileReads first.requestId none }.finish
        first (.binary result) := by
    rw [resume, h]
    rfl
  rw [htaken]
  exact (answered_finish (.binary result)).trans
    (answered_foldl (update_self ..) fun read hmem => hall read (mem_cons_of_mem _ hmem))

/-! ## What has come -/

end Client

/-- The latest beginning for a request and the chunks behind it. -/
def receive (requestId : String) (latest : Option (FileBeginMetadata × List (List UInt8))) :
    ClientEvent → Option (FileBeginMetadata × List (List UInt8))
  | .frame (.fileBegin id metadata) => if id = requestId then some (metadata, []) else latest
  | .frame (.fileChunk id payload) =>
    if id = requestId then latest.map fun entry => (entry.1, entry.2 ++ [payload]) else latest
  | _ => latest

def latest (requestId : String) (events : List ClientEvent) :
    Option (FileBeginMetadata × List (List UInt8)) := events.foldl (receive requestId) none

/-- As many bytes have come for a request as the latest beginning said. -/
def SizeReached (requestId : String) (events : List ClientEvent) : Prop :=
  ∀ metadata chunks, latest requestId events = some (metadata, chunks) →
    chunks.flatten.length = metadata.size

variable {maxLength : ℕ} {events : List ClientEvent} {event : ClientEvent} {requestId : String}

theorem latest_append : latest requestId (events ++ [event]) =
    receive requestId (latest requestId events) event := by
  rw [latest, foldl_append]
  rfl

theorem run_append : Client.run maxLength (events ++ [event]) =
    (Client.run maxLength events).step maxLength event := by
  rw [Client.run, foldl_append]
  rfl

namespace Client

variable {s s' : Client} {error : Option String} {file : Option FileReadResult} {read : FileRead}
  {reads : List FileRead}

/-- Transfers belong to reads that wait, and have what has come. -/
structure Tracked (events : List ClientEvent) (s : Client) : Prop where
  opened : ∀ id transfer, s.activeBinaryFileTransfers id = some transfer →
    ∃ pending, s.pendingBinaryFileReads id = some pending
  waiting : ∀ id pending, s.pendingBinaryFileReads id = some pending →
    ∃ read ∈ s.reads, read.requestId = id
  taken : ∀ id, s.completedBinaryFileReads id = none
  received : ∀ id transfer, s.activeBinaryFileTransfers id = some transfer →
    ∃ chunks, (latest id events).map (fun entry => (entry.1.size, entry.2)) =
      some (transfer.size, chunks) ∧ (overBudget transfer = false → transfer.chunks = chunks)

theorem tracked_idle : Tracked [] idle where
  opened := nofun
  waiting := nofun
  taken := fun _ => rfl
  received := nofun

section

variable (h : Tracked events s)
include h

/-- The reads that are left, and what has come for them, are as before. -/
theorem Tracked.answered {entries : List (FileRead × ReadOutcome)}
    (hanswered : Answered s s' requestId reads entries) (hreads : reads ≠ [])
    (hmem : ∀ read ∈ reads, read.requestId = requestId)
    (hlatest : ∀ id, id ≠ requestId → latest id (events ++ [event]) = latest id events) :
    Tracked (events ++ [event]) s' where
  opened := by
    intro id transfer hactive
    by_cases hid : id = requestId
    · rw [hid, (hanswered.gone hreads).2] at hactive
      cases hactive
    · rw [(hanswered.others id hid).2] at hactive
      rw [(hanswered.others id hid).1]
      exact h.opened id transfer hactive
  waiting := by
    intro id pending hpending
    by_cases hid : id = requestId
    · rw [hid, (hanswered.gone hreads).1] at hpending
      cases hpending
    · rw [(hanswered.others id hid).1] at hpending
      obtain ⟨read, hread, hrequest⟩ := h.waiting id pending hpending
      refine ⟨read, ?_, hrequest⟩
      rw [hanswered.reads]
      apply mem_diff_of_mem hread
      intro hgone
      exact hid (hrequest.symm.trans (hmem read hgone))
  taken := by
    rw [hanswered.completed]
    exact h.taken
  received := by
    intro id transfer hactive
    by_cases hid : id = requestId
    · rw [hid, (hanswered.gone hreads).2] at hactive
      cases hactive
    · rw [(hanswered.others id hid).2] at hactive
      rw [hlatest id hid]
      exact h.received id transfer hactive

/-- An event that brings nothing and changes nothing. -/
theorem Tracked.quiet (hlatest : ∀ id transfer, s.activeBinaryFileTransfers id = some transfer →
      latest id (events ++ [event]) = latest id events) : Tracked (events ++ [event]) s where
  opened := h.opened
  waiting := h.waiting
  taken := h.taken
  received := by
    intro id transfer hactive
    rw [hlatest id transfer hactive]
    exact h.received id transfer hactive

theorem Tracked.response (hlatest : ∀ id, latest id (events ++ [event]) = latest id events) :
    Tracked (events ++ [event]) (s.handleFileExplorerResponse requestId error file) ∧
    Answered s (s.handleFileExplorerResponse requestId error file) requestId
      (s.reads.filter fun read => read.requestId = requestId)
      ((s.reads.filter fun read => read.requestId = requestId).map fun read =>
        (read, answerOutcome error file)) := by
  have hmem : ∀ read ∈ s.reads.filter (fun read => read.requestId = requestId),
      read.requestId = requestId := by
    intro read hread
    simpa using (mem_filter.mp hread).2
  have hanswered : Answered s (s.handleFileExplorerResponse requestId error file) requestId _ _ :=
    answered_foldl (h.taken requestId) hmem
  refine ⟨?_, hanswered⟩
  by_cases hnil : s.reads.filter (fun read => read.requestId = requestId) = []
  · rw [hanswered.kept hnil]
    exact h.quiet fun id _ _ => hlatest id
  · exact h.answered hanswered hnil hmem fun id _ => hlatest id

theorem Tracked.readFile {cwd path : String} {maxBytes : Option ℕ} :
    Tracked (events ++ [.readFile requestId cwd path maxBytes])
      (s.readFile requestId cwd path maxBytes) where
  opened := by
    intro id transfer hactive
    by_cases hid : id = requestId
    · exact ⟨_, by rw [hid]; exact update_self ..⟩
    · obtain ⟨pending, hpending⟩ := h.opened id transfer hactive
      exact ⟨pending, (update_of_ne hid _ _).trans hpending⟩
  waiting := by
    intro id pending hpending
    by_cases hid : id = requestId
    · exact ⟨⟨s.nextRead, requestId⟩, by simp [Client.readFile], hid.symm⟩
    · have hbefore : s.pendingBinaryFileReads id = some pending :=
        (update_of_ne hid _ _).symm.trans hpending
      obtain ⟨read, hread, hrequest⟩ := h.waiting id pending hbefore
      exact ⟨read, mem_append_left _ hread, hrequest⟩
  taken := h.taken
  received := by
    intro id transfer hactive
    rw [latest_append]
    exact h.received id transfer hactive

theorem Tracked.beginTransfer (metadata : FileBeginMetadata) :
    Tracked (events ++ [.frame (.fileBegin requestId metadata)])
      (s.beginTransfer requestId metadata) := by
  have hlatest : ∀ id, id ≠ requestId →
      latest id (events ++ [.frame (.fileBegin requestId metadata)]) = latest id events := by
    intro id hid
    rw [latest_append, receive, if_neg (Ne.symm hid)]
  unfold Client.beginTransfer
  cases hpending : s.pendingBinaryFileReads requestId with
  | none =>
    refine h.quiet fun id transfer hactive => hlatest id ?_
    rintro rfl
    obtain ⟨pending, hsome⟩ := h.opened id transfer hactive
    rw [hpending] at hsome
    cases hsome
  | some pending =>
    refine ⟨?_, h.waiting, h.taken, ?_⟩
    · intro id transfer hactive
      by_cases hid : id = requestId
      · exact ⟨pending, hid ▸ hpending⟩
      · exact h.opened id transfer ((update_of_ne hid _ _).symm.trans hactive)
    · intro id transfer hactive
      by_cases hid : id = requestId
      · subst hid
        have htransfer := (update_self ..).symm.trans hactive
        obtain rfl := some.inj htransfer
        refine ⟨[], ?_, fun _ => rfl⟩
        rw [latest_append, receive, if_pos rfl]
        rfl
      · rw [hlatest id hid]
        exact h.received id transfer ((update_of_ne hid _ _).symm.trans hactive)

theorem Tracked.pushChunk (payload : List UInt8) :
    Tracked (events ++ [.frame (.fileChunk requestId payload)]) (s.pushChunk requestId payload) := by
  have hlatest : ∀ id, id ≠ requestId →
      latest id (events ++ [.frame (.fileChunk requestId payload)]) = latest id events := by
    intro id hid
    rw [latest_append, receive, if_neg (Ne.symm hid)]
  have hchunk : ∀ size chunks, (latest requestId events).map
      (fun entry => (entry.1.size, entry.2)) = some (size, chunks) →
      (latest requestId (events ++ [.frame (.fileChunk requestId payload)])).map
        (fun entry => (entry.1.size, entry.2)) = some (size, chunks ++ [payload]) := by
    intro size chunks hbefore
    rw [latest_append, receive, if_pos rfl]
    cases hentry : latest requestId events with
    | none =>
      rw [hentry] at hbefore
      cases hbefore
    | some entry =>
      rw [hentry] at hbefore
      cases hbefore
      rfl
  unfold Client.pushChunk
  cases hactive : s.activeBinaryFileTransfers requestId with
  | none =>
    refine h.quiet fun id transfer hsome => hlatest id ?_
    rintro rfl
    rw [hactive] at hsome
    cases hsome
  | some transfer =>
    obtain ⟨chunks, hbefore, hsame⟩ := h.received requestId transfer hactive
    dsimp only
    split
    · next hover =>
      refine ⟨h.opened, h.waiting, h.taken, fun id other hsome => ?_⟩
      by_cases hid : id = requestId
      · subst hid
        rw [hactive] at hsome
        obtain rfl := some.inj hsome
        exact ⟨_, hchunk _ _ hbefore, fun hunder => absurd hover (by simp [hunder])⟩
      · rw [hlatest id hid]
        exact h.received id other hsome
    · next hover =>
      refine ⟨?_, h.waiting, h.taken, ?_⟩
      · intro id other hsome
        by_cases hid : id = requestId
        · exact h.opened id transfer (hid ▸ hactive)
        · exact h.opened id other ((update_of_ne hid _ _).symm.trans hsome)
      · intro id other hsome
        by_cases hid : id = requestId
        · subst hid
          have hpushed := (update_self ..).symm.trans hsome
          obtain rfl := some.inj hpushed
          refine ⟨_, hchunk _ _ hbefore, fun _ => ?_⟩
          show transfer.chunks ++ [payload] = chunks ++ [payload]
          rw [hsame (by simpa using hover)]
        · rw [hlatest id hid]
          exact h.received id other ((update_of_ne hid _ _).symm.trans hsome)

theorem Tracked.dropTransfer : Tracked events (s.dropTransfer requestId) := by
  have hbefore : ∀ id transfer, (s.dropTransfer requestId).activeBinaryFileTransfers id =
      some transfer → s.activeBinaryFileTransfers id = some transfer := by
    intro id transfer hactive
    by_cases hid : id = requestId
    · subst hid
      have hnone := (update_self ..).symm.trans hactive
      cases hnone
    · exact (update_of_ne hid _ _).symm.trans hactive
  exact ⟨fun id transfer hactive => h.opened id transfer (hbefore id transfer hactive), h.waiting,
    h.taken, fun id transfer hactive => h.received id transfer (hbefore id transfer hactive)⟩

omit h in
theorem latest_fileEnd (id : String) :
    latest id (events ++ [.frame (.fileEnd requestId)]) = latest id events := latest_append

omit h in
theorem completeTransfer_taken (h : s.completedBinaryFileReads requestId = none)
    (result : FileReadResult) :
    { s.completeTransfer requestId result with
      completedBinaryFileReads := Function.update
        (s.completeTransfer requestId result).completedBinaryFileReads requestId none } =
      s.dropTransfer requestId := by
  have hcompleted : Function.update (s.completeTransfer requestId result).completedBinaryFileReads
      requestId none = s.completedBinaryFileReads := by
    rw [completeTransfer, update_idem, ← h, update_eq_self]
  rw [hcompleted]
  rfl

/-- What the end of a transfer comes to. -/
theorem Tracked.endTransfer {transfer : BinaryFileTransferState}
    (hactive : s.activeBinaryFileTransfers requestId = some transfer)
    (hunder : overBudget transfer = false) {bytes : List UInt8}
    (hbytes : concatByteChunks maxLength transfer.chunks transfer.size = some bytes) :
    ∃ s' first rest, s.endTransfer maxLength requestId = some s' ∧
      Answered (s.dropTransfer requestId) s' requestId (first :: rest)
        ((first, .binary (transferResult transfer bytes)) ::
          rest.map fun read => (read, .failed "File unavailable.")) ∧
      (∀ read ∈ first :: rest, read.requestId = requestId) ∧
      Tracked (events ++ [.frame (.fileEnd requestId)]) s' := by
  obtain ⟨pending, hpending⟩ := h.opened requestId transfer hactive
  have hwaits : ∃ read ∈ (s.completeTransfer requestId (transferResult transfer bytes)).reads,
      read.requestId = requestId := h.waiting requestId pending hpending
  obtain ⟨first, rest, hanswered, hreads⟩ := answered_of_completed (update_self ..) hwaits
  rw [completeTransfer_taken (h.taken requestId)] at hanswered
  have hmem : ∀ read ∈ first :: rest, read.requestId = requestId := by
    intro read hread
    rw [hreads] at hread
    simpa using (mem_filter.mp hread).2
  refine ⟨_, first, rest, ?_, hanswered, hmem, ?_⟩
  · rw [Client.endTransfer, hactive]
    dsimp only
    rw [if_neg (by simp [hunder]), hbytes, map_some]
  · exact h.dropTransfer.answered hanswered (cons_ne_nil _ _) hmem fun id _ => latest_fileEnd id

/-! ## Runs -/

theorem tracked_step (maxLength : ℕ) (event : ClientEvent) :
    Tracked (events ++ [event]) (s.step maxLength event) := by
  cases event with
  | readFile requestId cwd path maxBytes => exact h.readFile
  | response requestId error file => exact (h.response fun id => latest_append).1
  | rejects read error =>
    show Tracked _ (if read ∈ s.reads then s.finish read (.failed error) else s)
    split
    · exact h.answered (answered_finish _) (cons_ne_nil _ _)
        (fun other hother => by rw [mem_singleton.mp hother]) fun id _ => latest_append
    · exact h.quiet fun id _ _ => latest_append
  | frame frame =>
    cases frame with
    | fileBegin requestId metadata => exact h.beginTransfer metadata
    | fileChunk requestId payload => exact h.pushChunk payload
    | fileEnd requestId =>
      show Tracked _ ((s.endTransfer maxLength requestId).getD s)
      cases hactive : s.activeBinaryFileTransfers requestId with
      | none =>
        rw [Client.endTransfer, hactive]
        exact h.quiet fun id _ _ => latest_fileEnd id
      | some transfer =>
        by_cases hover : overBudget transfer = true
        · rw [Client.endTransfer, hactive]
          dsimp only
          rw [if_pos hover]
          exact (h.dropTransfer.response fun id => latest_fileEnd id).1
        · have hunder : overBudget transfer = false := by simpa using hover
          cases hbytes : concatByteChunks maxLength transfer.chunks transfer.size with
          | none =>
            rw [Client.endTransfer, hactive]
            dsimp only
            rw [if_neg hover, hbytes]
            exact h.quiet fun id _ _ => latest_fileEnd id
          | some bytes =>
            obtain ⟨s', first, rest, hend, -, -, htracked⟩ := h.endTransfer hactive hunder hbytes
            rw [hend]
            exact htracked

end

theorem tracked_run (maxLength : ℕ) (events : List ClientEvent) : Tracked events (run maxLength events) := by
  induction events using List.reverseRecOn with
  | nil => exact tracked_idle
  | append_singleton events event ih =>
    rw [run_append]
    exact tracked_step ih maxLength event

end Client

end Orqara.FileReads
