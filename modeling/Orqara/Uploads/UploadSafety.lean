import Orqara.Uploads.FileUploadStore

/-!
# What an upload leaves behind

An upload that is answered without an error is in its file, and one that fails or expires leaves no
file. Uploads that are still at work have directories of their own.
-/

namespace Orqara.Uploads

open List Option Function

def Job.frame? : Job → Option UploadFrame
  | .frame received => some received
  | .cleanup => none

def UploadFrame.payload : UploadFrame → List UInt8
  | .fileChunk payload => payload
  | _ => []

/-- The bytes of the chunks among frames. -/
def chunkBytes (frames : List UploadFrame) : List UInt8 := frames.flatMap UploadFrame.payload

@[simp] theorem chunkBytes_append (xs ys : List UploadFrame) :
    chunkBytes (xs ++ ys) = chunkBytes xs ++ chunkBytes ys := List.flatMap_append

@[simp] theorem chunkBytes_singleton (frame : UploadFrame) : chunkBytes [frame] = frame.payload := by
  simp [chunkBytes]

def Operation.removes : Operation → Bool
  | .rm _ => true
  | _ => false

/-- The frame that an operation belongs to. -/
def Operation.frame? : Operation → Option UploadFrame
  | .mkdir => some .fileBegin
  | .writeFile => some .fileBegin
  | .appendFile payload => some (.fileChunk payload)
  | .rm _ => none

namespace FileUploadStore

variable {s s' : FileUploadStore} {i : ℕ} {u u' : PendingUpload} {j : ℕ} {response : FileUploadResponse}

/-- Whether an upload may still be at work on the disk. -/
def Live (s : FileUploadStore) (i : ℕ) (u : PendingUpload) : Prop :=
  s.pending u.requestId = some i ∨ u.queue ≠ [] ∨ u.running.isSome

instance (s : FileUploadStore) (i : ℕ) (u : PendingUpload) : Decidable (s.Live i u) :=
  inferInstanceAs (Decidable (_ ∨ _ ∨ _))

/-! ## The condition -/

/-- A step that keeps uploads apart: a new upload has an id of its own among those at work, no file is
begun again once bytes are in it, an empty file is begun before its end, and no removal fails. -/
def Careful (s : FileUploadStore) : Event → Prop
  | .beginUpload request => ∀ entry ∈ s.uploads.zipIdx, s.Live entry.2 entry.1 →
      entry.1.id ≠ (s.newUpload request).id
  | .start i => ∀ u ∈ s.uploads[i]?, s.pending u.requestId = some i →
      (u.queue.head? = some (.frame .fileBegin) → u.receivedBytes = 0) ∧
        (u.queue.head? = some (.frame .fileEnd) → u.started = true ∨ u.size ≠ 0)
  | .fail i _ _ => ∀ u ∈ s.uploads[i]?, ∀ running ∈ u.running, running.1.removes = false
  | _ => True

def CarefulAlong (s : FileUploadStore) : List Event → Prop
  | [] => True
  | event :: events => s.Careful event ∧ ∀ s' ∈ s.step event, s'.CarefulAlong events

instance (s : FileUploadStore) (event : Event) : Decidable (s.Careful event) := by
  unfold Careful
  split <;> infer_instance

/-- Whether every step of a run is careful can be computed. -/
def decideCarefulAlong (s : FileUploadStore) : (events : List Event) → Decidable (s.CarefulAlong events)
  | [] => .isTrue trivial
  | event :: events =>
    have := fun s' : FileUploadStore => decideCarefulAlong s' events
    inferInstanceAs (Decidable (_ ∧ ∀ s' ∈ s.step event, _))

instance (s : FileUploadStore) (events : List Event) : Decidable (s.CarefulAlong events) :=
  decideCarefulAlong s events

/-! ## What holds of an upload -/

/-- What is in the file of a pending upload, by the operation that it awaits. -/
def Written (u : PendingUpload) (content : Option (List UInt8)) : Prop :=
  match u.running with
  | none => u.started = true → content = some (chunkBytes u.applied)
  | some (.mkdir, _) => chunkBytes u.applied = []
  | some (.writeFile, .done) => chunkBytes u.applied = [] ∧ content = some []
  | some (.writeFile, _) => chunkBytes u.applied = []
  | some (.appendFile _, .onItsWay) => u.started = true ∧ content = some (chunkBytes u.applied)
  | some (.appendFile payload, .done) =>
    u.started = true ∧ content = some (chunkBytes u.applied ++ payload)
  | some (.appendFile _, .failed _) => True
  | some (.rm _, _) => False

/-- What holds of an upload that is pending. -/
structure Kept (content : Option (List UInt8)) (u : PendingUpload) : Prop where
  fifo : u.arrived =
    u.applied ++ (u.running.bind (·.1.frame?)).toList ++ u.queue.filterMap Job.frame?
  counted : u.receivedBytes = (chunkBytes u.applied).length
  unstarted : u.started = false → u.applied = []
  begun : u.started = true → u.applied.head? = some .fileBegin
  unended : UploadFrame.fileEnd ∉ u.applied
  unclean : Job.cleanup ∉ u.queue
  written : Written u content

/-- The removal of the directory is still to come. -/
def Cleaning (u : PendingUpload) : Prop :=
  Job.cleanup ∈ u.queue ∨ ∃ error, u.running = some (.rm error, .onItsWay)

/-- No operation but a removal is awaited, and that has landed. -/
def Cleaned (u : PendingUpload) : Prop :=
  ∀ running ∈ u.running, running.1.removes = true ∧ running.2 ≠ .onItsWay

/-- A later upload has the id. -/
def Reused (s : FileUploadStore) (i : ℕ) (id : String) : Prop :=
  ∃ j v, i < j ∧ s.uploads[j]? = some v ∧ v.id = id

/-- What is left of an upload that is neither pending nor answered without an error. -/
def Gone (s : FileUploadStore) (i : ℕ) (u : PendingUpload) : Prop :=
  Cleaning u ∨ Cleaned u ∧ (s.Reused i u.id ∨ s.disk u.id = none)

structure Inv (s : FileUploadStore) : Prop where
  pending_valid : ∀ requestId i, s.pending requestId = some i →
    ∃ u, s.uploads[i]? = some u ∧ u.requestId = requestId
  distinct : ∀ i j u v, i < j → s.uploads[i]? = some u → s.uploads[j]? = some v → s.Live i u →
    u.id ≠ v.id
  kept : ∀ i u, s.uploads[i]? = some u → s.pending u.requestId = some i → Kept (s.fileAt u.path) u
  gone : ∀ i u, s.uploads[i]? = some u → s.pending u.requestId ≠ some i → u.succeeded = false →
    s.Gone i u

theorem inv_empty (disk : String → Directory) : Inv (empty disk) where
  pending_valid := fun _ _ h => nomatch h
  distinct := fun _ _ _ _ _ h => nomatch h
  kept := fun _ _ h => nomatch h
  gone := fun _ _ h => nomatch h

/-! ## A step of one upload -/

/-- What is left of the pending uploads when one is changed: all of them, or all but that one. -/
def Clears (s s' : FileUploadStore) (i : ℕ) (u : PendingUpload) : Prop :=
  s'.pending = s.pending ∨ s.pending u.requestId = some i ∧
    s'.pending = Function.update s.pending u.requestId none

theorem Clears.pending {requestId : String} (h : Clears s s' i u)
    (hpending : s'.pending requestId = some j) : s.pending requestId = some j := by
  rcases h with hsame | ⟨-, hclear⟩
  · rwa [hsame] at hpending
  · rw [hclear, update_apply] at hpending
    split at hpending
    · contradiction
    · exact hpending

theorem Clears.other {requestId : String} (h : Clears s s' i u) (hne : i ≠ j)
    (hpending : s.pending requestId = some j) : s'.pending requestId = some j := by
  rcases h with hsame | ⟨hown, hclear⟩
  · rwa [hsame]
  · rw [hclear, update_apply]
    split
    · next heq =>
      rw [heq, hown] at hpending
      exact absurd (some.inj hpending) hne
    · exact hpending

theorem getElem?_set_cases {xs : List PendingUpload} {v : PendingUpload} (h : (xs.set i u')[j]? = some v) :
    i = j ∧ v = u' ∨ i ≠ j ∧ xs[j]? = some v := by
  rw [getElem?_set] at h
  split at h
  · next heq =>
    split at h
    · exact .inl ⟨heq, (some.inj h).symm⟩
    · contradiction
  · next hne => exact .inr ⟨hne, h⟩

/-- One upload that is at work takes a step; the others keep what they have, as their directories are
not touched. -/
theorem Inv.update (hinv : Inv s) (hu : s.uploads[i]? = some u)
    (huploads : s'.uploads = s.uploads.set i u') (hid : u'.id = u.id)
    (hrequest : u'.requestId = u.requestId) (hpending : Clears s s' i u)
    (hdisk : ∀ id, id ≠ u.id → s'.disk id = s.disk id) (hlive : s.Live i u)
    (hkept : s'.pending u.requestId = some i → Kept (s'.fileAt u'.path) u')
    (hgone : s'.pending u.requestId ≠ some i → u'.succeeded = false →
      Cleaning u' ∨ Cleaned u' ∧ (s.Reused i u.id ∨ s'.disk u.id = none)) :
    Inv s' := by
  have hlt : i < s.uploads.length := (List.getElem?_eq_some_iff.mp hu).1
  have hu' : s'.uploads[i]? = some u' := by
    rw [huploads, getElem?_set_self hlt]
  have hback {j : ℕ} {v : PendingUpload} (hv : s'.uploads[j]? = some v) :
      ∃ v', s.uploads[j]? = some v' ∧ v'.id = v.id ∧ (s'.Live j v → s.Live j v') := by
    rw [huploads] at hv
    rcases getElem?_set_cases hv with ⟨rfl, rfl⟩ | ⟨-, hv⟩
    · exact ⟨u, hu, hid.symm, fun _ => hlive⟩
    · exact ⟨v, hv, rfl, fun h => h.imp_left hpending.pending⟩
  have hreused {j : ℕ} {id : String} (h : s.Reused j id) : s'.Reused j id := by
    obtain ⟨k, v, hk, hv, hsame⟩ := h
    by_cases heq : i = k
    · subst heq
      rw [hu] at hv
      rw [← some.inj hv] at hsame
      exact ⟨i, u', hk, hu', hid.trans hsame⟩
    · exact ⟨k, v, hk, by rw [huploads, getElem?_set_ne heq, hv], hsame⟩
  constructor
  · intro requestId j h
    obtain ⟨v, hv, hsame⟩ := hinv.pending_valid requestId j (hpending.pending h)
    by_cases heq : i = j
    · subst heq
      rw [hu] at hv
      rw [← some.inj hv] at hsame
      exact ⟨u', hu', hrequest.trans hsame⟩
    · exact ⟨v, by rw [huploads, getElem?_set_ne heq, hv], hsame⟩
  · intro j k v w hjk hv hw hliveAt
    obtain ⟨v', hv', hvid, hvlive⟩ := hback hv
    obtain ⟨w', hw', hwid, -⟩ := hback hw
    rw [← hvid, ← hwid]
    exact hinv.distinct j k v' w' hjk hv' hw' (hvlive hliveAt)
  · intro j v hv hown
    rw [huploads] at hv
    rcases getElem?_set_cases hv with ⟨rfl, rfl⟩ | ⟨hne, hv⟩
    · exact hkept (hrequest ▸ hown)
    · have hown' := hpending.pending hown
      have hkeptv := hinv.kept j v hv hown'
      have hids : v.id ≠ u.id := by
        rcases Nat.lt_or_gt_of_ne hne with hlt | hlt
        · exact (hinv.distinct i j u v hlt hu hv hlive).symm
        · exact hinv.distinct j i v u hlt hv hu (.inl hown')
      have hfile : s'.fileAt v.path = s.fileAt v.path := by
        rw [fileAt, fileAt, PendingUpload.path, hdisk v.id hids]
      rwa [hfile]
  · intro j v hv hown hfailed
    rw [huploads] at hv
    rcases getElem?_set_cases hv with ⟨rfl, rfl⟩ | ⟨hne, hv⟩
    · have hleft := hgone (hrequest ▸ hown) hfailed
      rw [← hid] at hleft
      exact hleft.imp_right fun h => ⟨h.1, h.2.imp_left hreused⟩
    · have hown' : s.pending v.requestId ≠ some j := fun h => hown (hpending.other hne h)
      refine (hinv.gone j v hv hown' hfailed).imp_right ?_
      rintro ⟨hcleaned, hleft⟩
      refine ⟨hcleaned, ?_⟩
      by_cases hids : v.id = u.id
      · rcases Nat.lt_or_gt_of_ne hne with hlt | hlt
        · exact absurd hids.symm (hinv.distinct i j u v hlt hu hv hlive)
        · exact .inl ⟨i, u', hlt, hu', hid.trans hids.symm⟩
      · exact hleft.imp hreused fun hnone => (hdisk v.id hids).trans hnone

@[simp] theorem uploads_clearPendingUpload :
    (s.clearPendingUpload i u).uploads = s.uploads := by
  unfold clearPendingUpload
  split <;> rfl

@[simp] theorem disk_clearPendingUpload : (s.clearPendingUpload i u).disk = s.disk := by
  unfold clearPendingUpload
  split <;> rfl

theorem clears_clearPendingUpload : Clears s (s.clearPendingUpload i u) i u := by
  unfold clearPendingUpload
  split
  · next hown => exact .inr ⟨hown, rfl⟩
  · exact .inl rfl

theorem pending_clearPendingUpload : (s.clearPendingUpload i u).pending u.requestId ≠ some i := by
  unfold clearPendingUpload
  split
  · simp
  · next hother => exact hother

section

variable (hinv : Inv s) {frame : UploadFrame} {content : Option (List UInt8)}
include hinv

/-- An upload that is not pending any more, with its removal to come. -/
theorem Inv.cleared (hu : s.uploads[i]? = some u) (hlive : s.Live i u) (hid : u'.id = u.id)
    (hrequest : u'.requestId = u.requestId) (hcleaning : u'.succeeded = true ∨ Cleaning u') :
    Inv ((s.clearPendingUpload i u).put i u') := by
  have hclears : Clears s ((s.clearPendingUpload i u).put i u') i u := clears_clearPendingUpload
  apply hinv.update hu (by simp [put]) hid hrequest hclears
  · intro id _
    simp [put]
  · exact hlive
  · exact fun h => absurd h pending_clearPendingUpload
  · intro _ hfailed
    rcases hcleaning with hdone | hcleaning
    · rw [hfailed] at hdone
      contradiction
    · exact .inl hcleaning

theorem inv_abandon (requestId : String) : Inv (s.abandon requestId) := by
  unfold abandon
  split
  · exact hinv
  · next i hpending =>
    obtain ⟨u, hu, hrequest⟩ := hinv.pending_valid requestId i hpending
    simp only [hu]
    have hcleaning : Cleaning { u with queue := u.queue ++ [.cleanup] } := .inl (by simp)
    exact hinv.cleared hu (.inl (hrequest ▸ hpending)) rfl rfl (.inr hcleaning)

/-! ## A new upload -/

/-- A request that is abandoned has no pending upload, and its upload had its id before. -/
theorem abandon_spec (requestId : String) :
    (s.abandon requestId).pending requestId = none ∧
      (s.abandon requestId).uploads.length = s.uploads.length ∧
      ∀ j v, (s.abandon requestId).uploads[j]? = some v → (s.abandon requestId).Live j v →
        ∃ v', s.uploads[j]? = some v' ∧ v'.id = v.id ∧ s.Live j v' := by
  unfold abandon
  split
  · next hnone => exact ⟨hnone, rfl, fun j v hv hlive => ⟨v, hv, rfl, hlive⟩⟩
  · next i hpending =>
    obtain ⟨u, hu, hrequest⟩ := hinv.pending_valid requestId i hpending
    have hown : s.pending u.requestId = some i := hrequest ▸ hpending
    simp only [hu]
    refine ⟨?_, by simp [put], ?_⟩
    · simp only [put, clearPendingUpload, if_pos hown]
      rw [hrequest, update_self]
    · intro j v hv hlive
      simp only [put, uploads_clearPendingUpload] at hv
      rcases getElem?_set_cases hv with ⟨rfl, rfl⟩ | ⟨-, hv⟩
      · exact ⟨u, hu, rfl, .inl hown⟩
      · exact ⟨v, hv, rfl, hlive.imp_left clears_clearPendingUpload.pending⟩

theorem inv_beginUpload {request : FileUploadRequest} (hcareful : s.Careful (.beginUpload request)) :
    Inv (s.beginUpload request) := by
  obtain ⟨hnone, hlength, hlive⟩ := abandon_spec hinv request.requestId
  have habandoned := inv_abandon hinv request.requestId
  unfold beginUpload
  simp only []
  generalize s.abandon request.requestId = a at hnone hlength hlive habandoned
  have hcases {j : ℕ} {v : PendingUpload} (hv : (a.uploads ++ [s.newUpload request])[j]? = some v) :
      a.uploads[j]? = some v ∧ j < a.uploads.length ∨
        j = a.uploads.length ∧ v = s.newUpload request := by
    by_cases hlt : j < a.uploads.length
    · rw [getElem?_append_left hlt] at hv
      exact .inl ⟨hv, hlt⟩
    · rw [getElem?_append_right (by omega), getElem?_singleton] at hv
      split at hv
      · exact .inr ⟨by omega, (some.inj hv).symm⟩
      · contradiction
  have hold {j : ℕ} {v : PendingUpload} (hv : a.uploads[j]? = some v) :
      (a.uploads ++ [s.newUpload request])[j]? = some v := by
    rw [getElem?_append_left (List.getElem?_eq_some_iff.mp hv).1, hv]
  have hpending {requestId : String} {j : ℕ} (hlt : j < a.uploads.length) :
      Function.update a.pending request.requestId (some a.uploads.length) requestId = some j ↔
        a.pending requestId = some j := by
    rw [update_apply]
    split
    · next heq =>
      rw [heq, hnone]
      simp only [Option.some.injEq, reduceCtorEq, iff_false]
      omega
    · rfl
  constructor
  · intro requestId j h
    change Function.update a.pending request.requestId (some a.uploads.length) requestId = some j at h
    by_cases heq : requestId = request.requestId
    · rw [heq, update_self] at h
      refine ⟨s.newUpload request, ?_, heq.symm⟩
      rw [← some.inj h]
      simp
    · rw [update_of_ne heq] at h
      obtain ⟨v, hv, hsame⟩ := habandoned.pending_valid requestId j h
      exact ⟨v, hold hv, hsame⟩
  · intro j k v w hjk hv hw hliveAt
    rcases hcases hv with ⟨hv, hlt⟩ | ⟨rfl, rfl⟩
    · have hliveOld : a.Live j v := hliveAt.imp_left (hpending hlt).mp
      rcases hcases hw with ⟨hw, -⟩ | ⟨rfl, rfl⟩
      · exact habandoned.distinct j k v w hjk hv hw hliveOld
      · obtain ⟨v', hv', hid, hlive'⟩ := hlive j v hv hliveOld
        rw [← hid]
        exact hcareful (v', j) (mem_zipIdx_iff_getElem?.mpr hv') hlive'
    · have hle := (List.getElem?_eq_some_iff.mp hw).1
      simp only [length_append, length_singleton] at hle
      omega
  · intro j v hv hown
    rcases hcases hv with ⟨hv, hlt⟩ | ⟨rfl, rfl⟩
    · exact habandoned.kept j v hv ((hpending hlt).mp hown)
    · exact
        { fifo := rfl
          counted := rfl
          unstarted := fun _ => rfl
          begun := fun h => nomatch h
          unended := not_mem_nil
          unclean := not_mem_nil
          written := fun h => nomatch h }
  · intro j v hv hown hfailed
    rcases hcases hv with ⟨hv, hlt⟩ | ⟨rfl, rfl⟩
    · refine (habandoned.gone j v hv (fun h => hown ((hpending hlt).mpr h)) hfailed).imp_right ?_
      rintro ⟨hcleaned, hleft⟩
      refine ⟨hcleaned, hleft.imp_left ?_⟩
      rintro ⟨k, w, hk, hw, hid⟩
      exact ⟨k, w, hk, hold hw, hid⟩
    · exact absurd (update_self ..) hown

/-! ## Frames and jobs -/

theorem inv_receiveFrame {requestId : String} (h : s.receiveFrame requestId frame = some s') : Inv s' := by
  unfold receiveFrame at h
  split at h
  · rwa [← some.inj h]
  · next i hpending =>
    obtain ⟨u, hu, hmap⟩ := map_eq_some_iff.mp h
    obtain ⟨u', hu', hrequest⟩ := hinv.pending_valid requestId i hpending
    obtain rfl := some.inj (hu.symm.trans hu')
    have hown : s.pending u.requestId = some i := hrequest ▸ hpending
    rw [← hmap]
    refine hinv.update hu rfl rfl rfl (.inl rfl) (fun _ _ => rfl) (.inl hown) ?_ ?_
    · intro _
      have hkept := hinv.kept i u hu hown
      refine ⟨?_, hkept.counted, hkept.unstarted, hkept.begun, hkept.unended, ?_, hkept.written⟩
      · simp only [hkept.fifo, filterMap_append, append_assoc]
        rfl
      · simpa using hkept.unclean
    · exact fun hnot => absurd hown hnot

theorem inv_removeFailedUpload {message : String} {queue : List Job} (hu : s.uploads[i]? = some u)
    (hlive : s.Live i u) :
    Inv (s.removeFailedUpload i { u with queue } message) := by
  have hfailed : Inv ((s.clearPendingUpload i u).put i
      { u with queue, running := some (.rm (some message), .onItsWay) }) :=
    hinv.cleared hu hlive rfl rfl (.inr (.inr ⟨some message, rfl⟩))
  exact hfailed

omit hinv in
theorem Kept.running (hkept : Kept content u) (hnone : u.running = none) (hstarted : u.started = true) :
    content = some (chunkBytes u.applied) := by
  have hwritten := hkept.written
  unfold Written at hwritten
  rw [hnone] at hwritten
  exact hwritten hstarted

theorem inv_applyFrame {queue : List Job} (hu : s.uploads[i]? = some u) (hnone : u.running = none)
    (hqueue : u.queue = .frame frame :: queue) (hown : s.pending u.requestId = some i)
    (hbegin : frame = .fileBegin → u.receivedBytes = 0) :
    Inv (s.applyFrame i { u with queue } frame) := by
  have hkept := hinv.kept i u hu hown
  have hlive : s.Live i u := .inl hown
  have hfifo := hkept.fifo
  rw [hnone, hqueue] at hfifo
  have hunclean := hkept.unclean
  rw [hqueue, mem_cons, not_or] at hunclean
  cases frame with
  | fileBegin =>
    refine hinv.update hu rfl rfl rfl (.inl rfl) (fun _ _ => rfl) hlive ?_ ?_
    · intro _
      refine ⟨?_, hkept.counted, hkept.unstarted, hkept.begun, hkept.unended, hunclean.2, ?_⟩
      · simpa [Operation.frame?, Job.frame?] using hfifo
      · have hzero := hkept.counted
        rw [hbegin rfl] at hzero
        exact length_eq_zero_iff.mp hzero.symm
    · exact fun hnot => absurd hown hnot
  | fileChunk payload =>
    simp only [applyFrame]
    split
    · exact inv_removeFailedUpload hinv hu hlive
    split
    · exact inv_removeFailedUpload hinv hu hlive
    · next hstarted _ =>
      have hstarted' : u.started = true := by simpa using hstarted
      refine hinv.update hu rfl rfl rfl (.inl rfl) (fun _ _ => rfl) hlive ?_ ?_
      · intro _
        refine ⟨?_, hkept.counted, hkept.unstarted, hkept.begun, hkept.unended, hunclean.2, ?_⟩
        · simpa [Operation.frame?, Job.frame?] using hfifo
        · exact ⟨hstarted', hkept.running hnone hstarted'⟩
      · exact fun hnot => absurd hown hnot
  | fileEnd =>
    simp only [applyFrame, completeUpload]
    split
    · exact inv_removeFailedUpload hinv hu hlive
    · have hdone : Inv ((s.clearPendingUpload i u).put i { u with queue, succeeded := true }) :=
        hinv.cleared hu hlive rfl rfl (.inl rfl)
      exact ⟨hdone.pending_valid, hdone.distinct, hdone.kept, hdone.gone⟩

theorem inv_start (hcareful : s.Careful (.start i)) (h : s.start i = some s') :
    Inv s' := by
  obtain ⟨u, hu, h⟩ := bind_eq_some_iff.mp h
  split at h
  · next queue hnone hqueue =>
    rw [← some.inj h]
    have hlive : s.Live i u := .inr (.inl (by rw [hqueue]; simp))
    refine hinv.update hu rfl rfl rfl (.inl rfl) (fun _ _ => rfl) hlive ?_ ?_
    · intro hown
      have hkept := hinv.kept i u hu hown
      exact absurd (by rw [hqueue]; exact mem_cons_self) hkept.unclean
    · exact fun _ _ => .inl (.inr ⟨none, rfl⟩)
  · next frame queue hnone hqueue =>
    have hlive : s.Live i u := .inr (.inl (by rw [hqueue]; simp))
    split at h
    · next hown =>
      rw [← some.inj h]
      apply inv_applyFrame hinv hu hnone hqueue hown
      rintro rfl
      exact (hcareful u hu hown).1 (by rw [hqueue]; rfl)
    · next hnot =>
      rw [← some.inj h]
      refine hinv.update hu rfl rfl rfl (.inl rfl) (fun _ _ => rfl) hlive ?_ ?_
      · exact fun hown => absurd hown hnot
      · intro _ hfailed
        rcases hinv.gone i u hu hnot hfailed with hcleaning | hcleaned
        · left
          rcases hcleaning with hmem | ⟨error, hrunning⟩
          · rw [hqueue, mem_cons] at hmem
            exact .inl (hmem.resolve_left (by simp))
          · rw [hnone] at hrunning
            contradiction
        · exact .inr hcleaned
  · contradiction

/-! ## File operations -/

omit hinv in
theorem Kept.written_of (hkept : Kept content u) {running : Operation × Landing}
    (hrunning : u.running = some running) :
    Written { u with running := some running } content := by
  have hwritten := hkept.written
  unfold Written at hwritten ⊢
  rwa [hrunning] at hwritten

theorem inv_land (h : s.land i = some s') : Inv s' := by
  obtain ⟨u, hu, h⟩ := bind_eq_some_iff.mp h
  split at h
  · next operation hrunning =>
    obtain ⟨directory, heffect, hmap⟩ := map_eq_some_iff.mp h
    rw [← hmap]
    have hlive : s.Live i u := .inr (.inr (by rw [hrunning]; rfl))
    have hdisk : ∀ id, id ≠ u.id → Function.update s.disk u.id directory id = s.disk id :=
      fun id hne => update_of_ne hne _ _
    refine hinv.update hu rfl rfl rfl (.inl rfl) hdisk hlive ?_ ?_
    · intro hown
      have hkept := hinv.kept i u hu hown
      have hwritten := hkept.written_of hrunning
      have hfifo := hkept.fifo
      rw [hrunning] at hfifo
      refine ⟨hfifo, hkept.counted, hkept.unstarted, hkept.begun, hkept.unended, hkept.unclean, ?_⟩
      simp only [fileAt, PendingUpload.path, update_self]
      cases operation with
      | mkdir => exact hwritten
      | writeFile =>
        obtain ⟨files, -, rfl⟩ := map_eq_some_iff.mp heffect
        exact ⟨hwritten, by simp⟩
      | appendFile payload =>
        obtain ⟨files, hfiles, rfl⟩ := map_eq_some_iff.mp heffect
        obtain ⟨hstarted, hcontent⟩ := hwritten
        rw [fileAt, PendingUpload.path, hfiles, bind_some] at hcontent
        exact ⟨hstarted, by simp [hcontent]⟩
      | rm error => exact hwritten
    · intro hnot hfailed
      rcases hinv.gone i u hu hnot hfailed with (hmem | ⟨error, hremoval⟩) | ⟨hcleaned, -⟩
      · exact .inl (.inl hmem)
      · rw [hrunning] at hremoval
        obtain ⟨rfl, -⟩ := Prod.mk.inj (some.inj hremoval)
        refine .inr ⟨?_, .inr ?_⟩
        · intro running hsome
          rw [← some.inj hsome]
          exact ⟨rfl, by simp⟩
        · simp only [update_self]
          exact (some.inj heffect).symm
      · exact absurd rfl (hcleaned _ hrunning).2
  · contradiction

theorem inv_fail {message : String} {left : Directory} (hcareful : s.Careful (.fail i message left))
    (h : s.fail i message left = some s') : Inv s' := by
  obtain ⟨u, hu, h⟩ := bind_eq_some_iff.mp h
  split at h
  · next operation hrunning =>
    have hkeeps : operation.removes = false := hcareful u hu _ hrunning
    rw [← some.inj h]
    have hlive : s.Live i u := .inr (.inr (by rw [hrunning]; rfl))
    have hdisk : ∀ id, id ≠ u.id → Function.update s.disk u.id left id = s.disk id :=
      fun id hne => update_of_ne hne _ _
    refine hinv.update hu rfl rfl rfl (.inl rfl) hdisk hlive ?_ ?_
    · intro hown
      have hkept := hinv.kept i u hu hown
      have hwritten := hkept.written_of hrunning
      have hfifo := hkept.fifo
      rw [hrunning] at hfifo
      refine ⟨hfifo, hkept.counted, hkept.unstarted, hkept.begun, hkept.unended, hkept.unclean, ?_⟩
      cases operation with
      | mkdir => exact hwritten
      | writeFile => exact hwritten
      | appendFile payload => exact trivial
      | rm error => exact hwritten
    · intro hnot hfailed
      rcases hinv.gone i u hu hnot hfailed with (hmem | ⟨error, hremoval⟩) | ⟨hcleaned, -⟩
      · exact .inl (.inl hmem)
      · rw [hrunning] at hremoval
        obtain ⟨rfl, -⟩ := Prod.mk.inj (some.inj hremoval)
        contradiction
      · exact absurd rfl (hcleaned _ hrunning).2
  · contradiction

section

variable (hu : s.uploads[i]? = some u)
include hu

/-- An upload whose write is awaited and that is not pending has its removal in the queue. -/
theorem Inv.cleanup_mem {operation : Operation} {landing : Landing}
    (hrunning : u.running = some (operation, landing)) (hkeeps : operation.removes = false)
    (hnot : s.pending u.requestId ≠ some i) (hfailed : u.succeeded = false) : Job.cleanup ∈ u.queue := by
  rcases hinv.gone i u hu hnot hfailed with (hmem | ⟨error, hremoval⟩) | ⟨hcleaned, -⟩
  · exact hmem
  · rw [hrunning] at hremoval
    obtain ⟨rfl, -⟩ := Prod.mk.inj (some.inj hremoval)
    contradiction
  · have hremoves := (hcleaned _ hrunning).1
    rw [hkeeps] at hremoves
    contradiction

/-- A removal has landed, and its error is answered. -/
theorem inv_removed {error : Option String} {landing : Landing}
    {responses : List (ℕ × FileUploadResponse)} (hrunning : u.running = some (.rm error, landing))
    (hlanded : landing ≠ .onItsWay) :
    Inv { s.put i { u with running := none } with responses } := by
  have hlive : s.Live i u := .inr (.inr (by rw [hrunning]; rfl))
  refine hinv.update hu rfl rfl rfl (.inl rfl) (fun _ _ => rfl) hlive ?_ ?_
  · intro hown
    exact ((hinv.kept i u hu hown).written_of hrunning).elim
  · intro hnot hfailed
    rcases hinv.gone i u hu hnot hfailed with (hmem | ⟨error', hremoval⟩) | ⟨-, hleft⟩
    · exact .inl (.inl hmem)
    · rw [hrunning] at hremoval
      exact absurd (Prod.mk.inj (some.inj hremoval)).2 hlanded
    · exact .inr ⟨fun _ hnone => (nomatch hnone), hleft⟩

theorem inv_resumed_mkdir (hrunning : u.running = some (.mkdir, .done)) :
    Inv (s.put i { u with running := some (.writeFile, .onItsWay) }) := by
  have hlive : s.Live i u := .inr (.inr (by rw [hrunning]; rfl))
  refine hinv.update hu rfl rfl rfl (.inl rfl) (fun _ _ => rfl) hlive ?_ ?_
  · intro hown
    have hkept := hinv.kept i u hu hown
    have hfifo := hkept.fifo
    rw [hrunning] at hfifo
    have hempty : chunkBytes u.applied = [] := hkept.written_of hrunning
    exact ⟨hfifo, hkept.counted, hkept.unstarted, hkept.begun, hkept.unended, hkept.unclean, hempty⟩
  · intro hnot hfailed
    have hmem := hinv.cleanup_mem hu hrunning rfl hnot hfailed
    exact .inl (.inl hmem)

theorem inv_resumed_writeFile (hrunning : u.running = some (.writeFile, .done)) :
    Inv (s.put i { u with
      running := none, started := true, applied := u.applied ++ [.fileBegin] }) := by
  have hlive : s.Live i u := .inr (.inr (by rw [hrunning]; rfl))
  refine hinv.update hu rfl rfl rfl (.inl rfl) (fun _ _ => rfl) hlive ?_ ?_
  · intro hown
    have hkept := hinv.kept i u hu hown
    obtain ⟨hempty, hcontent⟩ := hkept.written_of hrunning
    have hfifo := hkept.fifo
    rw [hrunning] at hfifo
    have hnone : chunkBytes (u.applied ++ [.fileBegin]) = [] := by
      rw [chunkBytes_append, hempty]
      rfl
    refine ⟨?_, ?_, fun hstarted => (nomatch hstarted), ?_, ?_, hkept.unclean, fun _ => ?_⟩
    · simpa [Operation.frame?] using hfifo
    · rw [hnone, hkept.counted, hempty]
    · intro _
      by_cases hstarted : u.started = true
      · rw [head?_append, hkept.begun hstarted]
        rfl
      · rw [hkept.unstarted (by simpa using hstarted)]
        rfl
    · simpa using hkept.unended
    · rw [hnone]
      exact hcontent
  · intro hnot hfailed
    have hmem := hinv.cleanup_mem hu hrunning rfl hnot hfailed
    exact .inl (.inl hmem)

theorem inv_resumed_appendFile {payload : List UInt8}
    (hrunning : u.running = some (.appendFile payload, .done)) :
    Inv (s.put i { u with
      running := none, receivedBytes := u.receivedBytes + payload.length
      applied := u.applied ++ [.fileChunk payload] }) := by
  have hlive : s.Live i u := .inr (.inr (by rw [hrunning]; rfl))
  refine hinv.update hu rfl rfl rfl (.inl rfl) (fun _ _ => rfl) hlive ?_ ?_
  · intro hown
    have hkept := hinv.kept i u hu hown
    obtain ⟨hstarted, hcontent⟩ := hkept.written_of hrunning
    have hfifo := hkept.fifo
    rw [hrunning] at hfifo
    have hbytes : chunkBytes (u.applied ++ [.fileChunk payload]) =
        chunkBytes u.applied ++ payload := by
      rw [chunkBytes_append, chunkBytes_singleton]
      rfl
    refine ⟨?_, ?_, ?_, ?_, ?_, hkept.unclean, fun _ => ?_⟩
    · simpa [Operation.frame?] using hfifo
    · rw [hbytes, length_append, hkept.counted]
    · intro hnot
      rw [hstarted] at hnot
      contradiction
    · intro _
      rw [head?_append, hkept.begun hstarted]
      rfl
    · simpa using hkept.unended
    · rw [hbytes]
      exact hcontent
  · intro hnot hfailed
    have hmem := hinv.cleanup_mem hu hrunning rfl hnot hfailed
    exact .inl (.inl hmem)

end

theorem inv_resume (h : s.resume i = some s') : Inv s' := by
  obtain ⟨u, hu, h⟩ := bind_eq_some_iff.mp h
  obtain ⟨⟨operation, landing⟩, hrunning, h⟩ := bind_eq_some_iff.mp h
  have hfailed (message : String) : Inv (s.removeFailedUpload i u message) := by
    have hlive : s.Live i u := .inr (.inr (by rw [hrunning]; rfl))
    exact inv_removeFailedUpload hinv hu hlive
  cases landing with
  | onItsWay => contradiction
  | done =>
    cases operation with
    | mkdir => exact some.inj h ▸ inv_resumed_mkdir hinv hu hrunning
    | writeFile => exact some.inj h ▸ inv_resumed_writeFile hinv hu hrunning
    | appendFile payload => exact some.inj h ▸ inv_resumed_appendFile hinv hu hrunning
    | rm error => exact some.inj h ▸ inv_removed hinv hu hrunning (by decide)
  | failed message =>
    cases operation with
    | mkdir => exact some.inj h ▸ hfailed message
    | writeFile => exact some.inj h ▸ hfailed message
    | appendFile payload => exact some.inj h ▸ hfailed message
    | rm error => exact some.inj h ▸ inv_removed hinv hu hrunning (by simp)

theorem inv_step {event : Event} (hcareful : s.Careful event) (h : s.step event = some s') : Inv s' := by
  cases event with
  | beginUpload request => exact some.inj h ▸ inv_beginUpload hinv hcareful
  | receiveFrame requestId frame => exact inv_receiveFrame hinv h
  | expireStaleUpload requestId => exact some.inj h ▸ inv_abandon hinv requestId
  | start i => exact inv_start hinv hcareful h
  | land i => exact inv_land hinv h
  | fail i message left => exact inv_fail hinv hcareful h
  | resume i => exact inv_resume hinv h

omit hinv in
theorem inv_run {before : List Event} {event : Event} {after : List Event} {first : FileUploadStore}
    (hinv : Inv first) (hcareful : first.CarefulAlong (before ++ event :: after))
    (hrun : first.run before = some s) : Inv s ∧ s.Careful event := by
  induction before generalizing first with
  | nil =>
    obtain rfl := some.inj hrun
    exact ⟨hinv, hcareful.1⟩
  | cons earlier before ih =>
    obtain ⟨next, hnext, hrest⟩ := bind_eq_some_iff.mp hrun
    exact ih (inv_step hinv hcareful.1 hnext) (hcareful.2 next hnext) hrest

/-! ## Answers -/

/-- An answer without an error is about a file with the bytes of the chunks that were received up to
the end, from the begin on, and as many of them as were declared. -/
def AnswersComplete (s s' : FileUploadStore) : Prop :=
  ∀ i response, s'.responses = s.responses ++ [(i, response)] → response.error = none →
    ∃ u file, s'.uploads[i]? = some u ∧ response.file = some file ∧
      .fileEnd ∈ u.arrived ∧
      (u.arrived.takeWhile (· ≠ .fileEnd)).head? = some .fileBegin ∧
      s'.fileAt file.path = some (chunkBytes (u.arrived.takeWhile (· ≠ .fileEnd))) ∧
      (chunkBytes (u.arrived.takeWhile (· ≠ .fileEnd))).length = u.size ∧ file.size = u.size

/-- No file is left of an upload that failed, expired or was replaced, once its removal is over. -/
def FailuresLeaveNothing (s : FileUploadStore) : Prop :=
  ∀ i u, s.uploads[i]? = some u → ¬ s.Live i u → u.succeeded = false →
    s.Reused i u.id ∨ s.disk u.id = none

def PendingApart (s : FileUploadStore) : Prop :=
  ∀ i j u v, s.uploads[i]? = some u → s.uploads[j]? = some v → s.pending u.requestId = some i →
    s.pending v.requestId = some j → i ≠ j → u.path ≠ v.path

theorem Inv.failuresLeaveNothing : s.FailuresLeaveNothing := by
  intro i u hu hidle hfailed
  have hnot : s.pending u.requestId ≠ some i := fun h => hidle (.inl h)
  have hqueue : u.queue = [] := by
    by_contra hne
    exact hidle (.inr (.inl hne))
  have hnone : u.running = none := by
    by_contra hne
    exact hidle (.inr (.inr (isSome_iff_ne_none.mpr hne)))
  rcases hinv.gone i u hu hnot hfailed with (hmem | ⟨error, hremoval⟩) | ⟨-, hleft⟩
  · rw [hqueue] at hmem
    contradiction
  · rw [hnone] at hremoval
    contradiction
  · exact hleft

theorem Inv.pendingApart : s.PendingApart := by
  intro i j u v hu hv hownu hownv hne heq
  have hid : u.id = v.id := congrArg UploadPath.id heq
  rcases Nat.lt_or_gt_of_ne hne with hlt | hlt
  · exact hinv.distinct i j u v hlt hu hv (.inl hownu) hid
  · exact hinv.distinct j i v u hlt hv hu (.inl hownv) hid.symm

end

@[simp] theorem responses_clearPendingUpload :
    (s.clearPendingUpload i u).responses = s.responses := by
  unfold clearPendingUpload
  split <;> rfl

theorem responses_abandon (requestId : String) : (s.abandon requestId).responses = s.responses := by
  unfold abandon
  split
  · rfl
  split
  · rfl
  · simp [put]

/-- Only the end of an upload is answered without an error. -/
theorem answered_start (h : s.start i = some s') (hanswer : s'.responses = s.responses ++ [(j, response)]) :
    ∃ u queue, s.uploads[i]? = some u ∧ u.running = none ∧ u.queue = .frame .fileEnd :: queue ∧
      s.pending u.requestId = some i ∧ u.receivedBytes = u.size ∧ j = i ∧
      response = buildUploadResponse u none ∧ s'.disk = s.disk ∧
      s'.uploads = s.uploads.set i { u with queue, succeeded := true } := by
  obtain ⟨u, hu, h⟩ := bind_eq_some_iff.mp h
  have hsilent : s'.responses ≠ s.responses := by
    rw [hanswer]
    simp
  split at h
  · rw [← some.inj h] at hsilent
    exact absurd rfl hsilent
  · next frame queue hnone hqueue =>
    split at h
    · next hown =>
      rw [← some.inj h] at hanswer hsilent ⊢
      cases frame with
      | fileBegin => exact absurd rfl hsilent
      | fileChunk payload =>
        refine absurd ?_ hsilent
        simp only [applyFrame]
        split
        · simp [removeFailedUpload, put]
        split
        · simp [removeFailedUpload, put]
        · rfl
      | fileEnd =>
        simp only [applyFrame, completeUpload] at hanswer hsilent ⊢
        split at hanswer
        · simp [removeFailedUpload, put] at hanswer
        · next hsize =>
          rw [if_neg hsize]
          have hsame := append_cancel_left hanswer
          obtain ⟨rfl, rfl⟩ := Prod.mk.inj (List.cons.inj hsame).1
          exact ⟨u, queue, hu, hnone, hqueue, hown, not_not.mp hsize, rfl, rfl, by simp [put],
            by simp [put]⟩
    · rw [← some.inj h] at hsilent
      exact absurd rfl hsilent
  · contradiction

theorem answered_resume (h : s.resume i = some s')
    (hanswer : s'.responses = s.responses ++ [(j, response)]) : response.error ≠ none := by
  obtain ⟨u, hu, h⟩ := bind_eq_some_iff.mp h
  obtain ⟨⟨operation, landing⟩, hrunning, h⟩ := bind_eq_some_iff.mp h
  have hremoval {error : Option String} {cleared : FileUploadStore}
      (hresponses : cleared.responses = s.responses ++
        (error.map fun message => (i, buildUploadResponse u (some message))).toList)
      (hs' : some cleared = some s') : response.error ≠ none := by
    rw [← some.inj hs', hresponses] at hanswer
    have hsame := append_cancel_left hanswer
    cases error with
    | none => contradiction
    | some message =>
      obtain ⟨-, rfl⟩ := Prod.mk.inj (List.cons.inj hsame).1
      exact some_ne_none message
  have hsilent {other : FileUploadStore} (hs' : some other = some s')
      (hresponses : other.responses = s.responses) : response.error ≠ none := by
    rw [← some.inj hs', hresponses] at hanswer
    simp at hanswer
  cases landing with
  | onItsWay => contradiction
  | done =>
    cases operation with
    | mkdir => exact hsilent h rfl
    | writeFile => exact hsilent h rfl
    | appendFile payload => exact hsilent h rfl
    | rm error => exact hremoval rfl h
  | failed message =>
    have hfailed : (s.removeFailedUpload i u message).responses = s.responses := by
      simp [removeFailedUpload, put]
    cases operation with
    | mkdir => exact hsilent h hfailed
    | writeFile => exact hsilent h hfailed
    | appendFile payload => exact hsilent h hfailed
    | rm error => exact hremoval rfl h

theorem Inv.answersComplete {event : Event} (hinv : Inv s) (hcareful : s.Careful event)
    (h : s.step event = some s') : AnswersComplete s s' := by
  intro j response hanswer herror
  have hsilent {other : FileUploadStore} (hs' : some other = some s')
      (hresponses : other.responses = s.responses) : False := by
    rw [← some.inj hs', hresponses] at hanswer
    simp at hanswer
  cases event with
  | beginUpload request => exact (hsilent h (responses_abandon request.requestId)).elim
  | receiveFrame requestId frame =>
    simp only [step, receiveFrame] at h
    split at h
    · exact (hsilent h rfl).elim
    · obtain ⟨u, -, hmap⟩ := map_eq_some_iff.mp h
      exact (hsilent (congrArg some hmap) rfl).elim
  | expireStaleUpload requestId => exact (hsilent h (responses_abandon requestId)).elim
  | start i =>
    obtain ⟨u, queue, hu, hnone, hqueue, hown, hsize, rfl, rfl, hdisk, huploads⟩ :=
      answered_start h hanswer
    have hkept := hinv.kept j u hu hown
    have hbegun := (hcareful u hu hown).2 (by rw [hqueue]; rfl)
    have hstarted : u.started = true := by
      rcases hbegun with hstarted | hsome
      · exact hstarted
      · by_contra hnot
        have hcounted := hkept.counted
        rw [hkept.unstarted (by simpa using hnot), hsize] at hcounted
        exact hsome hcounted
    have harrived : u.arrived = u.applied ++ .fileEnd :: queue.filterMap Job.frame? := by
      have hfifo := hkept.fifo
      rw [hnone, hqueue] at hfifo
      simpa [Job.frame?] using hfifo
    have htaken : u.arrived.takeWhile (· ≠ .fileEnd) = u.applied := by
      rw [harrived, takeWhile_append_of_pos]
      · simp
      · intro frame hmem
        have hne : frame ≠ .fileEnd := fun heq => hkept.unended (heq ▸ hmem)
        simpa using hne
    refine ⟨{ u with queue, succeeded := true }, _, ?_, rfl, ?_, ?_, ?_, ?_, rfl⟩
    · rw [huploads, getElem?_set_self (List.getElem?_eq_some_iff.mp hu).1]
    · simp [harrived]
    · rw [htaken]
      exact hkept.begun hstarted
    · have hfile : s'.fileAt u.path = s.fileAt u.path := by rw [fileAt, fileAt, hdisk]
      rw [htaken, ← hkept.running hnone hstarted]
      exact hfile
    · rw [htaken, ← hkept.counted, hsize]
  | land i =>
    obtain ⟨u, hu, h⟩ := bind_eq_some_iff.mp h
    split at h
    · obtain ⟨directory, -, hmap⟩ := map_eq_some_iff.mp h
      exact (hsilent (congrArg some hmap) rfl).elim
    · contradiction
  | fail i message left =>
    obtain ⟨u, hu, h⟩ := bind_eq_some_iff.mp h
    split at h
    · exact (hsilent h rfl).elim
    · contradiction
  | resume i => exact absurd herror (answered_resume h hanswer)

/-! ## Whole runs -/

/-- After every step of a run, answers without an error are complete, failures leave nothing and
uploads that are pending are apart. -/
def UploadsSafe (first : FileUploadStore) (events : List Event) : Prop :=
  ∀ before event after s s', events = before ++ event :: after → first.run before = some s →
    s.step event = some s' →
    AnswersComplete s s' ∧ s'.FailuresLeaveNothing ∧ s'.PendingApart

theorem uploads_safe (disk : String → Directory) (events : List Event)
    (hcareful : (empty disk).CarefulAlong events) : (empty disk).UploadsSafe events := by
  rintro before event after s s' rfl hrun hstep
  obtain ⟨hinv, hnow⟩ := inv_run (inv_empty disk) hcareful hrun
  have hnext := inv_step hinv hnow hstep
  exact ⟨hinv.answersComplete hnow hstep, hnext.failuresLeaveNothing, hnext.pendingApart⟩

/-! ## Runs that are not careful -/

def oneByte (requestId : String) : FileUploadRequest where
  requestId := requestId
  fileName := "a.txt"
  mimeType := "text/plain"
  size := 1

/-- The frame that is next of an upload is applied, with so many file operations. -/
def applied (i operations : ℕ) : List Event :=
  .start i :: (List.replicate operations [.land i, .resume i]).flatten

def noDisk : String → Directory := fun _ => none

def begun : List Event :=
  [.beginUpload (oneByte "r"), .receiveFrame "r" .fileBegin] ++ applied 0 2

/-- The file is begun a second time when its only byte is in it. -/
def begunAgain : List Event :=
  begun ++ [.receiveFrame "r" (.fileChunk [7]), .receiveFrame "r" .fileBegin,
    .receiveFrame "r" .fileEnd] ++ applied 0 1 ++ applied 0 2 ++ [.start 0]

/-- An upload of no bytes ends before its file is begun. -/
def endedOnly : List Event :=
  [.beginUpload { oneByte "r" with size := 0 }, .receiveFrame "r" .fileEnd, .start 0]

/-- Two requests have the same name for their directory. -/
def collided : List Event :=
  [.beginUpload (oneByte "a/b"), .beginUpload (oneByte "a_b")]

/-- The upload expires, and its directory cannot be removed. -/
def notRemoved : List Event :=
  begun ++ [.expireStaleUpload "r", .start 0, .fail 0 "EBUSY" (some fun _ => some []), .resume 0]

def carried : List Event :=
  begun ++ [.receiveFrame "r" (.fileChunk [7]), .receiveFrame "r" .fileEnd] ++ applied 0 1 ++ [.start 0]

/-- The contents of the files that were answered without an error. -/
def answeredFiles (s : FileUploadStore) : List (Option (List UInt8)) :=
  s.responses.filterMap fun response => response.2.file.map fun file => s.fileAt file.path

/-- The paths of the uploads that are pending. -/
def pendingPaths (s : FileUploadStore) : List UploadPath :=
  (s.uploads.zipIdx.filter fun entry => s.pending entry.1.requestId = some entry.2).map (·.1.path)

/-- The file of a success is empty, though as many bytes were declared and counted as were received. It
is missing in the second run, two uploads write to one path in the third, and the file of an upload that
expired stays in the fourth. -/
theorem careless_uploads :
    ¬ (empty noDisk).UploadsSafe begunAgain ∧
      (∃ s ∈ (empty noDisk).run endedOnly, s.answeredFiles = [none]) ∧
      (∃ s ∈ (empty noDisk).run collided,
        s.pendingPaths = [⟨"upload_a_b", "a.txt"⟩, ⟨"upload_a_b", "a.txt"⟩]) ∧
      ∃ s ∈ (empty noDisk).run notRemoved, s.pendingPaths = [] ∧
        s.fileAt ⟨"upload_r", "a.txt"⟩ = some [] := by
  refine ⟨?_, by decide +kernel⟩
  intro hsafe
  have hend : ∃ s ∈ (empty noDisk).run begunAgain.dropLast, ∃ s' ∈ s.step (.start 0),
      s.responses = [] ∧ s'.responses.map (·.1) = [0] ∧
        ∀ answer ∈ s'.responses, answer.2.error = none ∧ ∃ file ∈ answer.2.file,
          file.size = 1 ∧ s'.fileAt file.path = some [] := by
    decide +kernel
  obtain ⟨s, hs, s', hs', hbefore, hafter, hanswers⟩ := hend
  obtain ⟨⟨i, response⟩, hresponse, -⟩ := List.map_eq_singleton_iff.mp hafter
  obtain ⟨herror, answered, hanswered, hsize, hempty⟩ := hanswers (i, response) (by rw [hresponse]; simp)
  have hcomplete := (hsafe begunAgain.dropLast (.start 0) [] s s' rfl hs hs').1
  obtain ⟨u, file, -, hfile, -, -, hcontent, hlength, hdeclared⟩ :=
    hcomplete i response (by rw [hbefore, hresponse]; rfl) herror
  obtain rfl : answered = file := Option.some.inj (hanswered.symm.trans hfile)
  have hbytes := Option.some.inj (hempty.symm.trans hcontent)
  rw [← hbytes, ← hdeclared, hsize] at hlength
  contradiction

theorem uploads_safe_carried : (empty noDisk).UploadsSafe carried :=
  uploads_safe noDisk carried (by decide +kernel)

end FileUploadStore

end Orqara.Uploads
