import Orqara.Startup.LockOwnership

/-!
# The operations on the lock file

Each operation keeps who owns the lock file, as long as nobody has changed the path
between the read a call relies on and its touch or unlink.
-/

namespace Orqara.Startup.Host

variable {owners : Owners} {host : Host} {pid : ℕ} {inode : ℕ} {lock : PidLockInfo} {request : AcquireRequest}

theorem DiskInv.of_readPidLock {disk : Disk} (h : DiskInv owners disk)
    (hread : disk.readPidLock = some (inode, lock)) :
    disk.path = some inode ∧ (disk.files inode).content = some lock ∧
      owners.written inode ∧ owners.owner inode = lock.pid := by
  unfold Disk.readPidLock at hread
  obtain ⟨current, hpath, hmap⟩ := Option.bind_eq_some_iff.mp hread
  obtain ⟨found, hcontent, heq⟩ := Option.map_eq_some_iff.mp hmap
  have hinode : current = inode := congrArg Prod.fst heq
  have hlock : found = lock := congrArg Prod.snd heq
  rw [hinode] at hpath hcontent
  rw [hlock] at hcontent
  have hnamed := h.named inode lock hcontent (h.path_lt inode hpath)
  exact ⟨hpath, hcontent, hnamed.1, hnamed.2⟩

/-- What the process knows at its stage. -/
theorem Inv.at_stage (h : Inv owners host) {stage : Stage} (hstage : (host.proc pid).stage = stage) :
    StageInv owners host.disk pid { host.proc pid with stage } := by
  rw [← hstage]
  exact (h.procs pid).stage

/-- What an operation of the process at a stage leaves. -/
def Goes (owners : Owners) (host : Host) (pid : ℕ) (stage : Stage) : Prop :=
  GoesOn owners host pid (operate host.disk host.isPidRunning pid stage).1
    ((host.proc pid).goOn (operate host.disk host.isPidRunning pid stage).2)

section Stay

variable (h : Inv owners host)
  (hrewriting : ∀ inode lock, (host.proc pid).stage ≠ .rewriting inode lock)

include h hrewriting

theorem goesOn_next {stage : Stage}
    (hstage : StageInv owners host.disk pid { host.proc pid with stage }) :
    GoesOn owners host pid host.disk ((host.proc pid).goOn (.stage stage)) :=
  goesOn_stage h hrewriting (host.proc pid).error hstage

theorem goesOn_threw (message : String) :
    GoesOn owners host pid host.disk ((host.proc pid).goOn (.threw message)) :=
  goesOn_stage h hrewriting (some message) trivial

theorem goesOn_returned :
    GoesOn owners host pid host.disk ((host.proc pid).goOn .returned) :=
  goesOn_stage h hrewriting none trivial

end Stay

/-! ## Acquiring -/

section

variable (h : Inv owners host)
include h

theorem goes_acquireReading (hstage : (host.proc pid).stage = .acquireReading request) :
    Goes owners host pid (.acquireReading request) := by
  have hrewriting : ∀ inode lock, (host.proc pid).stage ≠ .rewriting inode lock := by simp [hstage]
  unfold Goes operate
  cases hread : host.disk.readPidLock with
  | none => exact goesOn_next h hrewriting trivial
  | some found =>
    obtain ⟨hpath, hcontent, hwritten, howner⟩ := h.disk.of_readPidLock hread
    apply goesOn_next h hrewriting
    refine ⟨hwritten, howner, fun _ => ?_⟩
    rw [hcontent]
    exact Option.some_ne_none _

theorem goes_judging (hstage : (host.proc pid).stage = .judging request inode lock) :
    Goes owners host pid (.judging request inode lock) := by
  have hrewriting : ∀ inode lock, (host.proc pid).stage ≠ .rewriting inode lock := by simp [hstage]
  obtain ⟨hwritten, howner, hcontent⟩ := h.at_stage hstage
  simp only [Goes, operate]
  by_cases hself : lock.pid = pid ∧ host.isPidRunning lock.pid = true
  · rw [if_pos hself]
    apply goesOn_next h hrewriting
    exact ⟨hwritten, howner.trans hself.1, hcontent hself.1⟩
  · rw [if_neg hself]
    by_cases hrunning : host.isPidRunning lock.pid = true
    · rw [if_pos hrunning]
      by_cases hreclaim : canReclaimLiveLock lock request = true
      · rw [if_pos hreclaim]
        exact goesOn_next h hrewriting ⟨hwritten, howner⟩
      · rw [if_neg hreclaim]
        exact goesOn_threw h hrewriting _
    · rw [if_neg hrunning]
      exact goesOn_next h hrewriting ⟨hwritten, howner⟩

theorem goes_touching (hstage : (host.proc pid).stage = .touching inode)
    (hacts : host.ActsOnRead (.touching inode)) : Goes owners host pid (.touching inode) := by
  have hrewriting : ∀ inode lock, (host.proc pid).stage ≠ .rewriting inode lock := by simp [hstage]
  obtain ⟨hwritten, howner, hcontent⟩ := h.at_stage hstage
  unfold Goes operate
  cases hpath : host.disk.path with
  | none => exact goesOn_threw h hrewriting _
  | some current =>
    have hsame : current = inode := hacts current hpath
    rw [hsame] at hpath ⊢
    have hlt := h.disk.written_lt inode hwritten
    have hfile : (host.disk.touch inode).files inode =
        { host.disk.files inode with fresh := true } := Function.update_self ..
    refine ⟨owners.wrote inode, h.disk.setFile hlt ?_, ⟨trivial, ?_⟩, ?_⟩
    · intro lock hlock
      exact (h.disk.named inode lock hlock hlt).2
    · intro _ _
      refine ⟨inode, hpath, howner, Or.inl hwritten, ?_, Or.inl ?_⟩
      · show ((host.disk.touch inode).files inode).fresh = true
        rw [hfile]
      · show ((host.disk.touch inode).files inode).content ≠ none
        rw [hfile]
        exact hcontent
    · intro other hother
      exact keeps_setFile howner hother _

theorem goes_checkingFresh (hstage : (host.proc pid).stage = .checkingFresh request inode lock) :
    Goes owners host pid (.checkingFresh request inode lock) := by
  have hrewriting : ∀ inode lock, (host.proc pid).stage ≠ .rewriting inode lock := by simp [hstage]
  simp only [Goes, operate]
  by_cases hfresh : host.disk.isPidLockFresh = true
  · rw [if_pos hfresh]
    exact goesOn_threw h hrewriting _
  · rw [if_neg hfresh]
    have hread : owners.written inode ∧ owners.owner inode = lock.pid := h.at_stage hstage
    exact goesOn_next h hrewriting hread

theorem goes_confirming (hstage : (host.proc pid).stage = .confirming request inode lock) :
    Goes owners host pid (.confirming request inode lock) := by
  have hrewriting : ∀ inode lock, (host.proc pid).stage ≠ .rewriting inode lock := by simp [hstage]
  simp only [Goes, operate]
  cases hread : host.disk.readPidLock with
  | none => exact goesOn_threw h hrewriting _
  | some found =>
    obtain ⟨-, -, hwritten, howner⟩ := h.disk.of_readPidLock hread
    dsimp only
    by_cases hsame : isSamePidLock lock found.2 = true
    · rw [if_pos hsame]
      exact goesOn_next h hrewriting ⟨hwritten, howner⟩
    · rw [if_neg hsame]
      exact goesOn_threw h hrewriting _

theorem goes_recheckingFresh (hstage : (host.proc pid).stage = .recheckingFresh request inode lock) :
    Goes owners host pid (.recheckingFresh request inode lock) := by
  have hrewriting : ∀ inode lock, (host.proc pid).stage ≠ .rewriting inode lock := by simp [hstage]
  simp only [Goes, operate]
  by_cases hfresh : host.disk.isPidLockFresh = true
  · rw [if_pos hfresh]
    exact goesOn_threw h hrewriting _
  · rw [if_neg hfresh]
    have hread : owners.written inode ∧ owners.owner inode = lock.pid := h.at_stage hstage
    exact goesOn_next h hrewriting hread

/-- Nobody claims a lock that was rightly judged abandoned. -/
theorem not_claims_of_clearing (hstage : (host.proc pid).stage = .clearing request inode lock)
    (hacts : host.ActsOnRead (.clearing request inode lock)) (other : ℕ) :
    ¬ Claims (host.proc other) := by
  intro hclaims
  obtain ⟨hwritten, howner⟩ := h.at_stage hstage
  obtain ⟨current, hpath, hcurrent, hgrip⟩ := (h.procs other).path_of_claims hclaims
  obtain ⟨rfl, hstale⟩ := hacts current hpath
  rcases hgrip with hgrip | hnot
  · have hrunning : host.isPidRunning lock.pid = true := by
      rw [← howner, hcurrent]
      exact hclaims.1
    have := hstale hrunning
    rw [hgrip.fresh] at this
    contradiction
  · exact hnot hwritten

omit h in
theorem DiskInv.unlink {disk : Disk} (h : DiskInv owners disk) : DiskInv owners disk.unlink where
  named := h.named
  path_lt _ hpath := by contradiction
  written_lt := h.written_lt

theorem goes_clearing (hstage : (host.proc pid).stage = .clearing request inode lock)
    (hacts : host.ActsOnRead (.clearing request inode lock)) :
    Goes owners host pid (.clearing request inode lock) := by
  have hnot := not_claims_of_clearing h hstage hacts
  refine ⟨owners, h.disk.unlink, ⟨trivial, ?_⟩, fun other _ => keeps_unlink (hnot other)⟩
  intro halive hholding
  exact absurd ⟨halive, Or.inl hholding⟩ (hnot pid)

omit h in
theorem DiskInv.create {disk : Disk} (h : DiskInv owners disk) (creator : ℕ) :
    DiskInv (owners.create disk.nextInode creator) disk.create where
  named other lock hcontent hlt := by
    have hne : other ≠ disk.nextInode := by
      rintro rfl
      rw [show (disk.create.files disk.nextInode) = ⟨none, true⟩ from Function.update_self ..]
        at hcontent
      contradiction
    rw [show disk.create.files other = disk.files other from Function.update_of_ne hne ..]
      at hcontent
    have hold : other < disk.nextInode := by
      have : other < disk.nextInode + 1 := hlt
      omega
    have hnamed := h.named other lock hcontent hold
    exact ⟨hnamed.1, (Function.update_of_ne hne ..).trans hnamed.2⟩
  path_lt other hpath := by
    have : disk.nextInode = other := Option.some.inj hpath
    show other < disk.nextInode + 1
    omega
  written_lt other hwritten := (h.written_lt other hwritten).trans (Nat.lt_succ_self _)

theorem goes_creating (hstage : (host.proc pid).stage = .creating request) :
    Goes owners host pid (.creating request) := by
  have hrewriting : ∀ inode lock, (host.proc pid).stage ≠ .rewriting inode lock := by simp [hstage]
  unfold Goes operate
  cases hpath : host.disk.path with
  | some current => exact goesOn_next h hrewriting trivial
  | none =>
    have hnot : ∀ other, ¬ Claims (host.proc other) := by
      intro other hclaims
      obtain ⟨current, hcurrent, -⟩ := (h.procs other).path_of_claims hclaims
      rw [hpath] at hcurrent
      contradiction
    refine ⟨owners.create host.disk.nextInode pid, h.disk.create pid, ⟨?_, ?_⟩, ?_⟩
    · refine ⟨?_, Nat.lt_succ_self _, Function.update_self .., fun _ => rfl⟩
      intro hwritten
      exact absurd (h.disk.written_lt _ hwritten) (lt_irrefl _)
    · intro halive hholding
      exact absurd ⟨halive, Or.inl hholding⟩ (hnot pid)
    · intro other _
      exact keeps_create (hnot other) h.disk

theorem goes_raceReading (hstage : (host.proc pid).stage = .raceReading) :
    Goes owners host pid .raceReading := by
  have hrewriting : ∀ inode lock, (host.proc pid).stage ≠ .rewriting inode lock := by simp [hstage]
  unfold Goes operate
  cases host.disk.readPidLock with
  | none => exact goesOn_threw h hrewriting _
  | some found => exact goesOn_threw h hrewriting _

theorem goes_writing (hstage : (host.proc pid).stage = .writing request inode) :
    Goes owners host pid (.writing request inode) := by
  obtain ⟨-, hlt, howner, hpath⟩ := h.at_stage hstage
  have hfile : (host.disk.write inode (some (request.lockInfo pid))).files inode =
      ⟨some (request.lockInfo pid), true⟩ := Function.update_self ..
  apply goesOn_setFile h howner hlt rfl
  · intro lock hlock
    rw [← Option.some.inj hlock]
    rfl
  · intro other lock hrewriting
    rw [hstage] at hrewriting
    contradiction
  · exact Or.inl (Option.some_ne_none _)
  · intro halive
    refine ⟨hpath halive, howner, Or.inr rfl, ?_, Or.inl ?_⟩
    · show ((host.disk.write inode (some (request.lockInfo pid))).files inode).fresh = true
      rw [hfile]
    · show ((host.disk.write inode (some (request.lockInfo pid))).files inode).content ≠ none
      rw [hfile]
      exact Option.some_ne_none _

theorem goes_closing (hstage : (host.proc pid).stage = .closing inode)
    (halive : (host.proc pid).alive = true) :
    Goes owners host pid (.closing inode) := by
  have hgrip := h.at_stage hstage halive
  refine ⟨owners, h.disk, ⟨trivial, fun _ _ => ⟨inode, ?_⟩⟩, fun other _ => Keeps.refl ..⟩
  apply hgrip.restage
  intro lock hlock
  contradiction

/-! ## Refreshing, updating and releasing -/

theorem goes_refreshOpening (hstage : (host.proc pid).stage = .refreshOpening) :
    Goes owners host pid .refreshOpening := by
  have hrewriting : ∀ inode lock, (host.proc pid).stage ≠ .rewriting inode lock := by simp [hstage]
  unfold Goes operate
  cases hpath : host.disk.path with
  | none => exact goesOn_threw h hrewriting _
  | some inode => exact goesOn_next h hrewriting (h.disk.path_lt inode hpath)

theorem goes_updateOpening {listen : String} (hstage : (host.proc pid).stage = .updateOpening listen) :
    Goes owners host pid (.updateOpening listen) := by
  have hrewriting : ∀ inode lock, (host.proc pid).stage ≠ .rewriting inode lock := by simp [hstage]
  unfold Goes operate
  cases hpath : host.disk.path with
  | none => exact goesOn_threw h hrewriting _
  | some inode => exact goesOn_next h hrewriting (h.disk.path_lt inode hpath)

/-- An attempt to read the lock through a handle: it is tried again, given up, or
goes on with the lock that the handle's file names. -/
theorem goesOn_afterAttempt (hrewriting : ∀ inode lock, (host.proc pid).stage ≠ .rewriting inode lock)
    (hlt : inode < host.disk.nextInode) (attempt : ℕ) {retry : ℕ → Stage} {found : PidLockInfo → Next}
    (invalid : String)
    (hretry : ∀ n, StageInv owners host.disk pid { host.proc pid with stage := retry n })
    (hfound : ∀ lock, (host.disk.files inode).content = some lock → owners.written inode →
      owners.owner inode = lock.pid →
      GoesOn owners host pid host.disk ((host.proc pid).goOn (found lock))) :
    GoesOn owners host pid host.disk ((host.proc pid).goOn
      (afterAttempt (host.disk.files inode).content attempt retry found invalid)) := by
  unfold afterAttempt
  cases hcontent : (host.disk.files inode).content with
  | some lock =>
    have hnamed := h.disk.named inode lock hcontent hlt
    exact hfound lock hcontent hnamed.1 hnamed.2
  | none =>
    show GoesOn _ _ _ _ ((host.proc pid).goOn (if _ then _ else _))
    by_cases hattempt : attempt + 1 < PID_LOCK_READ_RETRY_ATTEMPTS
    · rw [if_pos hattempt]
      exact goesOn_next h hrewriting (hretry _)
    · rw [if_neg hattempt]
      exact goesOn_threw h hrewriting _

theorem goes_refreshReading {attempt : ℕ} (hstage : (host.proc pid).stage = .refreshReading inode attempt) :
    Goes owners host pid (.refreshReading inode attempt) := by
  have hrewriting : ∀ inode lock, (host.proc pid).stage ≠ .rewriting inode lock := by simp [hstage]
  have hlt : inode < host.disk.nextInode := h.at_stage hstage
  apply goesOn_afterAttempt h hrewriting hlt
  · exact fun _ => hlt
  · intro lock hcontent hwritten howner
    by_cases hpid : lock.pid ≠ pid
    · rw [if_pos hpid]
      exact goesOn_threw h hrewriting _
    · rw [if_neg hpid]
      apply goesOn_next h hrewriting
      refine ⟨hwritten, howner.trans (not_not.mp hpid), ?_⟩
      show (host.disk.files inode).content ≠ none
      rw [hcontent]
      exact Option.some_ne_none _

theorem goes_refreshTouching (hstage : (host.proc pid).stage = .refreshTouching inode) :
    Goes owners host pid (.refreshTouching inode) := by
  obtain ⟨hwritten, howner, hcontent⟩ := h.at_stage hstage
  have hlt := h.disk.written_lt inode hwritten
  apply goesOn_setFile h howner hlt rfl
  · intro lock hlock
    rw [← (h.disk.named inode lock hlock hlt).2]
    exact howner
  · intro other lock hrewriting
    rw [hstage] at hrewriting
    contradiction
  · exact Or.inl hcontent
  · trivial

theorem goes_updateReading {listen : String} {attempt : ℕ}
    (hstage : (host.proc pid).stage = .updateReading listen inode attempt) :
    Goes owners host pid (.updateReading listen inode attempt) := by
  have hrewriting : ∀ inode lock, (host.proc pid).stage ≠ .rewriting inode lock := by simp [hstage]
  have hlt : inode < host.disk.nextInode := h.at_stage hstage
  apply goesOn_afterAttempt h hrewriting hlt
  · exact fun _ => hlt
  · intro lock _ hwritten howner
    by_cases hpid : lock.pid ≠ pid
    · rw [if_pos hpid]
      exact goesOn_threw h hrewriting _
    · rw [if_neg hpid]
      apply goesOn_next h hrewriting
      exact ⟨hwritten, howner.trans (not_not.mp hpid), not_not.mp hpid⟩

theorem goes_truncating (hstage : (host.proc pid).stage = .truncating inode lock) :
    Goes owners host pid (.truncating inode lock) := by
  obtain ⟨hwritten, howner, hpid⟩ := h.at_stage hstage
  apply goesOn_setFile h howner (h.disk.written_lt inode hwritten) rfl
  · intro other hother
    contradiction
  · intro other found hrewriting
    rw [hstage] at hrewriting
    contradiction
  · exact Or.inr ⟨lock, rfl⟩
  · exact ⟨Or.inl hwritten, howner, hpid⟩

theorem goes_rewriting (hstage : (host.proc pid).stage = .rewriting inode lock) :
    Goes owners host pid (.rewriting inode lock) := by
  obtain ⟨hwritten, howner, hpid⟩ := h.at_stage hstage
  apply goesOn_setFile h howner (h.disk.written_lt inode hwritten) rfl
  · intro other hother
    rw [← Option.some.inj hother]
    exact hpid
  · intro other found hrewriting
    rw [hstage] at hrewriting
    exact (Stage.rewriting.inj hrewriting).1.symm
  · exact Or.inl (Option.some_ne_none _)
  · trivial

theorem goes_releaseReading (hstage : (host.proc pid).stage = .releaseReading) :
    Goes owners host pid .releaseReading := by
  have hrewriting : ∀ inode lock, (host.proc pid).stage ≠ .rewriting inode lock := by simp [hstage]
  have hholding : (host.proc pid).holding = false := h.at_stage hstage
  simp only [Goes, operate]
  cases hread : host.disk.readPidLock with
  | none => exact goesOn_returned h hrewriting
  | some found =>
    obtain ⟨-, -, hwritten, howner⟩ := h.disk.of_readPidLock hread
    dsimp only
    by_cases hpid : found.2.pid = pid
    · rw [if_pos hpid]
      exact goesOn_next h hrewriting ⟨hwritten, howner.trans hpid, hholding⟩
    · rw [if_neg hpid]
      exact goesOn_returned h hrewriting

theorem goes_releasing (hstage : (host.proc pid).stage = .releasing inode)
    (hacts : host.ActsOnRead (.releasing inode)) : Goes owners host pid (.releasing inode) := by
  obtain ⟨hwritten, howner, hholding⟩ := h.at_stage hstage
  refine ⟨owners, h.disk.unlink, ⟨trivial, ?_⟩, ?_⟩
  · intro _ hholds
    rw [show (host.proc pid).holding = true from hholds] at hholding
    contradiction
  · intro other hother
    apply keeps_unlink
    intro hclaims
    obtain ⟨current, hpath, hcurrent, -⟩ := (h.procs other).path_of_claims hclaims
    rw [hacts current hpath] at hcurrent
    exact hother (hcurrent.symm.trans howner)

end

end Orqara.Startup.Host
