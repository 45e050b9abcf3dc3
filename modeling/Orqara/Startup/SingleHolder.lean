import Orqara.Startup.LockOperations

/-!
# One holder of the lock

Over every run of the calls of any number of processes, at most one live process holds
the lock, and two starters that meet at a stale lock show what the runs must keep to.
-/

namespace Orqara.Startup.Host

open Function

variable {owners : Owners} {host : Host} {pid : ℕ} {action : Action} {P : Host → Action → Prop}
  {actions : List Action}

/-! ## Steps and runs -/

section

variable (h : Inv owners host)
include h

theorem inv_advance (halive : (host.proc pid).alive = true)
    (hacts : host.ActsOnRead (host.proc pid).stage) :
    Goes owners host pid (host.proc pid).stage := by
  cases hstage : (host.proc pid).stage with
  | idle => exact goesOn_next h (by simp [hstage]) trivial
  | acquireReading => exact goes_acquireReading h hstage
  | judging => exact goes_judging h hstage
  | touching => exact goes_touching h hstage (hstage ▸ hacts)
  | checkingFresh => exact goes_checkingFresh h hstage
  | confirming => exact goes_confirming h hstage
  | recheckingFresh => exact goes_recheckingFresh h hstage
  | clearing => exact goes_clearing h hstage (hstage ▸ hacts)
  | creating => exact goes_creating h hstage
  | raceReading => exact goes_raceReading h hstage
  | writing => exact goes_writing h hstage
  | closing => exact goes_closing h hstage halive
  | refreshOpening => exact goes_refreshOpening h hstage
  | refreshReading => exact goes_refreshReading h hstage
  | refreshTouching => exact goes_refreshTouching h hstage
  | updateOpening => exact goes_updateOpening h hstage
  | updateReading => exact goes_updateReading h hstage
  | truncating => exact goes_truncating h hstage
  | rewriting => exact goes_rewriting h hstage
  | releaseReading => exact goes_releaseReading h hstage
  | releasing => exact goes_releasing h hstage (hstage ▸ hacts)

/-- Beginning a call; a process that releases holds the lock no more. -/
theorem inv_call (hidle : (host.proc pid).stage = .idle) (call : Call) :
    GoesOn owners host pid host.disk ((host.proc pid).begin call) := by
  have hrewriting : ∀ inode lock, (host.proc pid).stage ≠ .rewriting inode lock := by simp [hidle]
  cases call with
  | acquirePidLock request => exact goesOn_next h hrewriting trivial
  | refreshPidLock => exact goesOn_next h hrewriting trivial
  | updatePidLock listen => exact goesOn_next h hrewriting trivial
  | releasePidLock =>
    exact ⟨owners, h.disk, ⟨rfl, fun _ hholding => nomatch hholding⟩,
      fun other _ => Keeps.refl ..⟩

theorem inv_dies (pid : ℕ) :
    GoesOn owners host pid host.disk { host.proc pid with alive := false } := by
  refine ⟨owners, h.disk, ⟨?_, fun halive => nomatch halive⟩, fun other _ => Keeps.refl ..⟩
  have hstage := (h.procs pid).stage
  unfold StageInv at hstage ⊢
  cases hproc : (host.proc pid).stage with
  | writing =>
    rw [hproc] at hstage
    exact ⟨hstage.1, hstage.2.1, hstage.2.2.1, fun halive => nomatch halive⟩
  | closing => exact fun halive => nomatch halive
  | _ =>
    rw [hproc] at hstage
    exact hstage

/-- A file gets old, when no live holder keeps it fresh. -/
theorem inv_ages {inode : ℕ} (hbeats : host.Heartbeats (.ages inode)) :
    Inv owners (host.step (.ages inode)) := by
  have hcontent : ∀ other, ((host.step (.ages inode)).disk.files other).content =
      (host.disk.files other).content := by
    intro other
    show (Function.update host.disk.files inode _ other).content = _
    by_cases hsame : other = inode
    · rw [hsame, update_self]
    · rw [update_of_ne hsame]
  constructor
  · refine ⟨?_, h.disk.path_lt, h.disk.written_lt⟩
    intro other lock hlock hlt
    rw [hcontent] at hlock
    exact h.disk.named other lock hlock hlt
  · intro pid
    apply (h.procs pid).keep _ h.disk
    refine ⟨fun _ _ => rfl, fun _ hw => hw, fun _ _ _ hw => hw, le_rfl, ?_, fun _ => rfl, ?_⟩
    · intro other _ _ hother
      rwa [hcontent]
    · intro hgrips other hgrip
      have hne : other ≠ inode := by
        rintro rfl
        apply hbeats pid
        refine ⟨hgrips.1, ?_, ?_⟩
        · apply hgrips.2.imp_right
          rintro ⟨current, hclosing⟩
          have hstage := h.at_stage hclosing hgrips.1
          have hpath := hgrip.path
          rw [hstage.path] at hpath
          rw [hclosing, Option.some.inj hpath]
        · refine hgrip.full.imp_left fun hsome => ?_
          obtain ⟨lock, hlock⟩ := Option.ne_none_iff_exists'.mp hsome
          have hnamed := h.disk.named other lock hlock (h.disk.path_lt other hgrip.path)
          exact ⟨lock, hlock, hnamed.2.symm.trans hgrip.owner⟩
      show (Function.update host.disk.files inode _ other).fresh = true
      rw [update_of_ne hne]
      exact hgrip.fresh

theorem inv_step (hbeats : host.Heartbeats action) (hundisturbed : host.Undisturbed action) :
    ∃ owners', Inv owners' (host.step action) := by
  cases action with
  | call pid call =>
    simp only [step]
    by_cases hready : (host.proc pid).alive = true ∧ (host.proc pid).stage = .idle
    · rw [if_pos hready]
      exact h.setProc (inv_call h hready.2 call)
    · rw [if_neg hready]
      exact ⟨owners, h⟩
  | advance pid =>
    simp only [step]
    by_cases hready : (host.proc pid).alive = true ∧ (host.proc pid).stage ≠ .idle
    · rw [if_pos hready]
      exact h.setProc (inv_advance h hready.1 hundisturbed)
    · rw [if_neg hready]
      exact ⟨owners, h⟩
  | dies pid => exact h.setProc (inv_dies h pid)
  | ages inode => exact ⟨owners, inv_ages h hbeats⟩

end

theorem Along.cons (h : Along P host (action :: actions)) :
    P host action ∧ Along P (host.step action) actions := by
  refine ⟨h [] action actions rfl, ?_⟩
  intro before action' after heq
  exact h (action :: before) action' after (by rw [heq]; rfl)

theorem Along.of_cons (hfirst : P host action) (hrest : Along P (host.step action) actions) :
    Along P host (action :: actions) := by
  intro before action' after heq
  cases before with
  | nil =>
    rw [← (List.cons.inj heq).1]
    exact hfirst
  | cons first before =>
    obtain ⟨rfl, htail⟩ := List.cons.inj heq
    exact hrest before action' after htail

theorem Along.nil (P : Host → Action → Prop) (host : Host) : Along P host [] := by
  intro before action after heq
  have := congrArg List.length heq
  simp at this

theorem Along.take {reached : List Action} (h : Along P host actions) (hreached : reached <+: actions) :
    Along P host reached := by
  obtain ⟨rest, rfl⟩ := hreached
  intro before action after heq
  apply h before action (after ++ rest)
  rw [heq, List.append_assoc, List.cons_append]

theorem inv_run : ∀ {owners : Owners} {host : Host}, Inv owners host →
    Along Heartbeats host actions → Along Undisturbed host actions →
      ∃ owners', Inv owners' (host.run actions) := by
  induction actions with
  | nil => exact fun h _ _ => ⟨_, h⟩
  | cons action actions ih =>
    intro owners host h hbeats hundisturbed
    obtain ⟨hbeat, hbeats'⟩ := hbeats.cons
    obtain ⟨hacts, hundisturbed'⟩ := hundisturbed.cons
    obtain ⟨owners', h'⟩ := inv_step h hbeat hacts
    exact ih h' hbeats' hundisturbed'

/-- Before the first call every file belongs to the process it names. -/
theorem AtStart.inv (h : host.AtStart) :
    ∃ owners, Inv owners host := by
  refine ⟨⟨fun inode => ((host.disk.files inode).content.map (·.pid)).getD 0,
    fun inode => inode < host.disk.nextInode⟩, ⟨?_, h.path_lt, fun _ hlt => hlt⟩, ?_⟩
  · intro inode lock hcontent hlt
    refine ⟨hlt, ?_⟩
    show ((host.disk.files inode).content.map (·.pid)).getD 0 = lock.pid
    rw [hcontent]
    rfl
  · intro pid
    constructor
    · unfold StageInv
      rw [h.idle pid]
      trivial
    · intro _ hholding
      rw [h.free pid] at hholding
      contradiction

/-- A process in the middle of writing its lock file anew. -/
def Rewrites (host : Host) (pid : ℕ) : Prop :=
  ∃ inode lock, host.disk.path = some inode ∧ (host.proc pid).stage = .rewriting inode lock

theorem Inv.one (h : Inv owners host) {pid' : ℕ} (hpid : host.Holds pid)
    (hpid' : host.Holds pid') : pid = pid' := by
  obtain ⟨inode, hgrip⟩ := (h.procs pid).holder hpid.1 hpid.2
  obtain ⟨inode', hgrip'⟩ := (h.procs pid').holder hpid'.1 hpid'.2
  have hsame : inode = inode' := Option.some.inj (hgrip.path.symm.trans hgrip'.path)
  rw [← hgrip.owner, hsame]
  exact hgrip'.owner

theorem Inv.named (h : Inv owners host) (hpid : host.Holds pid) :
    host.FileNames pid ∨ host.Rewrites pid := by
  obtain ⟨inode, hgrip⟩ := (h.procs pid).holder hpid.1 hpid.2
  rcases hgrip.full with hsome | ⟨lock, hlock⟩
  · left
    obtain ⟨lock, hcontent⟩ := Option.ne_none_iff_exists'.mp hsome
    have hnamed := h.disk.named inode lock hcontent (h.disk.path_lt inode hgrip.path)
    refine ⟨inode, lock, ?_, hnamed.2.symm.trans hgrip.owner⟩
    unfold Disk.readPidLock
    rw [hgrip.path, Option.bind_some, hcontent, Option.map_some]
  · exact Or.inr ⟨inode, lock, hgrip.path, hlock⟩

/-- Only a truncation is followed by rewriting the lock. -/
theorem truncating_of_operate {disk : Disk} {running : ℕ → Bool} {stage : Stage} {inode : ℕ}
    {lock : PidLockInfo}
    (h : (operate disk running pid stage).2 = .stage (.rewriting inode lock)) :
    stage = .truncating inode lock := by
  cases stage with
  | truncating other updatedLock =>
    injection h with h
    injection h with hinode hlock
    rw [hinode, hlock]
  | _ =>
    simp only [operate, afterAttempt] at h
    repeat' split at h
    all_goals simp at h

theorem rewriting_of_step {inode : ℕ} {lock : PidLockInfo}
    (h : ((host.step action).proc pid).stage = .rewriting inode lock) :
    (host.proc pid).stage = .rewriting inode lock ∨ host.Truncates action := by
  cases action with
  | call caller call =>
    simp only [step] at h
    by_cases hready : (host.proc caller).alive = true ∧ (host.proc caller).stage = .idle
    · rw [if_pos hready] at h
      by_cases hpid : pid = caller
      · rw [hpid, show (host.setProc caller _).proc caller = _ from update_self ..] at h
        cases call <;> contradiction
      · rw [show (host.setProc caller _).proc pid = _ from update_of_ne hpid ..] at h
        exact Or.inl h
    · rw [if_neg hready] at h
      exact Or.inl h
  | advance caller =>
    simp only [step] at h
    by_cases hready : (host.proc caller).alive = true ∧ (host.proc caller).stage ≠ .idle
    · rw [if_pos hready] at h
      by_cases hpid : pid = caller
      · right
        rw [hpid, show (setProc _ caller _).proc caller = _ from update_self ..] at h
        have hnext : (operate host.disk host.isPidRunning caller (host.proc caller).stage).2 =
            .stage (.rewriting inode lock) := by
          cases hout : (operate host.disk host.isPidRunning caller (host.proc caller).stage).2 with
          | stage stage =>
            rw [hout] at h
            rw [show stage = _ from h]
          | returned | acquired | threw =>
            rw [hout] at h
            contradiction
        exact ⟨inode, lock, truncating_of_operate hnext⟩
      · rw [show (setProc _ caller _).proc pid = _ from update_of_ne hpid ..] at h
        exact Or.inl h
    · rw [if_neg hready] at h
      exact Or.inl h
  | dies caller =>
    left
    by_cases hpid : pid = caller
    · rw [hpid] at h ⊢
      rwa [show (host.step (.dies caller)).proc caller = _ from update_self ..] at h
    · rwa [show (host.step (.dies caller)).proc pid = _ from update_of_ne hpid ..] at h
  | ages => exact Or.inl h

theorem rewriting_of_run : ∀ {host : Host},
    Along (fun host action => ¬ host.Truncates action) host actions →
      ∀ {inode : ℕ} {lock : PidLockInfo}, ((host.run actions).proc pid).stage = .rewriting inode lock →
        (host.proc pid).stage = .rewriting inode lock := by
  induction actions with
  | nil => exact fun _ _ _ h => h
  | cons action actions ih =>
    intro host hwhole inode lock h
    obtain ⟨hnot, hwhole'⟩ := hwhole.cons
    exact (rewriting_of_step (ih hwhole' h)).resolve_right hnot

/-- In every run whose touches and unlinks act on the file that was read, at most one
live process holds the lock, and the file names it except while it rewrites its own
lock; without a truncation the file names it at every point. -/
theorem pidLock_exclusive (host : Host) (actions : List Action) (hstart : host.AtStart)
    (hbeats : Along Heartbeats host actions) (hundisturbed : Along Undisturbed host actions) :
    (∀ reached, reached <+: actions → ∀ pid, (host.run reached).Holds pid →
        (∀ pid', (host.run reached).Holds pid' → pid = pid') ∧
          ((host.run reached).FileNames pid ∨ (host.run reached).Rewrites pid)) ∧
      (Along (fun host action => ¬ host.Truncates action) host actions →
        ∀ reached, reached <+: actions → (host.run reached).Exclusive) := by
  obtain ⟨owners, hinv⟩ := hstart.inv
  have hreach : ∀ reached, reached <+: actions →
      ∃ owners', Inv owners' (host.run reached) := fun reached hreached =>
    inv_run hinv (hbeats.take hreached) (hundisturbed.take hreached)
  refine ⟨?_, ?_⟩
  · intro reached hreached pid hpid
    obtain ⟨owners', h⟩ := hreach reached hreached
    exact ⟨fun pid' hpid' => h.one hpid hpid', h.named hpid⟩
  · intro hwhole reached hreached
    obtain ⟨owners', h⟩ := hreach reached hreached
    refine ⟨fun pid pid' hpid hpid' => h.one hpid hpid', ?_⟩
    intro pid hpid
    apply (h.named hpid).resolve_right
    rintro ⟨inode, lock, -, hstage⟩
    have := rewriting_of_run (hwhole.take hreached) hstage
    rw [hstart.idle pid] at this
    contradiction

/-! ## Two starters -/

/-- A lock file that names process 9, which is not running, beside processes 1 and 2. -/
def staleLock : Host where
  disk := ⟨some 0, fun _ => ⟨some ⟨9, "t0", "host", 0, none, none, some true⟩, false⟩, 1⟩
  proc pid := ⟨decide (pid = 1 ∨ pid = 2), false, .idle, none⟩

def acquire (startedAt : String) : Call :=
  .acquirePidLock ⟨none, false, startedAt, "host", 0, false⟩

theorem atStart_staleLock : staleLock.AtStart where
  idle _ := rfl
  free _ := rfl
  path_lt inode h := by
    rw [← Option.some.inj h]
    exact Nat.zero_lt_one

/-- One process takes the stale lock over. -/
def takeover : List Action :=
  [.call 1 (acquire "t1"), .advance 1, .advance 1, .advance 1, .advance 1, .advance 1, .advance 1]

theorem pidLock_exclusive_takeover :
    (staleLock.run takeover).Holds 1 ∧ (staleLock.run takeover).Exclusive := by
  refine ⟨by unfold Holds; decide, ?_⟩
  apply (pidLock_exclusive staleLock takeover atStart_staleLock ?_ ?_).2 ?_ takeover
    List.prefix_rfl
  · refine .of_cons trivial (.of_cons trivial (.of_cons trivial (.of_cons trivial
      (.of_cons trivial (.of_cons trivial (.of_cons trivial (.nil _ _)))))))
  · refine .of_cons trivial (.of_cons trivial (.of_cons trivial (.of_cons ?_
      (.of_cons trivial (.of_cons trivial (.of_cons trivial (.nil _ _)))))))
    -- the one unlink of the run
    intro current hcurrent
    rw [← Option.some.inj hcurrent]
    exact ⟨rfl, fun hrunning => absurd hrunning (by decide)⟩
  · refine .of_cons ?_ (.of_cons ?_ (.of_cons ?_ (.of_cons ?_ (.of_cons ?_ (.of_cons ?_
      (.of_cons ?_ (.nil _ _)))))))
    · exact fun h => h
    all_goals
      rintro ⟨inode, lock, hstage⟩
      contradiction

/-- Two starters that have both read the stale lock: the second one unlinks the lock
that the first one has just written, and both hold it. -/
theorem bothStarters_hold :
    let actions : List Action :=
      [.call 1 (acquire "t1"), .call 2 (acquire "t2"), .advance 1, .advance 2, .advance 1,
        .advance 2, .advance 1, .advance 1, .advance 1, .advance 1, .advance 2, .advance 2,
        .advance 2, .advance 2]
    Along Heartbeats staleLock actions ∧ (staleLock.run actions).Holds 1 ∧
      (staleLock.run actions).Holds 2 ∧ ¬ (staleLock.run actions).Exclusive := by
  intro actions
  have hfirst : (staleLock.run actions).Holds 1 := by unfold Holds; decide
  have hsecond : (staleLock.run actions).Holds 2 := by unfold Holds; decide
  refine ⟨?_, hfirst, hsecond, fun h => absurd (h.one 1 2 hfirst hsecond) (by decide)⟩
  refine .of_cons trivial (.of_cons trivial (.of_cons trivial (.of_cons trivial (.of_cons trivial
    (.of_cons trivial (.of_cons trivial (.of_cons trivial (.of_cons trivial (.of_cons trivial
      (.of_cons trivial (.of_cons trivial (.of_cons trivial (.of_cons trivial (.nil _ _))))))))))))))

end Orqara.Startup.Host
