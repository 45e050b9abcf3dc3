import Orqara.Startup.PidLock

/-!
# Who owns the lock file

Every file that has held a lock belongs to the process that created it. A process that
holds the lock owns the file at the path, as long as a call that touches or unlinks the
path finds there the file it has read.
-/

namespace Orqara.Startup.Host

open Function

/-! ## Runs -/

/-- The live holder's file, which its heartbeat keeps fresh. -/
def KeepsFresh (host : Host) (pid inode : ℕ) : Prop :=
  (host.proc pid).alive = true ∧
    ((host.proc pid).holding = true ∨ (host.proc pid).stage = .closing inode) ∧
    ((∃ lock, (host.disk.files inode).content = some lock ∧ lock.pid = pid) ∨
      ∃ lock, (host.proc pid).stage = .rewriting inode lock)

/-- No live holder misses its heartbeat for long. -/
def Heartbeats (host : Host) : Action → Prop
  | .ages inode => ∀ pid, ¬ host.KeepsFresh pid inode
  | _ => True

/-- The operation acts on the file its call has read, if there is a file at all, and a
lock that was judged abandoned while its process runs has not been refreshed since. -/
def ActsOnRead (host : Host) : Stage → Prop
  | .touching inode => ∀ current, host.disk.path = some current → current = inode
  | .clearing _ inode existingLock => ∀ current, host.disk.path = some current →
      current = inode ∧ (host.isPidRunning existingLock.pid = true →
        (host.disk.files inode).fresh = false)
  | .releasing inode => ∀ current, host.disk.path = some current → current = inode
  | _ => True

def Undisturbed (host : Host) : Action → Prop
  | .advance pid => host.ActsOnRead (host.proc pid).stage
  | _ => True

/-- The step empties a lock file in order to write it anew. -/
def Truncates (host : Host) : Action → Prop
  | .advance pid => ∃ inode lock, (host.proc pid).stage = .truncating inode lock
  | _ => False

/-- What holds of every step of a run. -/
def Along (P : Host → Action → Prop) (host : Host) (actions : List Action) : Prop :=
  ∀ before action after, actions = before ++ action :: after → P (host.run before) action

/-- Before the first call: whatever the path holds, nobody has acquired it. -/
structure AtStart (host : Host) : Prop where
  idle : ∀ pid, (host.proc pid).stage = .idle
  free : ∀ pid, (host.proc pid).holding = false
  path_lt : ∀ inode, host.disk.path = some inode → inode < host.disk.nextInode

/-! ## The invariant -/

/-- Who created each file, and which files have held a lock. -/
structure Owners where
  owner : ℕ → ℕ
  written : ℕ → Prop

/-- The process owns the file at the path, with its lock in it. -/
structure Grip (owners : Owners) (disk : Disk) (pid : ℕ) (stage : Stage) (inode : ℕ) : Prop where
  path : disk.path = some inode
  owner : owners.owner inode = pid
  written : owners.written inode
  fresh : (disk.files inode).fresh = true
  full : (disk.files inode).content ≠ none ∨ ∃ lock, stage = .rewriting inode lock

/-- What a process knows at each stage of a call. -/
def StageInv (owners : Owners) (disk : Disk) (pid : ℕ) (proc : Proc) : Prop :=
  match proc.stage with
  | .judging _ inode lock =>
    owners.written inode ∧ owners.owner inode = lock.pid ∧
      (lock.pid = pid → (disk.files inode).content ≠ none)
  | .checkingFresh _ inode lock | .confirming _ inode lock | .recheckingFresh _ inode lock
  | .clearing _ inode lock => owners.written inode ∧ owners.owner inode = lock.pid
  | .touching inode | .refreshTouching inode =>
    owners.written inode ∧ owners.owner inode = pid ∧ (disk.files inode).content ≠ none
  | .writing _ inode =>
    ¬ owners.written inode ∧ inode < disk.nextInode ∧ owners.owner inode = pid ∧
      (proc.alive = true → disk.path = some inode)
  | .closing inode => proc.alive = true → Grip owners disk pid proc.stage inode
  | .refreshReading inode _ | .updateReading _ inode _ => inode < disk.nextInode
  | .truncating inode lock | .rewriting inode lock =>
    owners.written inode ∧ owners.owner inode = pid ∧ lock.pid = pid
  | .releaseReading => proc.holding = false
  | .releasing inode =>
    owners.written inode ∧ owners.owner inode = pid ∧ proc.holding = false
  | _ => True

structure ProcInv (owners : Owners) (disk : Disk) (pid : ℕ) (proc : Proc) : Prop where
  stage : StageInv owners disk pid proc
  holder : proc.alive = true → proc.holding = true →
    ∃ inode, Grip owners disk pid proc.stage inode

structure DiskInv (owners : Owners) (disk : Disk) : Prop where
  named : ∀ inode lock, (disk.files inode).content = some lock →
    inode < disk.nextInode → owners.written inode ∧ owners.owner inode = lock.pid
  path_lt : ∀ inode, disk.path = some inode → inode < disk.nextInode
  written_lt : ∀ inode, owners.written inode → inode < disk.nextInode

structure Inv (owners : Owners) (host : Host) : Prop where
  disk : DiskInv owners host.disk
  procs : ∀ pid, ProcInv owners host.disk pid (host.proc pid)

/-! ## What a change of the disk leaves to the other processes -/

/-- A process that has created the file at the path, or holds the lock. -/
def Claims (proc : Proc) : Prop :=
  proc.alive = true ∧ (proc.holding = true ∨ (∃ inode, proc.stage = .closing inode) ∨
    ∃ request inode, proc.stage = .writing request inode)

/-- A process whose lock is in the file. -/
def Grips (proc : Proc) : Prop :=
  proc.alive = true ∧ (proc.holding = true ∨ ∃ inode, proc.stage = .closing inode)

theorem Grips.claims {proc : Proc} (h : Grips proc) : Claims proc :=
  ⟨h.1, h.2.elim Or.inl fun hclosing => Or.inr (Or.inl hclosing)⟩

/-- The change from one disk to another, as far as a process depends on it. -/
structure Keeps (owners owners' : Owners) (disk disk' : Disk) (pid : ℕ) (proc : Proc) : Prop where
  owner : ∀ inode, inode < disk.nextInode → owners'.owner inode = owners.owner inode
  written : ∀ inode, owners.written inode → owners'.written inode
  unwritten : ∀ inode, inode < disk.nextInode → owners.owner inode = pid →
    ¬ owners.written inode → ¬ owners'.written inode
  next_le : disk.nextInode ≤ disk'.nextInode
  content : ∀ inode, owners.written inode → owners.owner inode = pid →
    (disk.files inode).content ≠ none → (disk'.files inode).content ≠ none
  path : Claims proc → disk'.path = disk.path
  fresh : Grips proc → ∀ inode, Grip owners disk pid proc.stage inode →
    (disk'.files inode).fresh = true

variable {owners owners' : Owners} {disk disk' : Disk} {pid : ℕ} {proc : Proc} {inode : ℕ} {host : Host}
  {stage : Stage}

theorem Grip.keep (h : Grip owners disk pid proc.stage inode) (hgrips : Grips proc)
    (hkeeps : Keeps owners owners' disk disk' pid proc) (hdisk : DiskInv owners disk) :
    Grip owners' disk' pid proc.stage inode where
  path := (hkeeps.path hgrips.claims).trans h.path
  owner := (hkeeps.owner inode (hdisk.path_lt inode h.path)).trans h.owner
  written := hkeeps.written inode h.written
  fresh := hkeeps.fresh hgrips inode h
  full := h.full.imp_left (hkeeps.content inode h.written h.owner)

theorem ProcInv.keep (h : ProcInv owners disk pid proc)
    (hkeeps : Keeps owners owners' disk disk' pid proc) (hdisk : DiskInv owners disk) :
    ProcInv owners' disk' pid proc := by
  have hread : ∀ {inode other : ℕ}, owners.written inode ∧ owners.owner inode = other →
      owners'.written inode ∧ owners'.owner inode = other := by
    intro inode other hown
    refine ⟨hkeeps.written inode hown.1, ?_⟩
    rw [hkeeps.owner inode (hdisk.written_lt inode hown.1)]
    exact hown.2
  constructor
  · have hstage := h.stage
    unfold StageInv at hstage ⊢
    cases hproc : proc.stage with
    | judging request inode lock =>
      rw [hproc] at hstage
      obtain ⟨hwritten, howner, hcontent⟩ := hstage
      have hown := hread ⟨hwritten, howner⟩
      exact ⟨hown.1, hown.2, fun hpid =>
        hkeeps.content inode hwritten (howner.trans hpid) (hcontent hpid)⟩
    | checkingFresh | confirming | recheckingFresh | clearing =>
      rw [hproc] at hstage
      exact hread hstage
    | touching inode | refreshTouching inode =>
      rw [hproc] at hstage
      obtain ⟨hwritten, howner, hcontent⟩ := hstage
      have hown := hread ⟨hwritten, howner⟩
      exact ⟨hown.1, hown.2, hkeeps.content inode hwritten howner hcontent⟩
    | writing request inode =>
      rw [hproc] at hstage
      obtain ⟨hwritten, hlt, howner, hpath⟩ := hstage
      refine ⟨hkeeps.unwritten inode hlt howner hwritten, hlt.trans_le hkeeps.next_le,
        (hkeeps.owner inode hlt).trans howner, ?_⟩
      intro halive
      rw [hkeeps.path ⟨halive, Or.inr (Or.inr ⟨request, inode, hproc⟩)⟩]
      exact hpath halive
    | closing inode =>
      rw [hproc] at hstage
      intro halive
      have hgrip := hstage halive
      rw [← hproc] at hgrip ⊢
      exact hgrip.keep ⟨halive, Or.inr ⟨inode, hproc⟩⟩ hkeeps hdisk
    | truncating inode lock | rewriting inode lock | releasing inode =>
      rw [hproc] at hstage
      have hown := hread ⟨hstage.1, hstage.2.1⟩
      exact ⟨hown.1, hown.2, hstage.2.2⟩
    | releaseReading =>
      rw [hproc] at hstage
      exact hstage
    | refreshReading | updateReading =>
      rw [hproc] at hstage
      exact hstage.trans_le hkeeps.next_le
    | idle | acquireReading | creating | raceReading | refreshOpening | updateOpening => trivial
  · intro halive hholding
    obtain ⟨inode, hgrip⟩ := h.holder halive hholding
    exact ⟨inode, hgrip.keep ⟨halive, Or.inl hholding⟩ hkeeps hdisk⟩

/-- Whoever claims the lock owns the file at the path. -/
theorem ProcInv.path_of_claims (h : ProcInv owners disk pid proc) (hclaims : Claims proc) :
    ∃ inode, disk.path = some inode ∧ owners.owner inode = pid ∧
      (Grip owners disk pid proc.stage inode ∨ ¬ owners.written inode) := by
  obtain ⟨halive, hholding | ⟨inode, hclosing⟩ | ⟨request, inode, hwriting⟩⟩ := hclaims
  · obtain ⟨inode, hgrip⟩ := h.holder halive hholding
    exact ⟨inode, hgrip.path, hgrip.owner, Or.inl hgrip⟩
  · have hstage := h.stage
    unfold StageInv at hstage
    rw [hclosing] at hstage
    have hgrip := hstage halive
    exact ⟨inode, hgrip.path, hgrip.owner, Or.inl (hclosing ▸ hgrip)⟩
  · have hstage := h.stage
    unfold StageInv at hstage
    rw [hwriting] at hstage
    exact ⟨inode, hstage.2.2.2 halive, hstage.2.2.1, Or.inr hstage.1⟩

theorem Keeps.refl (owners : Owners) (disk : Disk) (pid : ℕ) (proc : Proc) :
    Keeps owners owners disk disk pid proc where
  owner _ _ := rfl
  written _ h := h
  unwritten _ _ _ h := h
  next_le := le_rfl
  content _ _ _ h := h
  path _ := rfl
  fresh _ _ h := h.fresh

def Owners.wrote (owners : Owners) (inode : ℕ) : Owners :=
  { owners with written := fun other => owners.written other ∨ other = inode }

/-- A process that writes to its own file leaves the others theirs. -/
theorem keeps_setFile {writer : ℕ} (howner : owners.owner inode = writer) (hne : pid ≠ writer)
    (file : LockFile) :
    Keeps owners (owners.wrote inode) disk (disk.setFile inode file) pid proc where
  owner _ _ := rfl
  written _ h := Or.inl h
  unwritten other _ hother h := by
    rintro (hwritten | rfl)
    · exact h hwritten
    · exact hne (hother.symm.trans howner)
  next_le := le_rfl
  content other _ hother h := by
    have : other ≠ inode := by
      rintro rfl
      exact hne (hother.symm.trans howner)
    show (Function.update disk.files inode file other).content ≠ none
    rwa [update_of_ne this]
  path _ := rfl
  fresh _ other hgrip := by
    have : other ≠ inode := by
      rintro rfl
      exact hne (hgrip.owner.symm.trans howner)
    show (Function.update disk.files inode file other).fresh = true
    rw [update_of_ne this]
    exact hgrip.fresh

/-- Removing the file harms nobody who does not claim it. -/
theorem keeps_unlink (hclaims : ¬ Claims proc) :
    Keeps owners owners disk disk.unlink pid proc where
  owner _ _ := rfl
  written _ h := h
  unwritten _ _ _ h := h
  next_le := le_rfl
  content _ _ _ h := h
  path h := absurd h hclaims
  fresh _ _ h := h.fresh

def Owners.create (owners : Owners) (inode pid : ℕ) : Owners :=
  { owners with owner := Function.update owners.owner inode pid }

theorem keeps_create {creator : ℕ} (hclaims : ¬ Claims proc) (hdisk : DiskInv owners disk) :
    Keeps owners (owners.create disk.nextInode creator) disk disk.create pid proc where
  owner _ hlt := Function.update_of_ne hlt.ne _ _
  written _ h := h
  unwritten _ _ _ h := h
  next_le := Nat.le_succ _
  content other hwritten _ h := by
    show (Function.update disk.files disk.nextInode ⟨none, true⟩ other).content ≠ none
    rwa [update_of_ne (hdisk.written_lt other hwritten).ne]
  path h := absurd h hclaims
  fresh hgrips := absurd hgrips.claims hclaims

/-! ## What an operation leaves -/

/-- The invariant after an operation, in its parts. -/
def GoesOn (owners : Owners) (host : Host) (pid : ℕ) (disk : Disk) (proc : Proc) : Prop :=
  ∃ owners', DiskInv owners' disk ∧ ProcInv owners' disk pid proc ∧
    ∀ other, other ≠ pid → Keeps owners owners' host.disk disk other (host.proc other)

theorem Inv.setProc (h : Inv owners host) (hgoes : GoesOn owners host pid disk proc) :
    ∃ owners', Inv owners' ({ host with disk := disk }.setProc pid proc) := by
  obtain ⟨owners', hdisk, hproc, hothers⟩ := hgoes
  refine ⟨owners', hdisk, ?_⟩
  intro other
  show ProcInv owners' disk other (Function.update host.proc pid proc other)
  by_cases hother : other = pid
  · rw [hother, update_self]
    exact hproc
  · rw [update_of_ne hother]
    exact (h.procs other).keep (hothers other hother) h.disk

theorem DiskInv.setFile (h : DiskInv owners disk) (hlt : inode < disk.nextInode) {file : LockFile}
    (hnamed : ∀ lock, file.content = some lock → owners.owner inode = lock.pid) :
    DiskInv (owners.wrote inode) (disk.setFile inode file) where
  named other lock hcontent hother := by
    by_cases hsame : other = inode
    · subst hsame
      rw [show (disk.setFile other file).files other = file from update_self ..]
        at hcontent
      exact ⟨Or.inr rfl, hnamed lock hcontent⟩
    · rw [show (disk.setFile inode file).files other = disk.files other from
        update_of_ne hsame ..] at hcontent
      exact ⟨Or.inl (h.named other lock hcontent hother).1, (h.named other lock hcontent hother).2⟩
  path_lt := h.path_lt
  written_lt other := by
    rintro (hwritten | rfl)
    · exact h.written_lt other hwritten
    · exact hlt

/-- A grip does not depend on the stage, unless the lock is being rewritten. -/
theorem Grip.restage (h : Grip owners disk pid stage inode)
    (hstage : ∀ lock, stage ≠ .rewriting inode lock) (stage' : Stage) :
    Grip owners disk pid stage' inode :=
  ⟨h.path, h.owner, h.written, h.fresh,
    Or.inl (h.full.resolve_right fun ⟨lock, hlock⟩ => hstage lock hlock)⟩

/-- An operation that leaves the disk as it is. -/
theorem goesOn_stage (h : Inv owners host)
    (hrewriting : ∀ inode lock, (host.proc pid).stage ≠ .rewriting inode lock) (error : Option String)
    (hstage : StageInv owners host.disk pid { host.proc pid with stage, error }) :
    GoesOn owners host pid host.disk { host.proc pid with stage, error } := by
  refine ⟨owners, h.disk, ⟨hstage, ?_⟩, fun other _ => Keeps.refl ..⟩
  intro halive hholding
  obtain ⟨inode, hgrip⟩ := (h.procs pid).holder halive hholding
  exact ⟨inode, hgrip.restage (hrewriting inode) stage⟩

/-- An operation on the process's own file. -/
theorem goesOn_setFile (h : Inv owners host) (howner : owners.owner inode = pid)
    (hlt : inode < host.disk.nextInode) {file : LockFile} (hfresh : file.fresh = true)
    (hnamed : ∀ lock, file.content = some lock → lock.pid = pid)
    (hrewriting : ∀ other lock, (host.proc pid).stage = .rewriting other lock → other = inode)
    (error : Option String) (hfull : file.content ≠ none ∨ ∃ lock, stage = .rewriting inode lock)
    (hstage : StageInv (owners.wrote inode) (host.disk.setFile inode file) pid
      { host.proc pid with stage, error }) :
    GoesOn owners host pid (host.disk.setFile inode file)
      { host.proc pid with stage, error } := by
  refine ⟨owners.wrote inode, h.disk.setFile hlt ?_, ⟨hstage, ?_⟩, ?_⟩
  · intro lock hcontent
    rw [howner, hnamed lock hcontent]
  · intro halive hholding
    obtain ⟨held, hgrip⟩ := (h.procs pid).holder halive hholding
    refine ⟨held, hgrip.path, hgrip.owner, Or.inl hgrip.written, ?_, ?_⟩
    · by_cases hsame : held = inode
      · rw [hsame, show (host.disk.setFile inode file).files inode = file from
          update_self ..]
        exact hfresh
      · rw [show (host.disk.setFile inode file).files held = host.disk.files held from
          update_of_ne hsame ..]
        exact hgrip.fresh
    · by_cases hsame : held = inode
      · rw [hsame, show (host.disk.setFile inode file).files inode = file from
          update_self ..]
        exact hfull
      · rw [show (host.disk.setFile inode file).files held = host.disk.files held from
          update_of_ne hsame ..]
        left
        apply hgrip.full.resolve_right
        rintro ⟨lock, hlock⟩
        exact hsame (hrewriting held lock hlock)
  · intro other hother
    exact keeps_setFile howner hother file

end Orqara.Startup.Host
