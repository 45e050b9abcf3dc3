import Mathlib

/-!
# The daemon's PID lock

The lock file with its single operations on the path and on open handles, and the
calls `acquirePidLock`, `refreshPidLock`, `updatePidLock` and `releasePidLock` of any
number of processes, one atomic operation a step.
-/

namespace Orqara.Startup

structure PidLockInfo where
  pid : ℕ
  startedAt : String
  hostname : String
  uid : ℕ
  listen : Option String
  desktopManaged : Option Bool
  heartbeat : Option Bool
  deriving DecidableEq, Repr

/-! ## The lock file -/

/-- A file: the lock its text parses to, if any, and whether its `mtime` is within
`PID_LOCK_STALE_MS`. -/
structure LockFile where
  content : Option PidLockInfo
  fresh : Bool
  deriving DecidableEq, Repr

/-- The path `paseo.pid` and the files that handles may still be open on. -/
structure Disk where
  path : Option ℕ
  files : ℕ → LockFile
  nextInode : ℕ

namespace Disk

/-- The lock at the path, with the file it was read from. -/
def readPidLock (disk : Disk) : Option (ℕ × PidLockInfo) :=
  disk.path.bind fun inode => (disk.files inode).content.map fun lock => (inode, lock)

def isPidLockFresh (disk : Disk) : Bool :=
  (disk.path.map fun inode => (disk.files inode).fresh).getD false

def unlink (disk : Disk) : Disk := { disk with path := none }

def setFile (disk : Disk) (inode : ℕ) (file : LockFile) : Disk :=
  { disk with files := Function.update disk.files inode file }

/-- `utimes` with the current time. -/
def touch (disk : Disk) (inode : ℕ) : Disk :=
  disk.setFile inode { disk.files inode with fresh := true }

def write (disk : Disk) (inode : ℕ) (content : Option PidLockInfo) : Disk :=
  disk.setFile inode ⟨content, true⟩

/-- `open(pidPath, "wx")` where there is no file. -/
def create (disk : Disk) : Disk where
  path := some disk.nextInode
  files := Function.update disk.files disk.nextInode ⟨none, true⟩
  nextInode := disk.nextInode + 1

end Disk

/-! ## Calls in progress -/

/-- What `acquirePidLock` is called with and what it reads of its process. -/
structure AcquireRequest where
  listen : Option String
  reclaimStaleDesktopLock : Bool
  startedAt : String
  hostname : String
  uid : ℕ
  desktopManaged : Bool
  deriving DecidableEq, Repr

def AcquireRequest.lockInfo (request : AcquireRequest) (lockOwnerPid : ℕ) : PidLockInfo where
  pid := lockOwnerPid
  startedAt := request.startedAt
  hostname := request.hostname
  uid := request.uid
  listen := request.listen
  desktopManaged := if request.desktopManaged then some true else none
  heartbeat := some true

inductive Call
  | acquirePidLock (request : AcquireRequest)
  | refreshPidLock
  | updatePidLock (listen : String)
  | releasePidLock
  deriving DecidableEq, Repr

/-- The operation a process is about to make. The inode beside a lock is the file the
lock was read from, which the code does not know; an inode elsewhere is that of an open
handle, or of the file a decision was based on. -/
inductive Stage
  | idle
  | acquireReading (request : AcquireRequest)
  | judging (request : AcquireRequest) (inode : ℕ) (existingLock : PidLockInfo)
  | touching (inode : ℕ)
  | checkingFresh (request : AcquireRequest) (inode : ℕ) (existingLock : PidLockInfo)
  | confirming (request : AcquireRequest) (inode : ℕ) (existingLock : PidLockInfo)
  | recheckingFresh (request : AcquireRequest) (inode : ℕ) (existingLock : PidLockInfo)
  | clearing (request : AcquireRequest) (inode : ℕ) (existingLock : PidLockInfo)
  | creating (request : AcquireRequest)
  | raceReading
  | writing (request : AcquireRequest) (inode : ℕ)
  | closing (inode : ℕ)
  | refreshOpening
  | refreshReading (inode attempt : ℕ)
  | refreshTouching (inode : ℕ)
  | updateOpening (listen : String)
  | updateReading (listen : String) (inode attempt : ℕ)
  | truncating (inode : ℕ) (updatedLock : PidLockInfo)
  | rewriting (inode : ℕ) (updatedLock : PidLockInfo)
  | releaseReading
  | releasing (inode : ℕ)
  deriving DecidableEq, Repr

/-- How an operation goes on. -/
inductive Next
  | stage (stage : Stage)
  | returned
  | acquired
  | threw (message : String)

def PID_LOCK_READ_RETRY_ATTEMPTS : ℕ := 10

def canReclaimLiveLock (lock : PidLockInfo) (request : AcquireRequest) : Bool :=
  request.reclaimStaleDesktopLock ∧ lock.desktopManaged = some true

def isSamePidLock (left right : PidLockInfo) : Bool :=
  left.pid = right.pid ∧ left.startedAt = right.startedAt

def createLockHeldError (lock : PidLockInfo) : String :=
  "Another Orqara daemon is already running (PID " ++ toString lock.pid ++ ", started " ++
    lock.startedAt ++ ")"

/-- After an attempt of `readPidLockFromHandleWithRetry`: the lock, another attempt, or
the error of the caller. -/
def afterAttempt (content : Option PidLockInfo) (attempt : ℕ) (retry : ℕ → Stage)
    (found : PidLockInfo → Next) (invalid : String) : Next :=
  match content with
  | some lock => found lock
  | none =>
    if attempt + 1 < PID_LOCK_READ_RETRY_ATTEMPTS then .stage (retry (attempt + 1))
    else .threw invalid

/-- One operation of the process with this pid. `running` answers `isPidRunning`. -/
def operate (disk : Disk) (running : ℕ → Bool) (lockOwnerPid : ℕ) : Stage → Disk × Next
  | .idle => (disk, .stage .idle)
  | .acquireReading request =>
    match disk.readPidLock with
    | none => (disk, .stage (.creating request))
    | some (inode, existingLock) => (disk, .stage (.judging request inode existingLock))
  | .judging request inode existingLock =>
    if existingLock.pid = lockOwnerPid ∧ running existingLock.pid then
      (disk, .stage (.touching inode))
    else if running existingLock.pid then
      if canReclaimLiveLock existingLock request then
        (disk, .stage (.checkingFresh request inode existingLock))
      else (disk, .threw (createLockHeldError existingLock))
    else (disk, .stage (.clearing request inode existingLock))
  | .touching _ =>
    match disk.path with
    | none => (disk, .threw "ENOENT")
    | some current => (disk.touch current, .acquired)
  | .checkingFresh request inode existingLock =>
    if disk.isPidLockFresh then (disk, .threw (createLockHeldError existingLock))
    else (disk, .stage (.confirming request inode existingLock))
  | .confirming request _ existingLock =>
    match disk.readPidLock with
    | none => (disk, .threw "PID lock changed while checking whether it was abandoned")
    | some (inode, confirmedLock) =>
      if isSamePidLock existingLock confirmedLock then
        (disk, .stage (.recheckingFresh request inode confirmedLock))
      else (disk, .threw "PID lock changed while checking whether it was abandoned")
  | .recheckingFresh request inode confirmedLock =>
    if disk.isPidLockFresh then
      (disk, .threw "PID lock changed while checking whether it was abandoned")
    else (disk, .stage (.clearing request inode confirmedLock))
  | .clearing request _ _ => (disk.unlink, .stage (.creating request))
  | .creating request =>
    match disk.path with
    | some _ => (disk, .stage .raceReading)
    | none => (disk.create, .stage (.writing request disk.nextInode))
  | .raceReading =>
    match disk.readPidLock with
    | some (_, raceLock) =>
      (disk, .threw ("Another Orqara daemon is already running (PID " ++
        toString raceLock.pid ++ ")"))
    | none => (disk, .threw "Failed to acquire PID lock due to race condition")
  | .writing request inode =>
    (disk.write inode (some (request.lockInfo lockOwnerPid)), .stage (.closing inode))
  | .closing _ => (disk, .acquired)
  | .refreshOpening =>
    match disk.path with
    | none => (disk, .threw "Cannot refresh PID lock: lock file is missing")
    | some inode => (disk, .stage (.refreshReading inode 0))
  | .refreshReading inode attempt =>
    (disk, afterAttempt (disk.files inode).content attempt (.refreshReading inode)
      (fun lock =>
        if lock.pid ≠ lockOwnerPid then
          .threw ("Cannot refresh PID lock owned by PID " ++ toString lock.pid)
        else .stage (.refreshTouching inode))
      "Cannot refresh PID lock: invalid lock file")
  | .refreshTouching inode => (disk.touch inode, .returned)
  | .updateOpening listen =>
    match disk.path with
    | none => (disk, .threw "ENOENT")
    | some inode => (disk, .stage (.updateReading listen inode 0))
  | .updateReading listen inode attempt =>
    (disk, afterAttempt (disk.files inode).content attempt (.updateReading listen inode)
      (fun existingLock =>
        if existingLock.pid ≠ lockOwnerPid then
          .threw ("Cannot update PID lock owned by PID " ++ toString existingLock.pid)
        else .stage (.truncating inode { existingLock with listen := some listen }))
      "Cannot update PID lock: invalid lock file")
  | .truncating inode updatedLock =>
    (disk.write inode none, .stage (.rewriting inode updatedLock))
  | .rewriting inode updatedLock => (disk.write inode (some updatedLock), .returned)
  | .releaseReading =>
    match disk.readPidLock with
    | none => (disk, .returned)
    | some (inode, lock) =>
      if lock.pid = lockOwnerPid then (disk, .stage (.releasing inode)) else (disk, .returned)
  | .releasing _ => (disk.unlink, .returned)

/-! ## Processes -/

/-- A process. `holding` says that `acquirePidLock` has returned and `releasePidLock`
has not been called since. -/
structure Proc where
  alive : Bool
  holding : Bool
  stage : Stage
  error : Option String
  deriving DecidableEq, Repr

namespace Proc

def begin (proc : Proc) : Call → Proc
  | .acquirePidLock request => { proc with stage := .acquireReading request }
  | .refreshPidLock => { proc with stage := .refreshOpening }
  | .updatePidLock listen => { proc with stage := .updateOpening listen }
  | .releasePidLock => { proc with stage := .releaseReading, holding := false }

def goOn (proc : Proc) : Next → Proc
  | .stage stage => { proc with stage := stage }
  | .returned => { proc with stage := .idle, error := none }
  | .acquired => { proc with stage := .idle, error := none, holding := true }
  | .threw message => { proc with stage := .idle, error := some message }

end Proc

/-- The lock file and the processes by their pids. -/
structure Host where
  disk : Disk
  proc : ℕ → Proc

inductive Action
  | call (pid : ℕ) (call : Call)
  | advance (pid : ℕ)
  | dies (pid : ℕ)
  | ages (inode : ℕ)
  deriving DecidableEq, Repr

namespace Host

def setProc (host : Host) (pid : ℕ) (proc : Proc) : Host :=
  { host with proc := Function.update host.proc pid proc }

def isPidRunning (host : Host) (pid : ℕ) : Bool := (host.proc pid).alive

/-- One step of the host. A process makes one call at a time, and a dead one none. -/
def step (host : Host) : Action → Host
  | .call pid call =>
    let proc := host.proc pid
    if proc.alive ∧ proc.stage = .idle then host.setProc pid (proc.begin call) else host
  | .advance pid =>
    let proc := host.proc pid
    if proc.alive ∧ proc.stage ≠ .idle then
      let (disk, next) := operate host.disk host.isPidRunning pid proc.stage
      { host with disk := disk }.setProc pid (proc.goOn next)
    else host
  | .dies pid => host.setProc pid { host.proc pid with alive := false }
  | .ages inode =>
    { host with disk := host.disk.setFile inode { host.disk.files inode with fresh := false } }

def run (host : Host) (actions : List Action) : Host := actions.foldl step host

/-- A live process that holds the lock. -/
def Holds (host : Host) (pid : ℕ) : Prop :=
  (host.proc pid).alive = true ∧ (host.proc pid).holding = true

/-- The file at the path names the process. -/
def FileNames (host : Host) (pid : ℕ) : Prop :=
  ∃ inode lock, host.disk.readPidLock = some (inode, lock) ∧ lock.pid = pid

/-- What the lock is for: one holder at most, and the file names it. -/
structure Exclusive (host : Host) : Prop where
  one : ∀ pid pid', host.Holds pid → host.Holds pid' → pid = pid'
  named : ∀ pid, host.Holds pid → host.FileNames pid

end Host

end Orqara.Startup
