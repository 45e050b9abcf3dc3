import Orqara.Library.JsString

/-!
# The checkout diff manager

A target is what is compared in one working directory. The subscribers of a target share its watcher
and its latest diff. A diff reads the repository at one moment and is settled later.
-/

namespace Orqara.Diff

inductive CompareMode where
  | uncommitted
  | base (baseRef : Option String)
  deriving DecidableEq, Repr

structure Compare where
  mode : CompareMode
  ignoreWhitespace : Bool
  deriving DecidableEq, Repr

/-- What `getCheckoutDiff` gives. -/
inductive DiffResult (File : Type) where
  | structured (files : List File)
  | diffTooLarge
  | rejected (message : String)
  deriving DecidableEq, Repr

structure DiffSnapshot (File Err : Type) where
  cwd : String
  files : List File
  diffTooLarge : Bool
  error : Option Err
  deriving DecidableEq, Repr

/-- A snapshot of the workspace, with the texts of its three parts. -/
structure WorkspaceSnapshot where
  repoRoot : Option String
  structureFingerprint : String
  worktreeFingerprint : String
  forgeFingerprint : String
  deriving DecidableEq, Repr

/-- What the manager takes from elsewhere; `stringify` is that of a diff. -/
structure DiffTools (File Err Path φ : Type) where
  path : File → Path
  toCheckoutError : String → Err
  stringify : DiffSnapshot File Err → φ
  expandTilde : String → String

def diffTooLargeMessage : String := "Diff too large to display"

variable {File Err Path φ : Type}

def computeCheckoutDiffSnapshot [LE Path] [DecidableLE Path] (o : DiffTools File Err Path φ) (cwd : String) :
    DiffResult File → DiffSnapshot File Err
  | .structured files => ⟨cwd, files.insertionSort fun a b => o.path a ≤ o.path b, false, none⟩
  | .diffTooLarge => ⟨cwd, [], true, some (o.toCheckoutError diffTooLargeMessage)⟩
  | .rejected message => ⟨cwd, [], false, some (o.toCheckoutError message)⟩

/-- Where a call of `subscribe` stands. -/
inductive SubscribePhase (π : Type) where
  /-- waits for `openPromise` -/
  | opening
  /-- waits for a diff of its own, which may have read the repository -/
  | computing (read : Option π)
  | answered
  | failed
  deriving DecidableEq, Repr

/-- A call of `subscribe` with its listener, and what that was given last. -/
structure DiffSubscription (π : Type) where
  listening : Bool
  isSubscribed : Bool
  phase : SubscribePhase π
  given : Option π
  deriving DecidableEq, Repr

inductive OpenPromise where
  | pending
  | fulfilled
  | rejected
  deriving DecidableEq, Repr

/-- A refresh that is under way, with the diff once it has read the repository. -/
structure Refresh (π : Type) where
  force : Bool
  read : Option π
  deriving DecidableEq, Repr

structure WatchTarget (π φ : Type) where
  cwd : String
  diffCwd : String
  compare : Compare
  /-- the map holds this target under its key -/
  registered : Bool
  subscriptions : List (DiffSubscription π)
  openPromise : Option OpenPromise
  watching : Bool
  latestWorkspace : Option WorkspaceSnapshot
  debounceTimer : Bool
  pendingDebounceForce : Bool
  refreshPromise : Option (Refresh π)
  refreshQueued : Bool
  refreshQueuedForce : Bool
  latestPayload : Option π
  latestFingerprint : Option φ
  /-- the fingerprints of the diffs that have read the repository since the last change notice -/
  fresh : List φ
  deriving DecidableEq, Repr

namespace WatchTarget

variable {π : Type}

def hasListeners (t : WatchTarget π φ) : Bool := t.subscriptions.any (·.listening)

def closeTarget (t : WatchTarget π φ) : WatchTarget π φ :=
  { t with
    debounceTimer := false
    watching := false
    subscriptions := t.subscriptions.map fun call => { call with listening := false } }

/-- A change notice. -/
def scheduleTargetRefresh (t : WatchTarget π φ) (force : Bool) : WatchTarget π φ :=
  { t with
    pendingDebounceForce := t.pendingDebounceForce || force
    debounceTimer := true
    fresh := [] }

/-- Snapshots that differ in their worktree or forge alone are no change of what is compared. -/
def rememberWorkspaceSnapshot (t : WatchTarget π φ) (snapshot : WorkspaceSnapshot) : WatchTarget π φ :=
  let remembered := { t with latestWorkspace := some snapshot }
  match t.latestWorkspace with
  | none => remembered
  | some previous =>
    let structureChanged := snapshot.structureFingerprint != previous.structureFingerprint
    let worktreeChanged := snapshot.worktreeFingerprint != previous.worktreeFingerprint
    let forgeChanged := snapshot.forgeFingerprint != previous.forgeFingerprint
    if structureChanged || (!worktreeChanged && !forgeChanged) then
      remembered.scheduleTargetRefresh false
    else remembered

def removeListener (t : WatchTarget π φ) (n : ℕ) : WatchTarget π φ :=
  let removed := { t with
    subscriptions := t.subscriptions.modify n fun call => { call with listening := false } }
  if removed.hasListeners then removed else { removed.closeTarget with registered := false }

def unsubscribe (t : WatchTarget π φ) (n : ℕ) : WatchTarget π φ :=
  if (t.subscriptions[n]?).all (!·.isSubscribed) then t
  else
    { t with subscriptions := t.subscriptions.modify n fun call =>
      { call with isSubscribed := false } }.removeListener n

/-- What `openTarget` does with the root of the repository. -/
def locate (t : WatchTarget π φ) (repoRoot : Option String) : WatchTarget π φ :=
  { t with diffCwd := repoRoot.getD t.cwd, openPromise := some .fulfilled }

/-- The watch of the working tree is there; it is given up at once when nobody listens any more. -/
def watchOpened (t : WatchTarget π φ) (repoRoot : Option String) : WatchTarget π φ :=
  if !t.registered || !t.hasListeners then t.locate repoRoot
  else { t.locate repoRoot with watching := true }

/-- The snapshot of the workspace is there. -/
def snapshotOpened (t : WatchTarget π φ) (snapshot : WorkspaceSnapshot) : WatchTarget π φ :=
  if !t.registered || !t.hasListeners then t.locate snapshot.repoRoot
  else { (t.locate snapshot.repoRoot).rememberWorkspaceSnapshot snapshot with watching := true }

/-- The answer of `subscribe`, which is the latest diff from then on. -/
def answer (stringify : π → φ) (t : WatchTarget π φ) (n : ℕ) (initial : π) : WatchTarget π φ :=
  { t with
    latestPayload := some initial
    latestFingerprint := some (stringify initial)
    subscriptions := t.subscriptions.modify n fun call =>
      { call with phase := .answered, given := some initial } }

/-- A call of `subscribe` goes on after `openPromise`. -/
def resume (stringify : π → φ) (t : WatchTarget π φ) (n : ℕ) : Option (WatchTarget π φ) :=
  match t.openPromise with
  | none | some .pending => none
  | some .fulfilled =>
    match t.latestPayload with
    | some latest => some (t.answer stringify n latest)
    | none => some { t with
        subscriptions := t.subscriptions.modify n fun call => { call with phase := .computing none } }
  | some .rejected => some ({ t with
      subscriptions := t.subscriptions.modify n fun call => { call with phase := .failed } }.unsubscribe n)

def refreshTarget (t : WatchTarget π φ) (force : Bool) : WatchTarget π φ :=
  if t.refreshPromise.isSome then
    { t with refreshQueued := true, refreshQueuedForce := t.refreshQueuedForce || force }
  else
    { t with refreshPromise := some ⟨force, none⟩, refreshQueued := false, refreshQueuedForce := false }

def debounceFired (t : WatchTarget π φ) : WatchTarget π φ :=
  { t with debounceTimer := false, pendingDebounceForce := false }.refreshTarget t.pendingDebounceForce

/-- A diff that differs from the latest one is told to every listener. -/
def storeRefreshed [DecidableEq φ] (stringify : π → φ) (t : WatchTarget π φ) (snapshot : π) :
    WatchTarget π φ :=
  if some (stringify snapshot) != t.latestFingerprint then
    { t with
      latestPayload := some snapshot
      latestFingerprint := some (stringify snapshot)
      subscriptions := t.subscriptions.map fun call =>
        if call.listening then { call with given := some snapshot } else call }
  else { t with latestPayload := some snapshot }

/-- The end of the loop; no timer fires before `refreshPromise` is cleared. -/
def nextRefresh (t : WatchTarget π φ) : WatchTarget π φ :=
  if t.refreshQueued then
    { t with
      refreshPromise := some ⟨t.refreshQueuedForce, none⟩, refreshQueued := false,
      refreshQueuedForce := false }
  else { t with refreshPromise := none }

end WatchTarget

/-- What happens to one target. -/
inductive TargetEvent (File : Type) where
  | watchOpened (repoRoot : Option String)
  | snapshotOpened (snapshot : WorkspaceSnapshot)
  | openFailed
  | resumed (call : ℕ)
  /-- the diff of a call reads the repository -/
  | initialRead (call : ℕ) (result : DiffResult File)
  | initialSettled (call : ℕ)
  | unsubscribe (call : ℕ)
  | workingTreeChanged
  | workspaceSnapshot (snapshot : WorkspaceSnapshot)
  | debounceFired
  | refreshRead (result : DiffResult File)
  | refreshSettled
  deriving DecidableEq, Repr

namespace WatchTarget

variable [LE Path] [DecidableLE Path] [DecidableEq φ]

def step (o : DiffTools File Err Path φ) (t : WatchTarget (DiffSnapshot File Err) φ) :
    TargetEvent File → Option (WatchTarget (DiffSnapshot File Err) φ)
  | .watchOpened repoRoot =>
    if t.openPromise = some .pending ∧ t.compare.mode = .uncommitted then some (t.watchOpened repoRoot)
    else none
  | .snapshotOpened snapshot =>
    if t.openPromise = some .pending ∧ t.compare.mode ≠ .uncommitted then some (t.snapshotOpened snapshot)
    else none
  | .openFailed =>
    if t.openPromise = some .pending then some { t with openPromise := some .rejected } else none
  | .resumed n =>
    match t.subscriptions[n]? with
    | some call => if call.phase matches .opening then t.resume o.stringify n else none
    | none => none
  | .initialRead n result =>
    match t.subscriptions[n]? with
    | some call =>
      if call.phase matches .computing none then
        let snapshot := computeCheckoutDiffSnapshot o t.cwd result
        some { t with
          subscriptions := t.subscriptions.modify n fun call =>
            { call with phase := .computing (some snapshot) }
          fresh := t.fresh ++ [o.stringify snapshot] }
      else none
    | none => none
  | .initialSettled n =>
    match t.subscriptions[n]? with
    | some call =>
      match call.phase with
      | .computing (some snapshot) => some (t.answer o.stringify n snapshot)
      | _ => none
    | none => none
  | .unsubscribe n => some (t.unsubscribe n)
  | .workingTreeChanged => some (t.scheduleTargetRefresh true)
  | .workspaceSnapshot snapshot => some (t.rememberWorkspaceSnapshot snapshot)
  | .debounceFired => if t.debounceTimer then some t.debounceFired else none
  | .refreshRead result =>
    match t.refreshPromise with
    | some ⟨force, none⟩ =>
      let snapshot := computeCheckoutDiffSnapshot o t.cwd result
      some { t with
        refreshPromise := some ⟨force, some snapshot⟩, fresh := t.fresh ++ [o.stringify snapshot] }
    | _ => none
  | .refreshSettled =>
    match t.refreshPromise with
    | some ⟨_, some snapshot⟩ => some (t.storeRefreshed o.stringify snapshot).nextRefresh
    | _ => none

end WatchTarget

/-- The map of the targets; a target that is not registered any more stays behind. -/
abbrev DiffManager (π φ : Type) := List (WatchTarget π φ)

inductive DiffEvent (File : Type) where
  /-- `peeked` is the snapshot that is there already; the signal may be aborted from the start -/
  | subscribe (cwd : String) (compare : Compare) (peeked : Option WorkspaceSnapshot) (aborted : Bool)
  | scheduleRefreshForCwd (cwd : String)
  | dispose
  | target (index : ℕ) (event : TargetEvent File)
  deriving DecidableEq, Repr

/-- A blank base is none. -/
def normalizeCompare (compare : Compare) : Compare :=
  match compare.mode with
  | .uncommitted => compare
  | .base baseRef => { compare with mode := .base (baseRef.bind trimNonEmpty) }

namespace DiffManager

variable {π : Type}

def newTarget (cwd : String) (compare : Compare) : WatchTarget π φ where
  cwd := cwd
  diffCwd := cwd
  compare := compare
  registered := true
  subscriptions := []
  openPromise := none
  watching := false
  latestWorkspace := none
  debounceTimer := false
  pendingDebounceForce := false
  refreshPromise := none
  refreshQueued := false
  refreshQueuedForce := false
  latestPayload := none
  latestFingerprint := none
  fresh := []

/-- The target of a key, which is added when it is not there. -/
def ensureTarget (s : DiffManager π φ) (cwd : String) (compare : Compare) : DiffManager π φ × ℕ :=
  match s.findIdx? fun t => t.registered && t.cwd == cwd && t.compare == compare with
  | some index => (s, index)
  | none => (s ++ [newTarget cwd compare], s.length)

/-- `openTarget`, which goes on at once where the snapshot is there. -/
def openTarget (t : WatchTarget π φ) (peeked : Option WorkspaceSnapshot) : WatchTarget π φ :=
  let pending := { t with openPromise := some .pending }
  match t.compare.mode, peeked with
  | .base _, some snapshot => pending.snapshotOpened snapshot
  | _, _ => pending

/-- The part of `subscribe` before its first `await`. -/
def addListener (t : WatchTarget π φ) (peeked : Option WorkspaceSnapshot) (aborted : Bool) :
    WatchTarget π φ :=
  let added := { t with subscriptions := t.subscriptions ++ [⟨true, true, .opening, none⟩] }
  let opening := if added.openPromise.isNone then openTarget added peeked else added
  if aborted then opening.unsubscribe t.subscriptions.length else opening

def subscribe (s : DiffManager π φ) (cwd : String) (compare : Compare)
    (peeked : Option WorkspaceSnapshot) (aborted : Bool) : DiffManager π φ :=
  let (targets, index) := s.ensureTarget cwd (normalizeCompare compare)
  targets.modify index fun t => addListener t peeked aborted

def scheduleRefreshForCwd (s : DiffManager π φ) (resolvedCwd : String) : DiffManager π φ :=
  s.map fun t =>
    if t.registered && (t.cwd == resolvedCwd || t.diffCwd == resolvedCwd) then t.scheduleTargetRefresh true
    else t

def dispose (s : DiffManager π φ) : DiffManager π φ :=
  s.map fun t => if t.registered then { t.closeTarget with registered := false } else t

variable [LE Path] [DecidableLE Path] [DecidableEq φ]

def step (o : DiffTools File Err Path φ) (s : DiffManager (DiffSnapshot File Err) φ) :
    DiffEvent File → Option (DiffManager (DiffSnapshot File Err) φ)
  | .subscribe cwd compare peeked aborted => some (s.subscribe cwd compare peeked aborted)
  | .scheduleRefreshForCwd cwd => some (s.scheduleRefreshForCwd (o.expandTilde cwd))
  | .dispose => some s.dispose
  | .target index event =>
    match s[index]? with
    | some t => (t.step o event).map fun t' => s.set index t'
    | none => none

def run (o : DiffTools File Err Path φ) (s : DiffManager (DiffSnapshot File Err) φ) :
    List (DiffEvent File) → Option (DiffManager (DiffSnapshot File Err) φ)
  | [] => some s
  | event :: events => (s.step o event).bind fun s' => s'.run o events

end DiffManager

end Orqara.Diff
