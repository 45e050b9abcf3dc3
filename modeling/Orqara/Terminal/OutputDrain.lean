import Orqara.Library.JsonParse

/-!
# The drain of a native terminal

Text waits in one string until it is written, a chunk at a time. A restore puts new text in its place
and owes a reset, which is paid before the next write.
-/

namespace Orqara.Terminal

open JsonParse

/-- What was called, and what the drain did. -/
inductive DrainEntry where
  | enqueueText (text : Units)
  | restoreText (text : Units)
  | clear
  | flush (flush : ℕ)
  | dispose
  | reset
  | write (chunk : Units)
  | written
  | parse (parsedChars queuedChars : ℕ)
  | resolved (flush : ℕ)
  deriving DecidableEq, Repr

/-- The options, with the rendering of a snapshot. -/
structure DrainOptions (Snapshot : Type) where
  renderSnapshot : Snapshot → Units
  chunkChars : ℕ
  chunksPerTurn : ℕ

/-- A drain that waits for its write. -/
structure ActiveDrain where
  activeGeneration : ℕ
  parsedChunks : ℕ
  chunkLength : ℕ
  deriving DecidableEq, Repr

structure OutputDrain where
  pendingText : Units := []
  drainScheduled : Bool := false
  draining : Option ActiveDrain := none
  disposed : Bool := false
  paintFrame : Bool := false
  generation : ℕ := 0
  resetBeforeNextWrite : Bool := false
  idleWaiters : List ℕ := []
  /-- how many callbacks `scheduleWork` holds -/
  callbacks : ℕ := 0
  flushes : ℕ := 0
  history : List DrainEntry := []
  deriving DecidableEq, Repr

inductive DrainEvent (Snapshot : Type) where
  | enqueueText (text : Units)
  | restoreText (text : Units)
  | restoreSnapshot (snapshot : Snapshot)
  | clear
  | flush
  | dispose
  | scheduledWork
  | writeCompleted
  | frame
  deriving DecidableEq, Repr

namespace OutputDrain

variable {Snapshot : Type}

def record (s : OutputDrain) (entry : DrainEntry) : OutputDrain :=
  { s with history := s.history ++ [entry] }

def resolveIdle (s : OutputDrain) : OutputDrain :=
  { s with idleWaiters := [], history := s.history ++ s.idleWaiters.map .resolved }

def resolveIdleIfReady (s : OutputDrain) : OutputDrain :=
  if s.drainScheduled || s.draining.isSome || 0 < s.pendingText.length then s else s.resolveIdle

def requestPaint (s : OutputDrain) : OutputDrain :=
  if s.disposed || s.paintFrame then s else { s with paintFrame := true }

def cancelPendingPaint (s : OutputDrain) : OutputDrain := { s with paintFrame := false }

def scheduleDrain (s : OutputDrain) : OutputDrain :=
  if s.disposed || s.drainScheduled || s.draining.isSome then s
  else { s with drainScheduled := true, callbacks := s.callbacks + 1 }

def replacePendingText (s : OutputDrain) (text : Units) : OutputDrain :=
  let replaced := { s with
    generation := s.generation + 1, pendingText := text, resetBeforeNextWrite := true }
  replaced.cancelPendingPaint.scheduleDrain.resolveIdleIfReady

/-- The `finally` of `drainPending`. -/
def finishDrain (s : OutputDrain) : OutputDrain :=
  let finished := { s with draining := none }
  (if !finished.disposed && 0 < finished.pendingText.length then finished.scheduleDrain
    else finished).resolveIdleIfReady

def resetIfOwed (s : OutputDrain) : OutputDrain :=
  if s.resetBeforeNextWrite then { s.record .reset with resetBeforeNextWrite := false } else s

def writeChunk (chunkChars : ℕ) (s : OutputDrain) (activeGeneration parsedChunks : ℕ) : OutputDrain :=
  let chunk := s.pendingText.take chunkChars
  { s.record (.write chunk) with
    pendingText := s.pendingText.drop chunk.length
    draining := some ⟨activeGeneration, parsedChunks, chunk.length⟩ }

/-- The loop of `drainPending`, as far as the next write. -/
def drainLoop (o : DrainOptions Snapshot) (s : OutputDrain) (activeGeneration parsedChunks : ℕ) :
    OutputDrain :=
  if 0 < s.pendingText.length && parsedChunks < o.chunksPerTurn then
    if s.disposed || activeGeneration != s.generation then s.finishDrain
    else s.resetIfOwed.writeChunk o.chunkChars activeGeneration parsedChunks
  else s.finishDrain

def drainPending (o : DrainOptions Snapshot) (s : OutputDrain) : OutputDrain :=
  if s.disposed || s.draining.isSome then s
  else { s with drainScheduled := false }.drainLoop o s.generation 0

/-- What follows `await options.write(chunk)`. -/
def afterWrite (o : DrainOptions Snapshot) (s : OutputDrain) (active : ActiveDrain) : OutputDrain :=
  if s.disposed || active.activeGeneration != s.generation then s.finishDrain
  else
    (s.record (.parse active.chunkLength s.pendingText.length)).requestPaint.drainLoop o
      active.activeGeneration (active.parsedChunks + 1)

def enqueueText (s : OutputDrain) (text : Units) : OutputDrain :=
  let s := s.record (.enqueueText text)
  if s.disposed || text.length == 0 then s
  else { s with pendingText := s.pendingText ++ text }.scheduleDrain

def restoreText (s : OutputDrain) (text : Units) : OutputDrain :=
  let s := s.record (.restoreText text)
  if s.disposed then s else s.replacePendingText text

def clear (s : OutputDrain) : OutputDrain :=
  { s.record .clear with
    generation := s.generation + 1, pendingText := [],
    resetBeforeNextWrite := false }.cancelPendingPaint.resolveIdleIfReady

def flush (s : OutputDrain) : OutputDrain :=
  let n := s.flushes
  let s := { s.record (.flush n) with flushes := n + 1 }
  if !s.drainScheduled && s.draining.isNone && s.pendingText.length == 0 then s.record (.resolved n)
  else
    let s := s.scheduleDrain
    { s with idleWaiters := s.idleWaiters ++ [n] }

def dispose (s : OutputDrain) : OutputDrain :=
  { s.record .dispose with
    disposed := true, generation := s.generation + 1, pendingText := [],
    resetBeforeNextWrite := false }.cancelPendingPaint.resolveIdle

def step (o : DrainOptions Snapshot) (s : OutputDrain) : DrainEvent Snapshot → Option OutputDrain
  | .enqueueText text => some (s.enqueueText text)
  | .restoreText text => some (s.restoreText text)
  | .restoreSnapshot snapshot => some (s.restoreText (o.renderSnapshot snapshot))
  | .clear => some s.clear
  | .flush => some s.flush
  | .dispose => some s.dispose
  | .scheduledWork =>
    if s.callbacks = 0 then none else some ({ s with callbacks := s.callbacks - 1 }.drainPending o)
  | .writeCompleted =>
    match s.draining with
    | some active => some ((s.record .written).afterWrite o active)
    | none => none
  | .frame => if s.paintFrame then some { s with paintFrame := false } else none

def run (o : DrainOptions Snapshot) (s : OutputDrain) : List (DrainEvent Snapshot) → Option OutputDrain
  | [] => some s
  | event :: events => (s.step o event).bind fun s' => s'.run o events

end OutputDrain

end Orqara.Terminal
