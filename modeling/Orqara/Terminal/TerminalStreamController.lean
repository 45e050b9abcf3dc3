import Mathlib

/-!
# The terminal stream controller

The controller follows one terminal at a time. It subscribes to its stream, reports what becomes of
that, and passes on the events of the stream. The calls of `subscribeTerminal` settle in any order.
-/

namespace Orqara.Terminal

structure StreamSize where
  rows : ℕ
  cols : ℕ
  deriving DecidableEq, Repr

structure StreamStatus where
  terminalId : Option String
  isAttaching : Bool
  error : Option String
  deriving DecidableEq, Repr

inductive StreamEventKind where
  | snapshot
  /-- with the number of bytes -/
  | restore (length : ℕ)
  | output (length : ℕ)
  deriving DecidableEq, Repr

/-- What a call of `subscribeTerminal` gives. -/
inductive SubscribeResult where
  | payload (error : Option String)
  /-- with the message of the error, or the one for what is no error -/
  | rejected (message : String)
  deriving DecidableEq, Repr

/-- What the controller does to the client and to its owner. -/
inductive StreamEffect where
  | unsubscribeTerminal (terminalId : String)
  /-- the exit of the current terminal, which the owner has told -/
  | exited (terminalId : String)
  | status (status : StreamStatus)
  | resize (terminalId : String) (size : StreamSize)
  | forward (terminalId : String) (kind : StreamEventKind)
  deriving DecidableEq, Repr

/-- A call of `subscribeTerminal`; `restoresSize` where the options had a size. -/
structure SubscribeCall where
  terminalId : String
  restoresSize : Bool
  result : Option SubscribeResult
  deriving DecidableEq, Repr

/-- The controller, the calls in their order, and what was done, each with the number of calls that
were made before. -/
structure StreamController where
  terminalId : Option String := none
  disposed : Bool := false
  calls : List SubscribeCall := []
  effects : List (ℕ × StreamEffect) := []
  deriving DecidableEq, Repr

/-- The truth value of an id, or of an error. -/
def truthy (text : Option String) : Bool := text.any (· ≠ "")

def terminalExitedError : String := "Terminal exited"

namespace StreamController

def emit (s : StreamController) (effect : StreamEffect) : StreamController :=
  { s with effects := s.effects ++ [(s.calls.length, effect)] }

def emitStatus (s : StreamController) (terminalId : Option String) (isAttaching : Bool)
    (error : Option String) : StreamController :=
  s.emit (.status ⟨terminalId, isAttaching, error⟩)

/-- The terminal before, if there was one. -/
def unsubscribe (s : StreamController) (terminalId : Option String) : StreamController :=
  match terminalId.filter (· ≠ "") with
  | some terminalId => s.emit (.unsubscribeTerminal terminalId)
  | none => s

def setTerminal (s : StreamController) (terminalId : Option String) (restoresSize : Bool) :
    StreamController :=
  if s.disposed || terminalId == s.terminalId then s
  else
    let left := { s with terminalId }.unsubscribe s.terminalId
    match terminalId.filter (· ≠ "") with
    | none => left.emitStatus none false none
    | some next =>
      let attaching := left.emitStatus (some next) true none
      { attaching with calls := attaching.calls ++ [⟨next, restoresSize, none⟩] }

/-- The handlers of a call that is settled. -/
def complete (s : StreamController) (call : SubscribeCall) (result : SubscribeResult)
    (preferredSize : Option StreamSize) : StreamController :=
  if s.disposed || s.terminalId != some call.terminalId then s
  else
    match result with
    | .rejected message => { s with terminalId := none }.emitStatus (some call.terminalId) false (some message)
    | .payload error =>
      if truthy error then { s with terminalId := none }.emitStatus (some call.terminalId) false error
      else
        let resized := match (if call.restoresSize then none else preferredSize) with
          | some size => s.emit (.resize call.terminalId size)
          | none => s
        resized.emitStatus (some call.terminalId) false none

def handleTerminalExit (s : StreamController) (terminalId : String) : StreamController :=
  if s.disposed || some terminalId != s.terminalId then s
  else ({ s with terminalId := none }.emit (.exited terminalId)).emitStatus (some terminalId) false
    (some terminalExitedError)

def dispose (s : StreamController) : StreamController :=
  if s.disposed then s
  else ({ s with disposed := true, terminalId := none }.unsubscribe s.terminalId).emitStatus none false none

def handleStreamEvent (s : StreamController) (terminalId : String) (kind : StreamEventKind) :
    StreamController :=
  if s.disposed || some terminalId != s.terminalId then s
  else
    match kind with
    | .snapshot => s.emit (.forward terminalId kind)
    | .restore length | .output length => if 0 < length then s.emit (.forward terminalId kind) else s

end StreamController

inductive ControllerEvent where
  | setTerminal (terminalId : Option String) (restoresSize : Bool)
  /-- a call is settled; the size is what `getPreferredSize` gives then -/
  | completed (call : ℕ) (result : SubscribeResult) (preferredSize : Option StreamSize)
  | handleTerminalExit (terminalId : String)
  | dispose
  | streamEvent (terminalId : String) (kind : StreamEventKind)
  deriving DecidableEq, Repr

namespace StreamController

/-- A call is settled once. -/
def step (s : StreamController) : ControllerEvent → Option StreamController
  | .setTerminal terminalId restoresSize => some (s.setTerminal terminalId restoresSize)
  | .completed n result preferredSize =>
    match s.calls[n]? with
    | some call =>
      if call.result.isSome then none
      else some ({ s with calls := s.calls.set n { call with result := some result } }.complete call
        result preferredSize)
    | none => none
  | .handleTerminalExit terminalId => some (s.handleTerminalExit terminalId)
  | .dispose => some s.dispose
  | .streamEvent terminalId kind => some (s.handleStreamEvent terminalId kind)

def run (s : StreamController) : List ControllerEvent → Option StreamController
  | [] => some s
  | event :: events => (s.step event).bind fun s' => s'.run events

end StreamController

end Orqara.Terminal
