import Orqara.Library.JsonParse
import Orqara.Library.OrderedMap

/-!
# The links of the daemon to the relay

The daemon keeps one control socket to the relay, opens it again some time after it closed, and
opens a data socket for each connection that the relay announces on it. The sockets and the timers
answer at any later time, so that a handler may run long after its socket was given up.
-/

namespace Orqara.RelayTransport

open JsonParse

/-! ## Control messages -/

/-- `s.trim()` on code units. -/
def trimUnits (units : Units) : Units :=
  (units.dropWhile fun u => isWhiteSpace (Char.ofNat u.toNat)).rdropWhile fun u =>
    isWhiteSpace (Char.ofNat u.toNat)

inductive ControlMessage
  | sync (connectionIds : List Units)
  | connected (connectionId : Units)
  | disconnected (connectionId : Units)
  | ping
  | pong
  deriving DecidableEq

def unitsOfText (s : String) : Units := s.toList.flatMap unitsOf

/-- The ids of a `sync` message are checked for being more than white space, and not trimmed. -/
def syncIds (items : List Value) : List Units :=
  items.filterMap fun item =>
    match item with
    | .str id => if trimUnits id = [] then none else some id
    | _ => none

/-- The trimmed id of a `connected` or `disconnected` message. -/
def connectionIdOf (members : List (Units × Value)) : Option Units :=
  match member members (unitsOfText "connectionId") with
  | some (.str id) => if trimUnits id = [] then none else some (trimUnits id)
  | _ => none

def tryParseControlMessage (text : List Char) : Option ControlMessage :=
  match parse text with
  | some (.obj members) =>
    match member members (unitsOfText "type") with
    | some (.str type) =>
      if type = unitsOfText "ping" then some .ping
      else if type = unitsOfText "pong" then some .pong
      else if type = unitsOfText "sync" then
        match member members (unitsOfText "connectionIds") with
        | some (.arr items) => some (.sync (syncIds items))
        | _ => none
      else if type = unitsOfText "connected" then (connectionIdOf members).map .connected
      else if type = unitsOfText "disconnected" then (connectionIdOf members).map .disconnected
      else none
    | _ => none
  | _ => none

/-- The connections that a message announces. -/
def ControlMessage.announces : ControlMessage → List Units
  | .sync ids => ids
  | .connected id => [id]
  | _ => []

/-! ## Sockets and timers -/

inductive Role
  | control
  | data (connectionId : Units)
  deriving DecidableEq

/-- How far `attachEncryptedSocket` has come: it waits for the channel, or for `attachSocket`. -/
inductive Handshake
  | channel | attaching | settled
  deriving DecidableEq

inductive TimerKind
  | reconnect (delayMs : ℕ)
  | controlReady (socket : ℕ)
  | keepalive (socket : ℕ)
  | dataOpen (socket : ℕ)
  deriving DecidableEq

structure Timer where
  id : ℕ
  kind : TimerKind
  deriving DecidableEq

/-- A socket with what the handlers on it hold, whether it was told to close (or terminated), and
whether it has reported its close. -/
structure Socket where
  role : Role
  controlConnected : Bool
  openTimeout : Option Timer
  attached : Bool
  handshake : Option Handshake
  told : Bool
  closed : Bool
  deriving DecidableEq

/-- The variables of `startRelayTransport`, the sockets it has created, the timers that are armed,
and the sockets that were given to `attachSocket`. -/
structure State where
  stopped : Bool
  controlWs : Option ℕ
  reconnectTimeout : Option Timer
  reconnectAttempt : ℕ
  dataSockets : OrderedMap Units ℕ
  controlKeepaliveInterval : Option Timer
  controlReadyTimeout : Option Timer
  controlLastSeenAt : ℕ
  controlConnectionSeq : ℕ
  sockets : List Socket
  armed : Finset Timer
  timerCount : ℕ
  attachments : List ℕ

namespace State

/-- The handlers' part of a socket is changed. -/
def modify (st : State) (s : ℕ) (f : Socket → Socket) : State :=
  { st with sockets := st.sockets.modify s f }

/-- `close` or `terminate`. -/
def tell (st : State) (s : ℕ) : State := st.modify s fun socket => { socket with told := true }

def tellAll (st : State) (ss : List ℕ) : State := ss.foldl tell st

def createWebSocket (st : State) (role : Role) : State :=
  { st with sockets := st.sockets ++ [⟨role, false, none, false, none, false, false⟩] }

def clear (st : State) (timer : Option Timer) : State :=
  { st with armed := st.armed.filter fun t => timer ≠ some t }

/-- `setTimeout` and `setInterval`; the timer that is armed. -/
def nextTimer (st : State) (kind : TimerKind) : Timer := ⟨st.timerCount, kind⟩

def arm (st : State) (kind : TimerKind) : State :=
  { st with armed := insert (st.nextTimer kind) st.armed, timerCount := st.timerCount + 1 }

def clearReconnectTimeout (st : State) : State :=
  { st.clear st.reconnectTimeout with reconnectTimeout := none }

def clearControlKeepaliveInterval (st : State) : State :=
  { st.clear st.controlKeepaliveInterval with controlKeepaliveInterval := none }

def clearControlReadyTimeout (st : State) : State :=
  { st.clear st.controlReadyTimeout with controlReadyTimeout := none }

/-! ## The transport -/

def stop (st : State) : State :=
  let st := { st with stopped := true }
  let st := st.clearReconnectTimeout.clearControlKeepaliveInterval.clearControlReadyTimeout
  let st :=
    match st.controlWs with
    | some s => { st.tell s with controlWs := none }
    | none => st
  { st.tellAll (st.dataSockets.entries.map Prod.snd) with dataSockets := ∅ }

def connectControl (st : State) : State :=
  if st.stopped then
    st
  else
    { st.createWebSocket .control with
      controlConnectionSeq := st.controlConnectionSeq + 1
      controlWs := some st.sockets.length }

def scheduleReconnect (st : State) : State :=
  if st.stopped ∨ st.reconnectTimeout ≠ none then
    st
  else
    let kind := .reconnect (min 30000 (1000 * (st.reconnectAttempt + 1)))
    { st.arm kind with
      reconnectAttempt := st.reconnectAttempt + 1
      reconnectTimeout := some (st.nextTimer kind) }

def ensureClientDataSocket (st : State) (connectionId : Units) : State :=
  if st.stopped ∨ connectionId = [] ∨ connectionId ∈ st.dataSockets.keys then
    st
  else
    let s := st.sockets.length
    let st :=
      { st.createWebSocket (.data connectionId) with
        dataSockets := st.dataSockets.set connectionId s }
    (st.arm (.dataOpen s)).modify s fun socket =>
      { socket with openTimeout := some (st.nextTimer (.dataOpen s)) }

def markControlReady (st : State) (s : ℕ) (controlConnected : Bool) : State :=
  if controlConnected then
    st
  else
    { st.modify s fun socket => { socket with controlConnected := true } with
      reconnectAttempt := 0 }.clearControlReadyTimeout

def handleControlMessage (st : State) : ControlMessage → State
  | .ping => st
  | .pong => st
  | .sync connectionIds => connectionIds.foldl ensureClientDataSocket st
  | .connected connectionId => st.ensureClientDataSocket connectionId
  | .disconnected connectionId =>
    match st.dataSockets.get connectionId with
    | some existing =>
      { st.tell existing with dataSockets := st.dataSockets.delete connectionId }
    | none => st

/-! ## What the sockets report -/

/-- A control socket opened; the first ping on it may fail. -/
def onControlOpen (st : State) (s now : ℕ) (pingFails : Bool) : State :=
  let st := { st with controlLastSeenAt := now }
  let st := st.clearControlKeepaliveInterval.clearControlReadyTimeout
  let st :=
    { st.arm (.controlReady s) with controlReadyTimeout := some (st.nextTimer (.controlReady s)) }
  let st :=
    { st.arm (.keepalive s) with controlKeepaliveInterval := some (st.nextTimer (.keepalive s)) }
  if pingFails then st.tell s else st

def onDataOpen (encrypted : Bool) (st : State) (s : ℕ) (socket : Socket) : State :=
  let st := st.clear socket.openTimeout
  if socket.attached then
    st
  else if encrypted then
    st.modify s fun socket => { socket with attached := true, handshake := some .channel }
  else
    { st.modify s fun socket => { socket with attached := true } with
      attachments := st.attachments ++ [s] }

def onControlMessage (st : State) (s now : ℕ) (socket : Socket) (text : List Char) : State :=
  let st := { st with controlLastSeenAt := now }
  match tryParseControlMessage text with
  | some message => (st.markControlReady s socket.controlConnected).handleControlMessage message
  | none => st

def onControlClose (st : State) : State :=
  { st with controlWs := none }.clearControlKeepaliveInterval.clearControlReadyTimeout.scheduleReconnect

def onDataClose (st : State) (s : ℕ) (socket : Socket) (connectionId : Units) : State :=
  let st := st.clear socket.openTimeout
  if st.dataSockets.get connectionId = some s then
    { st with dataSockets := st.dataSockets.delete connectionId }
  else
    st

/-! ## What the timers do -/

def CONTROL_STALE_TIMEOUT_MS : ℕ := 30000

/-- `isOpen` is what the socket's `readyState` says when the timer fires. -/
def onTimer (st : State) (timer : Timer) (now : ℕ) (isOpen pingFails : Bool) : State :=
  match timer.kind with
  | .reconnect _ => ({ st.clear (some timer) with reconnectTimeout := none }).connectControl
  | .controlReady s =>
    let st := st.clear (some timer)
    if st.stopped ∨ st.controlWs ≠ some s ∨
        (st.sockets[s]?.map Socket.controlConnected) = some true then
      st
    else
      st.tell s
  | .keepalive s =>
    if st.stopped ∨ st.controlWs ≠ some s ∨ isOpen = false then st
    else if now - st.controlLastSeenAt > CONTROL_STALE_TIMEOUT_MS ∨ pingFails then st.tell s
    else st
  | .dataOpen s =>
    let st := st.clear (some timer)
    if st.stopped ∨ isOpen then st else st.tell s

end State

/-! ## Steps -/

inductive Event
  | socketOpen (s now : ℕ) (pingFails : Bool)
  | socketMessage (s now : ℕ) (text : List Char)
  | socketPong (s now : ℕ)
  | socketError (s : ℕ)
  | socketClose (s : ℕ)
  | timerFires (timer : Timer) (now : ℕ) (isOpen pingFails : Bool)
  | stop
  /-- `createDaemonChannel` resolves or rejects -/
  | channelSettles (s : ℕ) (resolves : Bool)
  /-- `attachSocket` resolves or rejects -/
  | attachSettles (s : ℕ) (resolves : Bool)
  /-- whoever got the socket from `attachSocket` closes it -/
  | ownerCloses (s : ℕ)

/-- The socket that reports an event. -/
def Event.socket : Event → Option ℕ
  | .socketOpen s _ _ | .socketMessage s _ _ | .socketPong s _ | .socketError s | .socketClose s =>
    some s
  | _ => none

namespace State

/-- What the handlers of a control socket do, all behind the test that it is the current one. -/
def onControlEvent (st : State) (s : ℕ) (socket : Socket) : Event → State
  | .socketOpen _ now pingFails => if st.controlWs = some s then st.onControlOpen s now pingFails else st
  | .socketMessage _ now text =>
    if st.controlWs = some s then st.onControlMessage s now socket text else st
  | .socketPong _ now =>
    if st.controlWs = some s then { st with controlLastSeenAt := now } else st
  | .socketClose _ => if st.controlWs = some s then st.onControlClose else st
  | _ => st

/-- What the handlers of a data socket do. -/
def onDataEvent (encrypted : Bool) (st : State) (s : ℕ) (socket : Socket) (connectionId : Units) :
    Event → State
  | .socketOpen _ _ _ => st.onDataOpen encrypted s socket
  | .socketClose _ => st.onDataClose s socket connectionId
  | _ => st

/-- A socket has reported its close. -/
def report (st : State) : Event → State
  | .socketClose s => st.modify s fun socket => { socket with closed := true }
  | _ => st

/-- The handlers on the socket that reports an event. -/
def onSocketEvent (encrypted : Bool) (st : State) (s : ℕ) (event : Event) : State :=
  match st.sockets[s]? with
  | none => st
  | some socket =>
    match socket.role with
    | .control => (st.report event).onControlEvent s socket event
    | .data connectionId => (st.report event).onDataEvent encrypted s socket connectionId event

def step (encrypted : Bool) (st : State) : Event → State
  | .timerFires timer now isOpen pingFails => st.onTimer timer now isOpen pingFails
  | .stop => st.stop
  | .channelSettles s true =>
    { st.modify s fun socket => { socket with handshake := some .attaching } with
      attachments := st.attachments ++ [s] }
  | .attachSettles s true => st.modify s fun socket => { socket with handshake := some .settled }
  | .channelSettles s false | .attachSettles s false =>
    (st.modify s fun socket => { socket with handshake := some .settled }).tell s
  | .ownerCloses s => st.tell s
  | .socketOpen s now pingFails => st.onSocketEvent encrypted s (.socketOpen s now pingFails)
  | .socketMessage s now text => st.onSocketEvent encrypted s (.socketMessage s now text)
  | .socketPong s now => st.onSocketEvent encrypted s (.socketPong s now)
  | .socketError s => st.onSocketEvent encrypted s (.socketError s)
  | .socketClose s => st.onSocketEvent encrypted s (.socketClose s)

/-- A socket reports its close once, a timer fires while it is armed, and what settles was under
way. -/
def Possible (st : State) : Event → Prop
  | .socketOpen s _ _ | .socketMessage s _ _ | .socketPong s _ | .socketError s =>
    s < st.sockets.length
  | .socketClose s => ∃ socket, st.sockets[s]? = some socket ∧ socket.closed = false
  | .timerFires timer _ _ _ => timer ∈ st.armed
  | .stop => True
  | .channelSettles s _ =>
    ∃ socket, st.sockets[s]? = some socket ∧ socket.handshake = some .channel
  | .attachSettles s _ =>
    ∃ socket, st.sockets[s]? = some socket ∧ socket.handshake = some .attaching
  | .ownerCloses s => s ∈ st.attachments

def initial : State :=
  ⟨false, none, none, 0, ∅, none, none, 0, 0, [], ∅, 0, []⟩

def startRelayTransport : State := initial.connectControl

end State

/-- The states that the transport comes to. -/
inductive Reached (encrypted : Bool) : State → Prop
  | start : Reached encrypted State.startRelayTransport
  | step {st : State} (reached : Reached encrypted st) (event : Event) (possible : st.Possible event) :
      Reached encrypted (st.step encrypted event)

end Orqara.RelayTransport
