import Orqara.Library.Json
import Orqara.Library.JsString

/-!
# The encrypted channel

One side of an end-to-end encrypted connection: the handshake of the daemon, the channel of
either side, and the frames that they are sent and send. A text frame is given by what is
read of it, and a ciphertext by what it was sealed with.
-/

namespace Orqara.Relay

/-! ## Frames -/

/-- `string | ArrayBuffer` -/
inductive Payload
  | text (s : String)
  | bytes (b : ByteArray)
  deriving DecidableEq

def Payload.toUint8 : Payload → ByteArray
  | .text s => s.toUTF8
  | .bytes b => b

/-- The decoder drops a byte order mark. -/
def stripBom (s : String) : String :=
  match s.toList with
  | [] => s
  | c :: cs => if c = '\uFEFF' then String.ofList cs else s

/-- `new TextDecoder("utf-8", { fatal: true }).decode(data)` -/
def decodeUtf8 (data : ByteArray) : Option String :=
  (String.fromUTF8? data).map stripBom

def decodeLegacyPlaintext (data : ByteArray) : Payload :=
  match decodeUtf8 data with
  | some s => .text s
  | none => .bytes data

def decodePlaintext (data : ByteArray) : Option Bool → Option Payload
  | some true => some (.bytes data)
  | some false => (decodeUtf8 data).map .text
  | none => some (decodeLegacyPlaintext data)

/-- What a key has sealed, or bytes that no key opens. -/
inductive Bundle (κ : Type*)
  | box (sharedKey : κ) (plaintext : ByteArray)
  | junk
  deriving DecidableEq

/-- A text as it is read: by `JSON.parse`, for the brace that it starts with when it is
trimmed, and by `base64ToArrayBuffer`. -/
structure WireText (κ : Type*) where
  json : Option Json
  startsWithBrace : Bool
  base64 : Option (Bundle κ)

/-- A message with its data as text, and its data as bytes where it has bytes. -/
structure TransportMessage (κ : Type*) where
  isBinary : Bool
  text : WireText κ
  bytes : Option (Bundle κ)

section Messages

def isE2EECapabilities : Option Json → Bool
  | none => true
  | some (.obj fields) =>
    match fields.lookup "binaryCiphertext" with
    | none | some (.bool _) => true
    | some _ => false
  | some _ => false

def supportsBinaryCiphertext : Option Json → Bool
  | some (.obj fields) =>
    match fields.lookup "binaryCiphertext" with
    | some (.bool true) => true
    | _ => false
  | _ => false

structure E2EEHelloMessage where
  key : String
  capabilities : Option Json

structure E2EEReadyMessage where
  capabilities : Option Json

/-- `isE2EEHelloMessage`, with the message that it finds. -/
def asE2EEHelloMessage : Json → Option E2EEHelloMessage
  | .obj fields =>
    match fields.lookup "type", fields.lookup "key" with
    | some (.str type), some (.str key) =>
      if type = "e2ee_hello" ∧ 0 < (trim key).length ∧
          isE2EECapabilities (fields.lookup "capabilities") = true then
        some { key, capabilities := fields.lookup "capabilities" }
      else none
    | _, _ => none
  | _ => none

/-- `isE2EEReadyMessage`, with the message that it finds. -/
def asE2EEReadyMessage : Json → Option E2EEReadyMessage
  | .obj fields =>
    match fields.lookup "type" with
    | some (.str type) =>
      if type = "e2ee_ready" ∧ isE2EECapabilities (fields.lookup "capabilities") = true then
        some { capabilities := fields.lookup "capabilities" }
      else none
    | _ => none
  | _ => none

variable {κ : Type*}

/-- A text frame of a JSON object, which is no base64 of a ciphertext. -/
def jsonMessage (fields : Record) : TransportMessage κ where
  isBinary := false
  text := { json := some (.obj fields), startsWithBrace := true, base64 := some .junk }
  bytes := none

def helloMessage (key : String) : TransportMessage κ :=
  jsonMessage [("type", .str "e2ee_hello"), ("key", .str key),
    ("capabilities", .obj [("binaryCiphertext", .bool true)])]

def readyMessage (binaryCiphertext : Bool) : TransportMessage κ :=
  jsonMessage (("type", .str "e2ee_ready") ::
    if binaryCiphertext then [("capabilities", .obj [("binaryCiphertext", .bool true)])] else [])

/-- A ciphertext as a binary frame. -/
def binaryMessage (ciphertext : Bundle κ) : TransportMessage κ where
  isBinary := true
  text := { json := none, startsWithBrace := false, base64 := none }
  bytes := some ciphertext

/-- A ciphertext as a base64 text frame. -/
def base64Message (ciphertext : Bundle κ) : TransportMessage κ where
  isBinary := false
  text := { json := none, startsWithBrace := false, base64 := some ciphertext }
  bytes := none

end Messages

/-! ## Channels -/

inductive ChannelState
  | handshaking | opened | closed
  deriving DecidableEq, Repr

/-- A call of `handleMessage` that has its ciphertext, or has failed, and goes on in a
later turn. -/
inductive Handling (κ : Type*)
  | ciphertext (data : Bundle κ) (isBinary : Option Bool)
  | failed

/-- `flushing` are the items of a flush whose last send is awaited, and `rehellos` the
repeated hellos whose answer is. -/
structure EncryptedChannel (κ : Type*) where
  sharedKey : κ
  daemonKeyPair : Bool
  binaryCiphertext : Bool
  state : ChannelState
  pendingSends : List Payload
  flushing : Option (List Payload)
  handling : List (Handling κ)
  rehellos : List (TransportMessage κ)

/-- What `onmessage` is called with, and the ciphertext that it was opened from. -/
structure OpenedMessage (κ : Type*) where
  bundle : Bundle κ
  data : Payload

/-- How far a side has come: the daemon waits for the hello, sends its answer while frames
are buffered, or has given up on a hello and only buffers frames. -/
inductive Phase (κ : Type*)
  | waiting
  | replying (sharedKey : κ) (binaryCiphertext : Bool) (bufferedMessages : List (TransportMessage κ))
  | abandoned
  | created (channel : EncryptedChannel κ)

/-- A side with what it did so far: the frames sent, the calls of `onmessage` and
`onopen`, and the codes that the transport was closed with. -/
structure Peer (κ : Type*) where
  phase : Phase κ
  transportClosed : Bool
  firstHello : Option String
  helloText : Option (TransportMessage κ)
  sent : List (TransportMessage κ)
  messages : List (OpenedMessage κ)
  opened : ℕ
  closes : List ℕ

def maxPendingSends : ℕ := 200

/-- What an application calls on its channel. -/
inductive ChannelCall
  | send (data : Payload)
  | close (code : ℕ)

section Channel

variable {κ : Type*}

def encrypt (sharedKey : κ) (data : Payload) : Bundle κ := .box sharedKey data.toUint8

def decrypt [DecidableEq κ] (sharedKey : κ) : Bundle κ → Option ByteArray
  | .box key plaintext => if key = sharedKey then some plaintext else none
  | .junk => none

/-- The frame that `send` makes of a message. -/
def EncryptedChannel.outbound (channel : EncryptedChannel κ) (data : Payload) :
    TransportMessage κ :=
  match channel.binaryCiphertext, data with
  | true, .bytes _ => binaryMessage (encrypt channel.sharedKey data)
  | _, _ => base64Message (encrypt channel.sharedKey data)

/-- The ciphertext of a frame, as the negotiated mode reads it. -/
def EncryptedChannel.readCiphertext (channel : EncryptedChannel κ) (message : TransportMessage κ) :
    Handling κ :=
  if channel.binaryCiphertext then
    if message.isBinary then message.bytes.elim .failed (.ciphertext · (some true))
    else message.text.base64.elim .failed (.ciphertext · (some false))
  else if message.isBinary then
    match message.text.base64 with
    | some data => .ciphertext data none
    | none => message.bytes.elim .failed (.ciphertext · none)
  else message.text.base64.elim .failed (.ciphertext · none)

namespace Peer

def channel? (p : Peer κ) : Option (EncryptedChannel κ) :=
  match p.phase with
  | .created channel => some channel
  | _ => none

def setChannel (p : Peer κ) (channel : EncryptedChannel κ) : Peer κ :=
  { p with phase := .created channel }

def transportSend (p : Peer κ) (message : TransportMessage κ) : Peer κ :=
  { p with sent := p.sent ++ [message] }

def transportClose (p : Peer κ) (code : ℕ) : Peer κ :=
  { p with closes := p.closes ++ [code] }

def send (p : Peer κ) (channel : EncryptedChannel κ) (data : Payload) : Peer κ :=
  match channel.state with
  | .handshaking =>
    let pending :=
      if maxPendingSends ≤ channel.pendingSends.length then channel.pendingSends.tail
      else channel.pendingSends
    p.setChannel { channel with pendingSends := pending ++ [data] }
  | .opened => p.transportSend (channel.outbound data)
  | .closed => p

def close (p : Peer κ) (channel : EncryptedChannel κ) (code : ℕ) : Peer κ :=
  (p.setChannel { channel with state := .closed }).transportClose code

def call (p : Peer κ) (call : ChannelCall) : Peer κ :=
  match p.channel? with
  | none => p
  | some channel =>
    match call with
    | .send data => p.send channel data
    | .close code => p.close channel code

/-- The loop of `flushPendingSends`, up to the next send that is awaited. -/
def flushItems (p : Peer κ) (channel : EncryptedChannel κ) : List Payload → Peer κ
  | [] => p.setChannel { channel with flushing := none }
  | item :: items =>
    if channel.state = .opened then
      (p.setChannel { channel with flushing := some items }).transportSend (channel.outbound item)
    else (p.setChannel { channel with state := .closed, flushing := none }).transportClose 1011

def flushPendingSends (p : Peer κ) : Peer κ :=
  match p.channel? with
  | none => p
  | some channel =>
    if channel.state = .opened then
      p.flushItems { channel with pendingSends := [] } channel.pendingSends
    else p

/-- `calls` are what the application does in `onopen`. -/
def becomeOpen (p : Peer κ) (channel : EncryptedChannel κ) (ready : E2EEReadyMessage)
    (calls : List ChannelCall) : Peer κ :=
  let opened :=
    { p with
      phase := .created
        { channel with
          binaryCiphertext := supportsBinaryCiphertext ready.capabilities, state := .opened }
      opened := p.opened + 1 }
  (calls.foldl Peer.call opened).flushPendingSends

variable [DecidableEq κ] (deriveSharedKey : String → Option κ)

def handleDaemonRehello (p : Peer κ) (channel : EncryptedChannel κ) (message : TransportMessage κ)
    (hello : E2EEHelloMessage) : Peer κ :=
  match deriveSharedKey hello.key with
  | none => p.setChannel { channel with handling := channel.handling ++ [channel.readCiphertext message] }
  | some retryKey =>
    if retryKey ≠ channel.sharedKey then
      (p.setChannel { channel with state := .closed }).transportClose 1008
    else
      (p.setChannel { channel with rehellos := channel.rehellos ++ [message] }).transportSend
        (readyMessage channel.binaryCiphertext)

/-- `handleMessage` of an open channel, up to the end of its turn. -/
def handleOpenMessage (p : Peer κ) (channel : EncryptedChannel κ) (message : TransportMessage κ) :
    Peer κ :=
  if message.isBinary = false ∧ message.text.startsWithBrace = true then
    match message.text.json with
    | none =>
      p.setChannel { channel with handling := channel.handling ++ [channel.readCiphertext message] }
    | some parsed =>
      match asE2EEHelloMessage parsed with
      | some hello =>
        if channel.daemonKeyPair then p.handleDaemonRehello deriveSharedKey channel message hello else p
      | none =>
        if (asE2EEReadyMessage parsed).isSome then p
        else p.setChannel { channel with handling := channel.handling ++ [.failed] }
  else p.setChannel { channel with handling := channel.handling ++ [channel.readCiphertext message] }

def handleMessage (p : Peer κ) (channel : EncryptedChannel κ) (message : TransportMessage κ)
    (calls : List ChannelCall) : Peer κ :=
  match channel.state with
  | .handshaking =>
    if message.isBinary then p
    else
      match message.text.json.bind asE2EEReadyMessage with
      | none => p
      | some ready => p.becomeOpen channel ready calls
  | .opened => p.handleOpenMessage deriveSharedKey channel message
  | .closed => p

/-- The next turn of the first message that is being handled. -/
def continueHandling (p : Peer κ) : Peer κ :=
  match p.channel? with
  | none => p
  | some channel =>
    match channel.handling with
    | [] => p
    | .failed :: handling => (p.setChannel { channel with handling }).transportClose 1011
    | .ciphertext data isBinary :: handling =>
      match (decrypt channel.sharedKey data).bind (decodePlaintext · isBinary) with
      | none => (p.setChannel { channel with handling }).transportClose 1011
      | some plaintext =>
        { p.setChannel { channel with handling } with
          messages := p.messages ++ [{ bundle := data, data := plaintext }] }

/-- The awaited answer to a repeated hello was sent, or its send was rejected. -/
def rehelloAnswered (p : Peer κ) (sends : Bool) : Peer κ :=
  match p.channel? with
  | none => p
  | some channel =>
    match channel.rehellos with
    | [] => p
    | message :: rehellos =>
      if sends then p.setChannel { channel with rehellos }
      else
        p.setChannel
          { channel with
            rehellos, handling := channel.handling ++ [channel.readCiphertext message] }

/-- The awaited send of a flush ended. -/
def flushAwaited (p : Peer κ) (sends : Bool) : Peer κ :=
  match p.channel? with
  | none => p
  | some channel =>
    match channel.flushing with
    | none => p
    | some items =>
      if sends then p.flushItems channel items
      else (p.setChannel { channel with state := .closed, flushing := none }).transportClose 1011

/-! ## The daemon's handshake -/

def handleHello (p : Peer κ) (message : TransportMessage κ) : Peer κ :=
  if message.isBinary then p
  else
    match message.text.json.bind asE2EEHelloMessage with
    | none => p
    | some hello =>
      let binaryCiphertext := supportsBinaryCiphertext hello.capabilities
      match deriveSharedKey hello.key with
      | none => { p with phase := .abandoned }
      | some sharedKey =>
        { p with
          phase := .replying sharedKey binaryCiphertext []
          firstHello := some hello.key
          sent := p.sent ++ [readyMessage binaryCiphertext] }

def shouldIgnorePostHelloPlaintext (message : TransportMessage κ) : Bool :=
  !message.isBinary &&
    match message.text.json with
    | none => false
    | some parsed => (asE2EEHelloMessage parsed).isSome || (asE2EEReadyMessage parsed).isSome

/-- A message for the channel that is installed. -/
def onmessage (p : Peer κ) (message : TransportMessage κ) (calls : List ChannelCall) : Peer κ :=
  match p.channel? with
  | none => p
  | some channel => p.handleMessage deriveSharedKey channel message calls

/-- The daemon's answer was sent, or its send was rejected. -/
def helloAnswered (p : Peer κ) (sends : Bool) : Peer κ :=
  match p.phase with
  | .replying sharedKey binaryCiphertext bufferedMessages =>
    if sends then
      let created :=
        { p with
          phase := .created
            { sharedKey, daemonKeyPair := true, binaryCiphertext, state := .opened
              pendingSends := [], flushing := none, handling := [], rehellos := [] }
          opened := p.opened + 1 }
      (bufferedMessages.filter fun message => !shouldIgnorePostHelloPlaintext message).foldl
        (fun p message => p.onmessage deriveSharedKey message []) created
    else { p with phase := .abandoned }
  | _ => p

/-- A frame that the transport delivers. -/
def deliver (p : Peer κ) (message : TransportMessage κ) (calls : List ChannelCall) : Peer κ :=
  if p.transportClosed then p
  else
    match p.phase with
    | .waiting => p.handleHello deriveSharedKey message
    | .replying sharedKey binaryCiphertext bufferedMessages =>
      { p with phase := .replying sharedKey binaryCiphertext (bufferedMessages ++ [message]) }
    | .abandoned => p
    | .created _ => p.onmessage deriveSharedKey message calls

/-- The transport's `onclose`. -/
def onclose (p : Peer κ) : Peer κ :=
  match p.channel? with
  | none => { p with transportClosed := true }
  | some channel =>
    { p.setChannel { channel with state := .closed } with transportClosed := true }

/-- The client's handshake timer. -/
def retryHello (p : Peer κ) : Peer κ :=
  match p.helloText, p.channel? with
  | some hello, some channel =>
    if p.opened = 0 ∧ channel.state ≠ .opened ∧ p.transportClosed = false then p.transportSend hello
    else p
  | _, _ => p

/-- `createEncryptedRelaySocket`, which the daemon calls with its channel. -/
def createEncryptedRelaySocket (p : Peer κ) : Peer κ :=
  match p.channel? with
  | none => p
  | some channel =>
    if channel.daemonKeyPair then p.setChannel { channel with state := .opened } else p

end Peer

/-- What happens to one side: turns of its own, calls of its application, and events of its
transport. -/
inductive ChannelOp (κ : Type*)
  | deliver (message : TransportMessage κ) (calls : List ChannelCall)
  | helloAnswered (sends : Bool)
  | continueHandling
  | rehelloAnswered (sends : Bool)
  | flushAwaited (sends : Bool)
  | retryHello
  | call (call : ChannelCall)
  | createEncryptedRelaySocket
  | onclose

variable [DecidableEq κ] (deriveSharedKey : String → Option κ)

def Peer.step (p : Peer κ) : ChannelOp κ → Peer κ
  | .deliver message calls => p.deliver deriveSharedKey message calls
  | .helloAnswered sends => p.helloAnswered deriveSharedKey sends
  | .continueHandling => p.continueHandling
  | .rehelloAnswered sends => p.rehelloAnswered sends
  | .flushAwaited sends => p.flushAwaited sends
  | .retryHello => p.retryHello
  | .call call => p.call call
  | .createEncryptedRelaySocket => p.createEncryptedRelaySocket
  | .onclose => p.onclose

def Peer.run (p : Peer κ) (ops : List (ChannelOp κ)) : Peer κ :=
  ops.foldl (Peer.step deriveSharedKey) p

end Channel

variable {κ : Type*}

/-- `createDaemonChannel`, before the first frame. -/
def Peer.createDaemonChannel : Peer κ where
  phase := .waiting
  transportClosed := false
  firstHello := none
  helloText := none
  sent := []
  messages := []
  opened := 0
  closes := []

/-- `createClientChannel`, with the public key that the hello says. -/
def Peer.createClientChannel (sharedKey : κ) (publicKey : String) : Peer κ where
  phase := .created
    { sharedKey, daemonKeyPair := false, binaryCiphertext := false, state := .handshaking
      pendingSends := [], flushing := none, handling := [], rehellos := [] }
  transportClosed := false
  firstHello := none
  helloText := some (helloMessage publicKey)
  sent := [helloMessage publicKey]
  messages := []
  opened := 0
  closes := []

end Orqara.Relay
