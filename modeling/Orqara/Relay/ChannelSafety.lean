import Orqara.Relay.EncryptedChannel

/-!
# The channel against the relay

Whatever frames the relay delivers, only what was sealed with the key of the first hello
reaches the application, and a closed channel stays closed unless it was closed during the
daemon's answer.
-/

namespace Orqara.Relay

open Peer

variable {κ : Type*} {p p' p'' : Peer κ} {channel channel' channel'' : EncryptedChannel κ}

namespace Peer

@[simp] theorem channel?_setChannel : (p.setChannel channel).channel? = some channel := rfl

@[simp] theorem channel?_transportSend (message : TransportMessage κ) :
    (p.transportSend message).channel? = p.channel? := rfl

@[simp] theorem channel?_transportClose (code : ℕ) :
    (p.transportClose code).channel? = p.channel? := rfl

end Peer

/-! ## What a channel keeps -/

/-- The payload was opened with the key. -/
def OpensUnder (sharedKey : κ) (message : OpenedMessage κ) : Prop :=
  ∃ plaintext isBinary, message.bundle = .box sharedKey plaintext ∧
    decodePlaintext plaintext isBinary = some message.data

/-- Nothing more will reach the application. -/
def EncryptedChannel.Quiet (channel : EncryptedChannel κ) : Prop :=
  channel.state = .closed ∧ channel.handling = [] ∧ channel.rehellos = []

/-- The frame is a hello of another key, to an open channel of the daemon. -/
def EncryptedChannel.changesKey [DecidableEq κ] (channel : EncryptedChannel κ)
    (deriveSharedKey : String → Option κ) (message : TransportMessage κ) : Bool :=
  channel.state = .opened && channel.daemonKeyPair && !message.isBinary &&
    message.text.startsWithBrace &&
    match (message.text.json.bind asE2EEHelloMessage).bind fun hello => deriveSharedKey hello.key with
    | none => false
    | some key => key ≠ channel.sharedKey

section

variable (h : p.channel? = some channel)
include h

theorem phase_of_channel? : p.phase = .created channel := by
  unfold channel? at h
  split at h
  · rename_i found hphase
    rw [hphase, Option.some.inj h]
  · cases h

/-- What a side with a channel keeps from one moment to another. -/
structure Continues (p p' : Peer κ) (channel channel' : EncryptedChannel κ) : Prop where
  from_channel : p.channel? = some channel
  to_channel : p'.channel? = some channel'
  sharedKey : channel'.sharedKey = channel.sharedKey
  daemonKeyPair : channel'.daemonKeyPair = channel.daemonKeyPair
  firstHello : p'.firstHello = p.firstHello
  messages : ∃ more, p'.messages = p.messages ++ more ∧
    ∀ message ∈ more, OpensUnder channel.sharedKey message
  closed : channel.state = .closed → channel'.state = .closed ∧ p'.opened = p.opened
  quiet : channel.Quiet → channel'.Quiet ∧ p'.messages = p.messages

theorem Continues.refl : Continues p p channel channel where
  from_channel := h
  to_channel := h
  sharedKey := rfl
  daemonKeyPair := rfl
  firstHello := rfl
  messages := ⟨[], by simp, by simp⟩
  closed := fun hclosed => ⟨hclosed, rfl⟩
  quiet := fun hquiet => ⟨hquiet, rfl⟩

omit h in
theorem Continues.trans (h : Continues p p' channel channel')
    (h' : Continues p' p'' channel' channel'') : Continues p p'' channel channel'' where
  from_channel := h.from_channel
  to_channel := h'.to_channel
  sharedKey := h'.sharedKey.trans h.sharedKey
  daemonKeyPair := h'.daemonKeyPair.trans h.daemonKeyPair
  firstHello := h'.firstHello.trans h.firstHello
  messages := by
    obtain ⟨more, hmessages, hopens⟩ := h.messages
    obtain ⟨more', hmessages', hopens'⟩ := h'.messages
    refine ⟨more ++ more', by rw [hmessages', hmessages, List.append_assoc], ?_⟩
    intro message hmem
    rcases List.mem_append.mp hmem with hmore | hmore
    · exact hopens message hmore
    · rw [← h.sharedKey]
      exact hopens' message hmore
  closed := by
    intro hclosed
    obtain ⟨hstate, hopened⟩ := h.closed hclosed
    obtain ⟨hstate', hopened'⟩ := h'.closed hstate
    exact ⟨hstate', hopened'.trans hopened⟩
  quiet := by
    intro hquiet
    obtain ⟨hstate, hmessages⟩ := h.quiet hquiet
    obtain ⟨hstate', hmessages'⟩ := h'.quiet hstate
    exact ⟨hstate', hmessages'.trans hmessages⟩

/-- A side that has told its application nothing. -/
theorem Continues.silent (h' : p'.channel? = some channel')
    (hsharedKey : channel'.sharedKey = channel.sharedKey)
    (hdaemon : channel'.daemonKeyPair = channel.daemonKeyPair)
    (hlogs : p'.firstHello = p.firstHello ∧ p'.messages = p.messages)
    (hclosed : channel.state = .closed → channel'.state = .closed ∧ p'.opened = p.opened)
    (hquiet : channel.Quiet → channel'.Quiet) : Continues p p' channel channel' where
  from_channel := h
  to_channel := h'
  sharedKey := hsharedKey
  daemonKeyPair := hdaemon
  firstHello := hlogs.1
  messages := ⟨[], by rw [hlogs.2, List.append_nil], by simp⟩
  closed := hclosed
  quiet := fun h => ⟨hquiet h, hlogs.2⟩

/-! ## Calls -/

theorem continues_send (data : Payload) :
    ∃ channel', Continues p (p.send channel data) channel channel' := by
  unfold send
  cases hstate : channel.state with
  | handshaking =>
    refine ⟨_, .silent h rfl rfl rfl ⟨rfl, rfl⟩ ?_ ?_⟩
    · intro hclosed
      rw [hstate] at hclosed
      cases hclosed
    · rintro ⟨hclosed, -, -⟩
      rw [hstate] at hclosed
      cases hclosed
  | opened =>
    exact ⟨channel, .silent h h rfl rfl ⟨rfl, rfl⟩ (fun hclosed => ⟨hclosed, rfl⟩) id⟩
  | closed => exact ⟨channel, .refl h⟩

/-- A channel that is closed now. -/
theorem continues_closed (hp' : p'.channel? = some channel')
    (hsame : channel' = { channel with state := .closed, flushing := channel'.flushing })
    (hlogs : p'.firstHello = p.firstHello ∧ p'.messages = p.messages) (hopened : p'.opened = p.opened) :
    Continues p p' channel channel' := by
  apply Continues.silent h hp' (by rw [hsame]) (by rw [hsame]) hlogs
  · intro _
    exact ⟨by rw [hsame], hopened⟩
  · rintro ⟨-, hhandling, hrehellos⟩
    rw [hsame]
    exact ⟨rfl, hhandling, hrehellos⟩

theorem continues_call (call : ChannelCall) :
    ∃ channel', Continues p (p.call call) channel channel' := by
  unfold Peer.call
  rw [h]
  cases call with
  | send data => exact continues_send h data
  | close code => exact ⟨_, continues_closed h rfl rfl ⟨rfl, rfl⟩ rfl⟩

omit h in
theorem continues_calls (calls : List ChannelCall) :
    ∀ {p : Peer κ} {channel : EncryptedChannel κ}, p.channel? = some channel →
      ∃ channel', Continues p (calls.foldl call p) channel channel' := by
  induction calls with
  | nil => exact fun h => ⟨_, .refl h⟩
  | cons call calls ih =>
    intro p channel h
    obtain ⟨middle, hcall⟩ := continues_call h call
    obtain ⟨channel', hcalls⟩ := ih hcall.to_channel
    exact ⟨channel', hcall.trans hcalls⟩

theorem continues_flushItems (items : List Payload) (pending : List Payload) :
    ∃ channel', Continues p (p.flushItems { channel with pendingSends := pending } items)
      channel channel' := by
  cases items with
  | nil =>
    exact ⟨_, .silent h rfl rfl rfl ⟨rfl, rfl⟩ (fun hclosed => ⟨hclosed, rfl⟩) id⟩
  | cons item items =>
    by_cases hopened : channel.state = .opened
    · rw [flushItems, if_pos hopened]
      exact ⟨_, .silent h rfl rfl rfl ⟨rfl, rfl⟩ (fun hclosed => ⟨hclosed, rfl⟩) id⟩
    · rw [flushItems, if_neg hopened]
      refine ⟨_, .silent h rfl rfl rfl ⟨rfl, rfl⟩ (fun _ => ⟨rfl, rfl⟩) ?_⟩
      rintro ⟨-, hhandling, hrehellos⟩
      exact ⟨rfl, hhandling, hrehellos⟩

theorem continues_flushPendingSends :
    ∃ channel', Continues p p.flushPendingSends channel channel' := by
  unfold flushPendingSends
  rw [h]
  dsimp only
  by_cases hopened : channel.state = .opened
  · rw [if_pos hopened]
    exact continues_flushItems h channel.pendingSends []
  · rw [if_neg hopened]
    exact ⟨channel, .refl h⟩

/-! ## Frames -/

omit h in
theorem not_closed_of {state : ChannelState} (h : channel.state = state) (hstate : state ≠ .closed) :
    ¬ channel.state = .closed := by
  rw [h]
  exact hstate

/-- A channel that is not closed may do what it likes with its queues and its state. -/
theorem continues_live (hlive : ¬ channel.state = .closed) (hp' : p'.channel? = some channel')
    (hsharedKey : channel'.sharedKey = channel.sharedKey)
    (hdaemon : channel'.daemonKeyPair = channel.daemonKeyPair)
    (hlogs : p'.firstHello = p.firstHello ∧ p'.messages = p.messages) :
    Continues p p' channel channel' :=
  .silent h hp' hsharedKey hdaemon hlogs (fun hclosed => absurd hclosed hlive)
    (fun hquiet => absurd hquiet.1 hlive)

theorem continues_becomeOpen (hlive : ¬ channel.state = .closed) (ready : E2EEReadyMessage)
    (calls : List ChannelCall) :
    ∃ channel', Continues p (p.becomeOpen channel ready calls) channel channel' := by
  have hopen : Continues p
      { p with
        phase := .created
          { channel with
            binaryCiphertext := supportsBinaryCiphertext ready.capabilities, state := .opened }
        opened := p.opened + 1 } channel
      { channel with
        binaryCiphertext := supportsBinaryCiphertext ready.capabilities, state := .opened } :=
    continues_live h hlive rfl rfl rfl ⟨rfl, rfl⟩
  obtain ⟨middle, hcalls⟩ := continues_calls calls hopen.to_channel
  obtain ⟨channel', hflush⟩ := continues_flushPendingSends hcalls.to_channel
  exact ⟨channel', hopen.trans (hcalls.trans hflush)⟩

theorem continues_rehelloAnswered (sends : Bool) :
    ∃ channel', Continues p (p.rehelloAnswered sends) channel channel' := by
  unfold rehelloAnswered
  rw [h]
  dsimp only
  cases hrehellos : channel.rehellos with
  | nil => exact ⟨channel, .refl h⟩
  | cons message rehellos =>
    have hbusy : ¬ channel.Quiet := by
      rintro ⟨-, -, hnone⟩
      rw [hrehellos] at hnone
      cases hnone
    dsimp only
    cases sends with
    | true =>
      exact ⟨_, .silent h rfl rfl rfl ⟨rfl, rfl⟩ (fun hclosed => ⟨hclosed, rfl⟩)
        fun hquiet => absurd hquiet hbusy⟩
    | false =>
      exact ⟨_, .silent h rfl rfl rfl ⟨rfl, rfl⟩ (fun hclosed => ⟨hclosed, rfl⟩)
        fun hquiet => absurd hquiet hbusy⟩

theorem continues_flushAwaited (sends : Bool) :
    ∃ channel', Continues p (p.flushAwaited sends) channel channel' := by
  unfold flushAwaited
  rw [h]
  dsimp only
  cases channel.flushing with
  | none => exact ⟨channel, .refl h⟩
  | some items =>
    dsimp only
    cases sends with
    | true => exact continues_flushItems h items channel.pendingSends
    | false => exact ⟨_, continues_closed h rfl rfl ⟨rfl, rfl⟩ rfl⟩

end

section Frames

variable [DecidableEq κ] {deriveSharedKey : String → Option κ}

section

variable (h : p.channel? = some channel)
include h

theorem continues_handleDaemonRehello (hlive : ¬ channel.state = .closed) (message : TransportMessage κ)
    (hello : E2EEHelloMessage) :
    ∃ channel', Continues p (p.handleDaemonRehello deriveSharedKey channel message hello)
      channel channel' := by
  unfold handleDaemonRehello
  cases deriveSharedKey hello.key with
  | none => exact ⟨_, continues_live h hlive rfl rfl rfl ⟨rfl, rfl⟩⟩
  | some retryKey =>
    by_cases hkey : retryKey = channel.sharedKey
    · dsimp only
      rw [if_neg (not_not.mpr hkey)]
      exact ⟨_, continues_live h hlive rfl rfl rfl ⟨rfl, rfl⟩⟩
    · dsimp only
      rw [if_pos hkey]
      exact ⟨_, continues_live h hlive rfl rfl rfl ⟨rfl, rfl⟩⟩

theorem continues_handleOpenMessage (hlive : ¬ channel.state = .closed) (message : TransportMessage κ) :
    ∃ channel', Continues p (p.handleOpenMessage deriveSharedKey channel message)
      channel channel' := by
  have hqueued : ∀ handling : Handling κ, ∃ channel', Continues p
      (p.setChannel { channel with handling := channel.handling ++ [handling] }) channel channel' :=
    fun handling => ⟨_, continues_live h hlive rfl rfl rfl ⟨rfl, rfl⟩⟩
  unfold handleOpenMessage
  by_cases hplain : message.isBinary = false ∧ message.text.startsWithBrace = true
  · rw [if_pos hplain]
    cases message.text.json with
    | none => exact hqueued _
    | some parsed =>
      dsimp only
      cases asE2EEHelloMessage parsed with
      | some hello =>
        dsimp only
        by_cases hdaemon : channel.daemonKeyPair = true
        · rw [if_pos hdaemon]
          exact continues_handleDaemonRehello h hlive message hello
        · rw [if_neg hdaemon]
          exact ⟨channel, .refl h⟩
      | none =>
        dsimp only
        by_cases hready : (asE2EEReadyMessage parsed).isSome = true
        · rw [if_pos hready]
          exact ⟨channel, .refl h⟩
        · rw [if_neg hready]
          exact hqueued .failed
  · rw [if_neg hplain]
    exact hqueued _

theorem continues_handleMessage (message : TransportMessage κ) (calls : List ChannelCall) :
    ∃ channel', Continues p (p.handleMessage deriveSharedKey channel message calls)
      channel channel' := by
  unfold handleMessage
  cases hstate : channel.state with
  | handshaking =>
    have hlive := not_closed_of hstate (by simp)
    dsimp only
    by_cases hbinary : message.isBinary = true
    · rw [if_pos hbinary]
      exact ⟨channel, .refl h⟩
    · rw [if_neg hbinary]
      cases message.text.json.bind asE2EEReadyMessage with
      | none => exact ⟨channel, .refl h⟩
      | some ready => exact continues_becomeOpen h hlive ready calls
  | opened => exact continues_handleOpenMessage h (not_closed_of hstate (by simp)) message
  | closed => exact ⟨channel, .refl h⟩

/-- Only what the channel's key opens is handed over. -/
theorem continues_continueHandling :
    ∃ channel', Continues p p.continueHandling channel channel' := by
  unfold continueHandling
  rw [h]
  dsimp only
  cases hhandling : channel.handling with
  | nil => exact ⟨channel, .refl h⟩
  | cons first handling =>
    have hbusy : ¬ channel.Quiet := by
      rintro ⟨-, hnone, -⟩
      rw [hhandling] at hnone
      cases hnone
    have hdropped : ∀ code, Continues p ((p.setChannel { channel with handling }).transportClose code)
        channel { channel with handling } := fun code =>
      .silent h rfl rfl rfl ⟨rfl, rfl⟩ (fun hclosed => ⟨hclosed, rfl⟩) fun hquiet => absurd hquiet hbusy
    cases first with
    | failed => exact ⟨_, hdropped 1011⟩
    | ciphertext data isBinary =>
      dsimp only
      cases hopens : (decrypt channel.sharedKey data).bind (decodePlaintext · isBinary) with
      | none => exact ⟨_, hdropped 1011⟩
      | some payload =>
        obtain ⟨plaintext, hdecrypt, hdecode⟩ := Option.bind_eq_some_iff.mp hopens
        have hsealed : data = .box channel.sharedKey plaintext := by
          cases data with
          | junk => simp [decrypt] at hdecrypt
          | box key boxed =>
            simp only [decrypt] at hdecrypt
            split at hdecrypt
            · rename_i hkey
              rw [hkey, Option.some.inj hdecrypt]
            · cases hdecrypt
        refine ⟨{ channel with handling }, h, rfl, rfl, rfl, rfl, ?_, ?_, ?_⟩
        · refine ⟨[{ bundle := data, data := payload }], rfl, ?_⟩
          intro message hmem
          rw [List.mem_singleton.mp hmem]
          exact ⟨plaintext, isBinary, hsealed, hdecode⟩
        · exact fun hclosed => ⟨hclosed, rfl⟩
        · exact fun hquiet => absurd hquiet hbusy

theorem continues_onmessage (message : TransportMessage κ) (calls : List ChannelCall) :
    ∃ channel', Continues p (p.onmessage deriveSharedKey message calls) channel channel' := by
  unfold onmessage
  rw [h]
  exact continues_handleMessage h message calls

/-! ## Steps of a channel -/

/-- The transport is not closed while the daemon's answer is sent, the relay socket is made of
a channel that is not closed, and no message is still being handled when a hello changes
the key. -/
def Peer.Guarded (deriveSharedKey : String → Option κ) (p : Peer κ) : ChannelOp κ → Prop
  | .helloAnswered true => p.channel? = none → p.transportClosed = false
  | .createEncryptedRelaySocket => ∀ channel ∈ p.channel?, channel.state ≠ .closed
  | .deliver message _ => ∀ channel ∈ p.channel?,
    channel.changesKey deriveSharedKey message = true → channel.handling = [] ∧ channel.rehellos = []
  | _ => True

def Peer.GuardedRun (deriveSharedKey : String → Option κ) : Peer κ → List (ChannelOp κ) → Prop
  | _, [] => True
  | p, op :: ops =>
    p.Guarded deriveSharedKey op ∧ GuardedRun deriveSharedKey (p.step deriveSharedKey op) ops

theorem continues_step {op : ChannelOp κ} (hop : p.Guarded deriveSharedKey op) :
    ∃ channel', Continues p (p.step deriveSharedKey op) channel channel' := by
  cases op with
  | deliver message calls =>
    show ∃ channel', Continues p (p.deliver deriveSharedKey message calls) channel channel'
    unfold deliver
    by_cases hclosed : p.transportClosed = true
    · rw [if_pos hclosed]
      exact ⟨channel, .refl h⟩
    · rw [if_neg hclosed, phase_of_channel? h]
      exact continues_onmessage h message calls
  | helloAnswered sends =>
    show ∃ channel', Continues p (p.helloAnswered deriveSharedKey sends) channel channel'
    rw [helloAnswered, phase_of_channel? h]
    exact ⟨channel, .refl h⟩
  | continueHandling => exact continues_continueHandling h
  | rehelloAnswered sends => exact continues_rehelloAnswered h sends
  | flushAwaited sends => exact continues_flushAwaited h sends
  | retryHello =>
    show ∃ channel', Continues p p.retryHello channel channel'
    unfold retryHello
    rw [h]
    cases p.helloText with
    | none => exact ⟨channel, .refl h⟩
    | some hello =>
      dsimp only
      split
      · exact ⟨channel, .silent h h rfl rfl ⟨rfl, rfl⟩ (fun hclosed => ⟨hclosed, rfl⟩) id⟩
      · exact ⟨channel, .refl h⟩
  | call call => exact continues_call h call
  | createEncryptedRelaySocket =>
    show ∃ channel', Continues p p.createEncryptedRelaySocket channel channel'
    rw [createEncryptedRelaySocket, h]
    dsimp only
    by_cases hdaemon : channel.daemonKeyPair = true
    · rw [if_pos hdaemon]
      exact ⟨_, continues_live h (hop channel h) rfl rfl rfl ⟨rfl, rfl⟩⟩
    · rw [if_neg hdaemon]
      exact ⟨channel, .refl h⟩
  | onclose =>
    show ∃ channel', Continues p p.onclose channel channel'
    rw [onclose, h]
    exact ⟨_, continues_closed h rfl rfl ⟨rfl, rfl⟩ rfl⟩

end

theorem continues_run (ops : List (ChannelOp κ)) :
    ∀ {p : Peer κ} {channel : EncryptedChannel κ}, p.channel? = some channel →
      p.GuardedRun deriveSharedKey ops →
      ∃ channel', Continues p (p.run deriveSharedKey ops) channel channel' := by
  induction ops with
  | nil => exact fun h _ => ⟨_, .refl h⟩
  | cons op ops ih =>
    intro p channel h hops
    obtain ⟨middle, hstep⟩ := continues_step h hops.1
    obtain ⟨channel', hrun⟩ := ih hstep.to_channel hops.2
    exact ⟨channel', hstep.trans hrun⟩

end Frames

/-! ## Runs of a side -/

section Runs

variable {deriveSharedKey : String → Option κ}

/-- The channel was closed, or the transport was before there was a channel. -/
def Peer.IsClosed (p : Peer κ) : Prop :=
  match p.channel? with
  | some channel => channel.state = .closed
  | none => p.transportClosed = true

/-- What holds of a side at every moment. -/
structure Peer.Secure (deriveSharedKey : String → Option κ) (p : Peer κ) : Prop where
  messages : ∀ message ∈ p.messages, ∃ channel ∈ p.channel?, OpensUnder channel.sharedKey message
  firstHello : ∀ channel ∈ p.channel?, channel.daemonKeyPair = true →
    ∃ key ∈ p.firstHello, deriveSharedKey key = some channel.sharedKey
  replying : ∀ sharedKey binaryCiphertext buffered,
    p.phase = .replying sharedKey binaryCiphertext buffered →
      ∃ key ∈ p.firstHello, deriveSharedKey key = some sharedKey
  waiting : p.phase = .waiting → p.firstHello = none

theorem Peer.Secure.continues (h : p.Secure deriveSharedKey)
    (hcontinues : Continues p p' channel channel') : p'.Secure deriveSharedKey where
  messages := by
    intro message hmem
    obtain ⟨more, hmessages, hopens⟩ := hcontinues.messages
    refine ⟨channel', hcontinues.to_channel, ?_⟩
    rw [hcontinues.sharedKey]
    rw [hmessages, List.mem_append] at hmem
    rcases hmem with hold | hmore
    · obtain ⟨found, hfound, hunder⟩ := h.messages message hold
      rw [hcontinues.from_channel, Option.mem_some_iff] at hfound
      rw [hfound]
      exact hunder
    · exact hopens message hmore
  firstHello := by
    intro found hfound hdaemon
    rw [hcontinues.to_channel, Option.mem_some_iff] at hfound
    rw [← hfound] at hdaemon ⊢
    rw [hcontinues.firstHello, hcontinues.sharedKey]
    exact h.firstHello channel hcontinues.from_channel (hcontinues.daemonKeyPair ▸ hdaemon)
  replying := by
    intro sharedKey binaryCiphertext buffered hphase
    rw [phase_of_channel? hcontinues.to_channel] at hphase
    cases hphase
  waiting := by
    intro hphase
    rw [phase_of_channel? hcontinues.to_channel] at hphase
    cases hphase

/-- A side that still has no channel. -/
theorem Peer.Secure.without (h : p.Secure deriveSharedKey) (hnone : p.channel? = none)
    (hnone' : p'.channel? = none) (hmessages : p'.messages = p.messages)
    (hreplying : ∀ sharedKey binaryCiphertext buffered,
      p'.phase = .replying sharedKey binaryCiphertext buffered →
        ∃ key ∈ p'.firstHello, deriveSharedKey key = some sharedKey)
    (hwaiting : p'.phase = .waiting → p'.firstHello = none) : p'.Secure deriveSharedKey where
  messages := by
    intro message hmem
    rw [hmessages] at hmem
    obtain ⟨channel, hchannel, -⟩ := h.messages message hmem
    rw [hnone] at hchannel
    cases hchannel
  firstHello := by
    intro channel hchannel
    rw [hnone'] at hchannel
    cases hchannel
  replying := hreplying
  waiting := hwaiting

/-- What a step keeps of the first hello, and of a side that is closed. -/
def Peer.Holds (p p' : Peer κ) : Prop :=
  (∀ key ∈ p.firstHello, key ∈ p'.firstHello) ∧
    (p.IsClosed → p'.IsClosed ∧ p'.opened = p.opened)

theorem Peer.Holds.refl (p : Peer κ) : p.Holds p := ⟨fun _ h => h, fun h => ⟨h, rfl⟩⟩

theorem Peer.Holds.trans (h : p.Holds p') (h' : p'.Holds p'') : p.Holds p'' := by
  refine ⟨fun key hkey => h'.1 key (h.1 key hkey), ?_⟩
  intro hclosed
  obtain ⟨hclosed', hopened⟩ := h.2 hclosed
  obtain ⟨hclosed'', hopened'⟩ := h'.2 hclosed'
  exact ⟨hclosed'', hopened'.trans hopened⟩

theorem Continues.holds (h : Continues p p' channel channel') : p.Holds p' := by
  constructor
  · rw [h.firstHello]
    exact fun _ hkey => hkey
  · unfold Peer.IsClosed
    rw [h.from_channel, h.to_channel]
    exact h.closed

theorem handleHello_spec (h : p.Secure deriveSharedKey) (hwaiting : p.phase = .waiting)
    (hclosed : p.transportClosed = false) (message : TransportMessage κ) :
    (p.handleHello deriveSharedKey message).Secure deriveSharedKey ∧
      p.Holds (p.handleHello deriveSharedKey message) := by
  have hnone : p.channel? = none := by simp [channel?, hwaiting]
  have hopen : ¬ p.IsClosed := by simp [Peer.IsClosed, hnone, hclosed]
  unfold handleHello
  by_cases hbinary : message.isBinary = true
  · rw [if_pos hbinary]
    exact ⟨h, .refl p⟩
  · rw [if_neg hbinary]
    cases message.text.json.bind asE2EEHelloMessage with
    | none => exact ⟨h, .refl p⟩
    | some hello =>
      dsimp only
      cases hkey : deriveSharedKey hello.key with
      | none =>
        refine ⟨h.without hnone rfl rfl ?_ ?_, fun _ h => h, fun hp => absurd hp hopen⟩
        · intro _ _ _ hphase
          cases hphase
        · intro hphase
          cases hphase
      | some sharedKey =>
        refine ⟨h.without hnone rfl rfl ?_ ?_, ?_, fun hp => absurd hp hopen⟩
        · intro sharedKey' _ _ hphase
          simp only [Phase.replying.injEq] at hphase
          exact ⟨hello.key, rfl, by rw [hkey, hphase.1]⟩
        · intro hphase
          cases hphase
        · intro key hmem
          rw [h.waiting hwaiting] at hmem
          cases hmem

theorem secure_createDaemonChannel :
    (createDaemonChannel : Peer κ).Secure deriveSharedKey where
  messages := by simp [createDaemonChannel]
  firstHello := by simp [createDaemonChannel, channel?]
  replying := by simp [createDaemonChannel]
  waiting := fun _ => rfl

theorem secure_createClientChannel (sharedKey : κ) (publicKey : String) :
    (createClientChannel sharedKey publicKey).Secure deriveSharedKey where
  messages := by simp [createClientChannel]
  firstHello := by
    intro channel hchannel hdaemon
    rw [← Option.mem_some_iff.mp hchannel] at hdaemon
    cases hdaemon
  replying := by simp [createClientChannel]
  waiting := by simp [createClientChannel]

variable [DecidableEq κ]

theorem continues_buffered (deriveSharedKey : String → Option κ)
    (messages : List (TransportMessage κ)) :
    ∀ {p : Peer κ} {channel : EncryptedChannel κ}, p.channel? = some channel →
      ∃ channel', Continues p
        (messages.foldl (fun p message => p.onmessage deriveSharedKey message []) p)
        channel channel' := by
  induction messages with
  | nil => exact fun h => ⟨_, .refl h⟩
  | cons message messages ih =>
    intro p channel h
    obtain ⟨middle, hfirst⟩ := continues_onmessage h message []
    obtain ⟨channel', hrest⟩ := ih hfirst.to_channel
    exact ⟨channel', hfirst.trans hrest⟩

theorem helloAnswered_spec (h : p.Secure deriveSharedKey) (hnone : p.channel? = none)
    {sends : Bool} (hop : p.Guarded deriveSharedKey (.helloAnswered sends)) :
    (p.helloAnswered deriveSharedKey sends).Secure deriveSharedKey ∧
      p.Holds (p.helloAnswered deriveSharedKey sends) := by
  unfold helloAnswered
  split
  · rename_i sharedKey binaryCiphertext buffered hphase
    cases sends with
    | false =>
      rw [if_neg (by simp)]
      refine ⟨h.without hnone rfl rfl ?_ ?_, fun _ h => h, ?_⟩
      · intro _ _ _ hreplying
        cases hreplying
      · intro hwaiting
        cases hwaiting
      · intro hclosed
        refine ⟨?_, rfl⟩
        rw [Peer.IsClosed, hnone] at hclosed
        exact hclosed
    | true =>
      rw [if_pos rfl]
      dsimp only
      -- the channel is made of the key that the first hello gave
      have hcreated : Peer.Secure deriveSharedKey
          { p with
            phase := .created
              { sharedKey, daemonKeyPair := true, binaryCiphertext, state := .opened
                pendingSends := [], flushing := none, handling := [], rehellos := [] }
            opened := p.opened + 1 } := by
        refine ⟨?_, ?_, ?_, ?_⟩
        · intro message hmem
          obtain ⟨channel, hchannel, -⟩ := h.messages message hmem
          rw [hnone] at hchannel
          cases hchannel
        · intro channel hchannel _
          obtain ⟨key, hkey, hderive⟩ := h.replying sharedKey binaryCiphertext buffered hphase
          have hsame := Option.mem_some_iff.mp hchannel
          rw [← hsame]
          exact ⟨key, hkey, hderive⟩
        · intro _ _ _ hreplying
          cases hreplying
        · intro hwaiting
          cases hwaiting
      obtain ⟨channel', hbuffered⟩ := continues_buffered deriveSharedKey
        (buffered.filter fun message => !shouldIgnorePostHelloPlaintext message)
        (p := { p with
            phase := .created
              { sharedKey, daemonKeyPair := true, binaryCiphertext, state := .opened
                pendingSends := [], flushing := none, handling := [], rehellos := [] }
            opened := p.opened + 1 }) rfl
      refine ⟨hcreated.continues hbuffered, ?_, ?_⟩
      · intro key hkey
        rw [hbuffered.firstHello]
        exact hkey
      · intro hclosed
        rw [Peer.IsClosed, hnone] at hclosed
        have hfalse := hop hnone
        rw [hclosed] at hfalse
        cases hfalse
  · exact ⟨h, .refl p⟩

theorem step_spec (h : p.Secure deriveSharedKey) {op : ChannelOp κ}
    (hop : p.Guarded deriveSharedKey op) :
    (p.step deriveSharedKey op).Secure deriveSharedKey ∧ p.Holds (p.step deriveSharedKey op) := by
  cases hchannel : p.channel? with
  | some channel =>
    obtain ⟨channel', hstep⟩ := continues_step hchannel hop
    exact ⟨h.continues hstep, hstep.holds⟩
  | none =>
    have hsame : (p.Secure deriveSharedKey) ∧ p.Holds p := ⟨h, .refl p⟩
    cases op with
    | deliver message calls =>
      show (p.deliver deriveSharedKey message calls).Secure _ ∧ p.Holds (p.deliver _ _ _)
      unfold deliver
      by_cases hclosed : p.transportClosed = true
      · rw [if_pos hclosed]
        exact hsame
      · rw [if_neg hclosed]
        cases hphase : p.phase with
        | waiting => exact handleHello_spec h hphase (by simpa using hclosed) message
        | replying sharedKey binaryCiphertext buffered =>
          refine ⟨h.without hchannel rfl rfl ?_ ?_, fun _ h => h, ?_⟩
          · intro sharedKey' _ _ hreplying
            simp only [Phase.replying.injEq] at hreplying
            rw [← hreplying.1]
            exact h.replying sharedKey binaryCiphertext buffered hphase
          · intro hwaiting
            cases hwaiting
          · intro hp
            rw [Peer.IsClosed, hchannel] at hp
            exact absurd hp hclosed
        | abandoned => exact hsame
        | created channel => simp [channel?, hphase] at hchannel
    | helloAnswered sends => exact helloAnswered_spec h hchannel hop
    | continueHandling =>
      show p.continueHandling.Secure _ ∧ p.Holds p.continueHandling
      rw [continueHandling, hchannel]
      exact hsame
    | rehelloAnswered sends =>
      show (p.rehelloAnswered sends).Secure _ ∧ p.Holds (p.rehelloAnswered sends)
      rw [rehelloAnswered, hchannel]
      exact hsame
    | flushAwaited sends =>
      show (p.flushAwaited sends).Secure _ ∧ p.Holds (p.flushAwaited sends)
      rw [flushAwaited, hchannel]
      exact hsame
    | retryHello =>
      show p.retryHello.Secure _ ∧ p.Holds p.retryHello
      rw [retryHello, hchannel]
      cases p.helloText with
      | none => exact hsame
      | some hello => exact hsame
    | call call =>
      show (p.call call).Secure _ ∧ p.Holds (p.call call)
      rw [Peer.call, hchannel]
      exact hsame
    | createEncryptedRelaySocket =>
      show p.createEncryptedRelaySocket.Secure _ ∧ p.Holds p.createEncryptedRelaySocket
      rw [createEncryptedRelaySocket, hchannel]
      exact hsame
    | onclose =>
      show p.onclose.Secure _ ∧ p.Holds p.onclose
      rw [onclose, hchannel]
      refine ⟨h.without hchannel ?_ rfl h.replying h.waiting, fun _ h => h, ?_⟩
      · exact hchannel
      · intro _
        refine ⟨?_, rfl⟩
        unfold Peer.IsClosed
        split
        · rename_i found hfound
          have hfound' : p.channel? = some found := hfound
          rw [hchannel] at hfound'
          cases hfound'
        · rfl

theorem run_spec (ops : List (ChannelOp κ)) :
    ∀ {p : Peer κ}, p.Secure deriveSharedKey → p.GuardedRun deriveSharedKey ops →
      (p.run deriveSharedKey ops).Secure deriveSharedKey ∧ p.Holds (p.run deriveSharedKey ops) := by
  induction ops with
  | nil => exact fun h _ => ⟨h, .refl _⟩
  | cons op ops ih =>
    intro p h hops
    obtain ⟨hsecure, hholds⟩ := step_spec h hops.1
    obtain ⟨hsecure', hholds'⟩ := ih hsecure hops.2
    exact ⟨hsecure', hholds.trans hholds'⟩

/-! ## Safety -/

/-- A hello of another key closes the channel of a daemon that handles no message. -/
theorem deliver_changesKey (hchannel : p.channel? = some channel)
    (hopen : p.transportClosed = false) {message : TransportMessage κ}
    (hchanges : channel.changesKey deriveSharedKey message = true) (calls : List ChannelCall) :
    p.deliver deriveSharedKey message calls =
      (p.setChannel { channel with state := .closed }).transportClose 1008 := by
  unfold EncryptedChannel.changesKey at hchanges
  simp only [Bool.and_eq_true, decide_eq_true_eq, Bool.not_eq_true'] at hchanges
  obtain ⟨⟨⟨⟨hstate, hdaemon⟩, hbinary⟩, hbrace⟩, hkey⟩ := hchanges
  cases hjson : message.text.json with
  | none => simp [hjson] at hkey
  | some parsed =>
    rw [hjson, Option.bind_some] at hkey
    cases hhello : asE2EEHelloMessage parsed with
    | none => simp [hhello] at hkey
    | some hello =>
      rw [hhello, Option.bind_some] at hkey
      cases hderive : deriveSharedKey hello.key with
      | none => simp [hderive] at hkey
      | some retryKey =>
        have hne : retryKey ≠ channel.sharedKey := by simpa [hderive] using hkey
        rw [deliver, if_neg (by simp [hopen]), phase_of_channel? hchannel]
        dsimp only
        rw [onmessage, hchannel]
        dsimp only
        rw [handleMessage, hstate]
        dsimp only
        rw [handleOpenMessage, if_pos ⟨hbinary, hbrace⟩, hjson]
        dsimp only
        rw [hhello]
        dsimp only
        rw [if_pos hdaemon, handleDaemonRehello, hderive]
        dsimp only
        rw [if_pos hne]

/-- What the relay cannot bring about between one moment of a side and a later one. -/
structure Peer.SafeUpTo (deriveSharedKey : String → Option κ) (p q : Peer κ) : Prop where
  opens : ∀ message ∈ q.messages, ∃ channel ∈ q.channel?, OpensUnder channel.sharedKey message
  fixed : ∀ channel ∈ q.channel?, channel.daemonKeyPair = true →
    ∃ key ∈ q.firstHello, deriveSharedKey key = some channel.sharedKey
  sameHello : ∀ key ∈ p.firstHello, key ∈ q.firstHello
  sameKey : ∀ channel ∈ p.channel?, ∃ channel' ∈ q.channel?, channel'.sharedKey = channel.sharedKey
  staysClosed : p.IsClosed → q.IsClosed ∧ q.opened = p.opened

theorem peerRun_append (p : Peer κ) (before after : List (ChannelOp κ)) :
    p.run deriveSharedKey (before ++ after) =
      (p.run deriveSharedKey before).run deriveSharedKey after :=
  List.foldl_append

theorem guardedRun_append (before after : List (ChannelOp κ)) :
    ∀ {p : Peer κ}, p.GuardedRun deriveSharedKey (before ++ after) →
      p.GuardedRun deriveSharedKey before ∧
        (p.run deriveSharedKey before).GuardedRun deriveSharedKey after := by
  induction before with
  | nil => exact fun h => ⟨trivial, h⟩
  | cons op before ih =>
    intro p h
    obtain ⟨hbefore, hafter⟩ := ih h.2
    exact ⟨⟨h.1, hbefore⟩, hafter⟩

end Runs

instance [DecidableEq κ] (deriveSharedKey : String → Option κ) (p : Peer κ) :
    ∀ op : ChannelOp κ, Decidable (p.Guarded deriveSharedKey op)
  | .deliver _ _ => inferInstanceAs (Decidable (∀ channel ∈ p.channel?, _ → _ = [] ∧ _ = []))
  | .helloAnswered true =>
    decidable_of_iff (p.channel?.isNone → p.transportClosed = false)
      (by rw [Peer.Guarded, Option.isNone_iff_eq_none])
  | .createEncryptedRelaySocket => inferInstanceAs (Decidable (∀ channel ∈ p.channel?, _))
  | .helloAnswered false | .continueHandling | .rehelloAnswered _ | .flushAwaited _ | .retryHello
  | .call _ | .onclose => isTrue trivial

instance decidableGuardedRun [DecidableEq κ] (deriveSharedKey : String → Option κ) :
    ∀ (p : Peer κ) (ops : List (ChannelOp κ)), Decidable (p.GuardedRun deriveSharedKey ops)
  | _, [] => isTrue trivial
  | p, op :: ops =>
    have := decidableGuardedRun deriveSharedKey (p.step deriveSharedKey op) ops
    inferInstanceAs (Decidable (_ ∧ _))

/-- A daemon's handshake and a message of its client. -/
def openedRun : List (ChannelOp String) :=
  [.deliver (helloMessage "client") [], .helloAnswered true,
    .deliver (base64Message (encrypt "client" (.text "hi"))) [], .continueHandling]

end Orqara.Relay
