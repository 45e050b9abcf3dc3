import Orqara.Library.OrderedMap

/-!
# Client frames through the relay

One durable object of protocol version 2: the frames of its clients go to the daemon's
data socket of the same connection, or wait for one. The control channel is left out, as
no frame passes through it.

A socket on which `close` was called stays attached until its close event, and any `send`
may throw.
-/

namespace Orqara.Relay

open List

inductive ConnectionRole
  | server | client
  deriving DecidableEq, Repr

/-- A socket with its attachment; the daemon's control socket has no `connectionId`. -/
structure RelaySocket where
  id : ℕ
  role : ConnectionRole
  connectionId : Option String
  deriving DecidableEq

/-- The sockets in the order of acceptance, and the frames received from clients and handed
to data sockets so far. -/
structure RelayDurableObject (α : Type*) where
  sockets : List RelaySocket
  nextSocketId : ℕ
  pendingFrames : OrderedMap String (List α)
  received : String → List α
  handed : String → List α

variable {α : Type*}

def RelayDurableObject.start : RelayDurableObject α where
  sockets := []
  nextSocketId := 1
  pendingFrames := ∅
  received _ := []
  handed _ := []

/-- `getWebSockets` with the tag of a role and a connection. -/
def RelayDurableObject.getWebSockets (relay : RelayDurableObject α) (role : ConnectionRole)
    (connectionId : String) : List RelaySocket :=
  relay.sockets.filter fun socket => socket.role = role ∧ socket.connectionId = some connectionId

def RelayDurableObject.hasClientSocket (relay : RelayDurableObject α) (connectionId : String) :
    Bool :=
  0 < (relay.getWebSockets .client connectionId).length

/-- Prevent unbounded memory growth if a daemon never connects. -/
def maxPendingFrames : ℕ := 200

def RelayDurableObject.pending (relay : RelayDurableObject α) (connectionId : String) : List α :=
  (relay.pendingFrames.get connectionId).getD []

def RelayDurableObject.bufferFrame (relay : RelayDurableObject α) (connectionId : String)
    (message : α) : RelayDurableObject α :=
  let existing := relay.pending connectionId ++ [message]
  { relay with
    pendingFrames := relay.pendingFrames.set connectionId
      (existing.drop (existing.length - maxPendingFrames)) }

/-- A `send` of a client frame that does not throw. -/
def RelayDurableObject.handOver (relay : RelayDurableObject α) (connectionId : String)
    (message : α) : RelayDurableObject α :=
  { relay with
    handed := Function.update relay.handed connectionId (relay.handed connectionId ++ [message]) }

/-- The loop of `flushFrames`: a frame that cannot be sent is buffered again, and ends it. -/
def flushLoop (connectionId : String) (sends : ℕ → Bool) :
    List α → ℕ → RelayDurableObject α → RelayDurableObject α
  | [], _, relay => relay
  | frame :: frames, turn, relay =>
    if sends turn then flushLoop connectionId sends frames (turn + 1) (relay.handOver connectionId frame)
    else relay.bufferFrame connectionId frame

def RelayDurableObject.flushFrames (relay : RelayDurableObject α) (connectionId : String)
    (sends : ℕ → Bool) : RelayDurableObject α :=
  match relay.pendingFrames.get connectionId with
  | none | some [] => relay
  | some frames =>
    flushLoop connectionId sends frames 0
      { relay with pendingFrames := relay.pendingFrames.delete connectionId }

/-- `assigned` is the id that the relay makes up for a client without one. -/
def RelayDurableObject.fetchV2 (relay : RelayDurableObject α) (role : ConnectionRole)
    (connectionId assigned : String) (sends : ℕ → Bool) : RelayDurableObject α :=
  let resolvedConnectionId := if role = .client ∧ connectionId = "" then assigned else connectionId
  let accepted :=
    { relay with
      sockets := relay.sockets ++
        [{ id := relay.nextSocketId, role
           connectionId := if resolvedConnectionId = "" then none else some resolvedConnectionId }]
      nextSocketId := relay.nextSocketId + 1 }
  if role = .server ∧ resolvedConnectionId ≠ "" then
    accepted.flushFrames resolvedConnectionId sends
  else accepted

/-- A client frame goes to every attached data socket; a `send` that throws is logged. -/
def RelayDurableObject.forward (relay : RelayDurableObject α) (connectionId : String) (message : α)
    (sends : ℕ → Bool) : RelayDurableObject α :=
  let servers := relay.getWebSockets .server connectionId
  if servers = [] then relay.bufferFrame connectionId message
  else
    servers.foldl
      (fun relay target =>
        if sends target.id then relay.handOver connectionId message else relay) relay

/-- A client frame has come in. -/
def RelayDurableObject.receive (relay : RelayDurableObject α) (connectionId : String)
    (message : α) : RelayDurableObject α :=
  { relay with
    received := Function.update relay.received connectionId
      (relay.received connectionId ++ [message]) }

/-- The connection of an attached client socket. -/
def RelayDurableObject.clientConnection (relay : RelayDurableObject α) (id : ℕ) : Option String :=
  (relay.sockets.find? fun socket => socket.id = id ∧ socket.role = .client).bind
    RelaySocket.connectionId

/-- The frames that go the other way, from the daemon to clients, change nothing here. -/
def RelayDurableObject.webSocketMessage (relay : RelayDurableObject α) (id : ℕ) (message : α)
    (sends : ℕ → Bool) : RelayDurableObject α :=
  match relay.clientConnection id with
  | some connectionId => (relay.receive connectionId message).forward connectionId message sends
  | none => relay

def RelayDurableObject.webSocketClose (relay : RelayDurableObject α) (id : ℕ) :
    RelayDurableObject α :=
  let detached := { relay with sockets := relay.sockets.filter (·.id ≠ id) }
  match relay.clientConnection id with
  | some connectionId =>
    if (relay.getWebSockets .client connectionId).any (·.id ≠ id) then detached
    else { detached with pendingFrames := detached.pendingFrames.delete connectionId }
  | none => detached

inductive RelayOp (α : Type*)
  | connect (role : ConnectionRole) (connectionId assigned : String) (sends : ℕ → Bool)
  | message (id : ℕ) (message : α) (sends : ℕ → Bool)
  | close (id : ℕ)

def RelayDurableObject.step (relay : RelayDurableObject α) : RelayOp α → RelayDurableObject α
  | .connect role connectionId assigned sends => relay.fetchV2 role connectionId assigned sends
  | .message id message sends => relay.webSocketMessage id message sends
  | .close id => relay.webSocketClose id

def RelayDurableObject.run (relay : RelayDurableObject α) (ops : List (RelayOp α)) :
    RelayDurableObject α :=
  ops.foldl RelayDurableObject.step relay

/-! ## When no frame is lost -/

/-- The frame that an operation brings for a connection. -/
def RelayDurableObject.arriving (relay : RelayDurableObject α) (connectionId : String) :
    RelayOp α → List α
  | .message id message _ => if relay.clientConnection id = some connectionId then [message] else []
  | _ => []

/-- A flush fails at its last frame if at all, and a frame that finds a data socket attached
finds none waiting and is sent once. -/
def RelayDurableObject.Clean (relay : RelayDurableObject α) : RelayOp α → Prop
  | .connect role connectionId _ sends =>
    role = .server → ∀ turn < (relay.pending connectionId).length - 1, sends turn = true
  | .message id _ sends =>
    ∀ connectionId ∈ relay.clientConnection id,
      relay.getWebSockets .server connectionId ≠ [] →
        relay.pending connectionId = [] ∧
          ((relay.getWebSockets .server connectionId).filter fun target => sends target.id).length =
            1
  | .close _ => True

instance [DecidableEq α] (relay : RelayDurableObject α) :
    ∀ op : RelayOp α, Decidable (relay.Clean op)
  | .connect .. => inferInstanceAs (Decidable (_ → ∀ turn < _, _))
  | .message .. => inferInstanceAs (Decidable (∀ connectionId ∈ _, _))
  | .close _ => isTrue trivial

def RelayDurableObject.CleanRun : RelayDurableObject α → List (RelayOp α) → Prop
  | _, [] => True
  | relay, op :: ops => relay.Clean op ∧ (relay.step op).CleanRun ops

instance decidableCleanRun [DecidableEq α] :
    ∀ (relay : RelayDurableObject α) (ops : List (RelayOp α)), Decidable (relay.CleanRun ops)
  | _, [] => isTrue trivial
  | relay, op :: ops =>
    have := decidableCleanRun (relay.step op) ops
    inferInstanceAs (Decidable (_ ∧ _))

/-- A client of the connection stays, and no more frames wait than fit. -/
def RelayDurableObject.Steady (relay : RelayDurableObject α) (connectionId : String)
    (op : RelayOp α) : Prop :=
  (relay.step op).hasClientSocket connectionId = true ∧
    (relay.pending connectionId ++ relay.arriving connectionId op).length ≤ maxPendingFrames

def RelayDurableObject.SteadyRun (connectionId : String) :
    RelayDurableObject α → List (RelayOp α) → Prop
  | _, [] => True
  | relay, op :: ops =>
    relay.Steady connectionId op ∧ RelayDurableObject.SteadyRun connectionId (relay.step op) ops

instance (relay : RelayDurableObject α) (connectionId : String) (op : RelayOp α) :
    Decidable (relay.Steady connectionId op) := inferInstanceAs (Decidable (_ ∧ _))

instance decidableSteadyRun (connectionId : String) :
    ∀ (relay : RelayDurableObject α) (ops : List (RelayOp α)),
      Decidable (RelayDurableObject.SteadyRun connectionId relay ops)
  | _, [] => isTrue trivial
  | relay, op :: ops =>
    have := decidableSteadyRun connectionId (relay.step op) ops
    inferInstanceAs (Decidable (_ ∧ _))

/-- What becomes of the frames of a connection: `arriving` ones come in, `out` are handed
over and `lost` leave without. -/
structure FrameStep (connectionId : String) (relay relay' : RelayDurableObject α)
    (arriving out lost : List α) : Prop where
  received : relay'.received connectionId = relay.received connectionId ++ arriving
  handed : relay'.handed connectionId = relay.handed connectionId ++ out
  waiting : relay.pending connectionId ++ arriving = out ++ lost ++ relay'.pending connectionId

section Steps

variable {connectionId : String} {relay relay' : RelayDurableObject α}

/-- Nothing happens to the frames of the connection. -/
theorem FrameStep.same (hreceived : relay'.received connectionId = relay.received connectionId)
    (hhanded : relay'.handed connectionId = relay.handed connectionId)
    (hpending : relay'.pending connectionId = relay.pending connectionId) :
    FrameStep connectionId relay relay' [] [] [] where
  received := by rw [hreceived, append_nil]
  handed := by rw [hhanded, append_nil]
  waiting := by rw [hpending, append_nil]; rfl

open RelayDurableObject

theorem pending_bufferFrame (relay : RelayDurableObject α) (connectionId : String) (message : α) :
    (relay.bufferFrame connectionId message).pending connectionId =
      (relay.pending connectionId ++ [message]).drop
        ((relay.pending connectionId ++ [message]).length - maxPendingFrames) := by
  simp [bufferFrame, pending]

theorem pending_bufferFrame_ne {other : String} (h : other ≠ connectionId) (message : α) :
    (relay.bufferFrame connectionId message).pending other = relay.pending other := by
  simp [bufferFrame, pending, OrderedMap.get_set_ne h]

/-- The frames of a flush are handed over, but for one that cannot be sent at the end. -/
theorem flushLoop_spec (frames : List α) :
    ∀ (sends : ℕ → Bool) (turn : ℕ) (relay : RelayDurableObject α),
      relay.pending connectionId = [] →
      (∀ k < frames.length - 1, sends (turn + k) = true) →
      ∃ out, (flushLoop connectionId sends frames turn relay).handed connectionId =
          relay.handed connectionId ++ out ∧
        frames = out ++ (flushLoop connectionId sends frames turn relay).pending connectionId := by
  induction frames with
  | nil =>
    intro sends turn relay hpending _
    exact ⟨[], by simp [flushLoop], by simp [flushLoop, hpending]⟩
  | cons frame frames ih =>
    intro sends turn relay hpending hsends
    by_cases hsent : sends turn = true
    · have hrest : ∀ k < frames.length - 1, sends (turn + 1 + k) = true := by
        intro k hk
        have := hsends (k + 1) (by simp only [length_cons]; omega)
        rwa [show turn + (k + 1) = turn + 1 + k by omega] at this
      obtain ⟨out, hhanded, hframes⟩ :=
        ih sends (turn + 1) (relay.handOver connectionId frame) hpending hrest
      rw [flushLoop, if_pos hsent]
      refine ⟨frame :: out, ?_, ?_⟩
      · rw [hhanded]
        simp [handOver]
      · rw [cons_append, ← hframes]
    · -- the frame that could not be sent was the last one
      have hlast : frames = [] := by
        by_contra hne
        have hlength : 0 < frames.length := length_pos_iff.mpr hne
        exact hsent (by simpa using hsends 0 (by simp only [length_cons]; omega))
      rw [flushLoop, if_neg hsent, hlast]
      refine ⟨[], ?_, ?_⟩
      · simp [bufferFrame]
      · rw [pending_bufferFrame, hpending]
        simp [maxPendingFrames]

/-- A flush leaves the sockets, what was received and the other connections alone. -/
theorem flushLoop_frame (connectionId : String) (frames : List α) :
    ∀ (sends : ℕ → Bool) (turn : ℕ) (relay : RelayDurableObject α),
      (flushLoop connectionId sends frames turn relay).sockets = relay.sockets ∧
      (flushLoop connectionId sends frames turn relay).received = relay.received ∧
      ∀ other, other ≠ connectionId →
        (flushLoop connectionId sends frames turn relay).handed other = relay.handed other ∧
        (flushLoop connectionId sends frames turn relay).pending other = relay.pending other := by
  induction frames with
  | nil =>
    intro sends turn relay
    exact ⟨rfl, rfl, fun _ _ => ⟨rfl, rfl⟩⟩
  | cons frame frames ih =>
    intro sends turn relay
    by_cases hsent : sends turn = true
    · rw [flushLoop, if_pos hsent]
      obtain ⟨hsockets, hreceived, hothers⟩ :=
        ih sends (turn + 1) (relay.handOver connectionId frame)
      refine ⟨hsockets, hreceived, ?_⟩
      intro other hother
      obtain ⟨hhanded, hpending⟩ := hothers other hother
      refine ⟨hhanded.trans ?_, hpending⟩
      simp [handOver, Function.update_of_ne hother]
    · rw [flushLoop, if_neg hsent]
      exact ⟨rfl, rfl, fun other hother => ⟨rfl, pending_bufferFrame_ne hother frame⟩⟩

/-! ## Steps -/

theorem flushFrames_spec (relay : RelayDurableObject α) (connectionId : String) (sends : ℕ → Bool)
    (h : ∀ turn < (relay.pending connectionId).length - 1, sends turn = true) :
    (∃ out, FrameStep connectionId relay (relay.flushFrames connectionId sends) [] out []) ∧
      ∀ other, other ≠ connectionId →
        FrameStep other relay (relay.flushFrames connectionId sends) [] [] [] := by
  unfold flushFrames
  split
  · exact ⟨⟨[], .same rfl rfl rfl⟩, fun _ _ => .same rfl rfl rfl⟩
  · exact ⟨⟨[], .same rfl rfl rfl⟩, fun _ _ => .same rfl rfl rfl⟩
  · rename_i frames _ hget
    have hpending : relay.pending connectionId = frames := by
      simp [pending, hget]
    rw [hpending] at h
    have hempty : pending
        { relay with pendingFrames := relay.pendingFrames.delete connectionId } connectionId = [] := by
      simp [pending]
    obtain ⟨out, hhanded, hframes⟩ := flushLoop_spec frames sends 0
      { relay with pendingFrames := relay.pendingFrames.delete connectionId } hempty
      (by simpa using h)
    obtain ⟨_, hreceived, hothers⟩ := flushLoop_frame connectionId frames sends 0
      { relay with pendingFrames := relay.pendingFrames.delete connectionId }
    constructor
    · refine ⟨out, ?_, hhanded, ?_⟩
      · rw [hreceived, append_nil]
      · rw [hpending, append_nil, append_nil]
        exact hframes
    · intro other hother
      obtain ⟨hhanded', hpending'⟩ := hothers other hother
      apply FrameStep.same
      · rw [hreceived]
      · exact hhanded'
      · rw [hpending']
        simp [pending, OrderedMap.get_delete_ne hother]

theorem fetchV2_frameStep {role : ConnectionRole} {id assigned : String} {sends : ℕ → Bool}
    (h : relay.Clean (.connect role id assigned sends)) (connectionId : String) :
    ∃ out, FrameStep connectionId relay (relay.fetchV2 role id assigned sends) [] out [] := by
  unfold fetchV2
  dsimp only
  cases role with
  | client =>
    rw [if_neg (by simp)]
    exact ⟨[], .same rfl rfl rfl⟩
  | server =>
    simp only [reduceCtorEq, false_and, if_false, true_and]
    by_cases hid : id = ""
    · rw [if_neg (by simp [hid])]
      exact ⟨[], .same rfl rfl rfl⟩
    · -- accepting the socket does not touch the frames
      rw [if_pos hid]
      have hflush := flushFrames_spec
        { relay with
          sockets := relay.sockets ++
            [{ id := relay.nextSocketId, role := .server
               connectionId := if id = "" then none else some id }]
          nextSocketId := relay.nextSocketId + 1 } id sends (h rfl)
      by_cases hconnection : connectionId = id
      · rw [hconnection]
        obtain ⟨out, hreceived, hhanded, hwaiting⟩ := hflush.1
        exact ⟨out, hreceived, hhanded, hwaiting⟩
      · obtain ⟨hreceived, hhanded, hwaiting⟩ := hflush.2 connectionId hconnection
        exact ⟨[], hreceived, hhanded, hwaiting⟩

/-- Sending a frame to a list of sockets hands it over once for each that takes it. -/
theorem foldl_handOver (message : α) (sends : ℕ → Bool) (targets : List RelaySocket) :
    ∀ relay : RelayDurableObject α,
      (targets.foldl (fun relay target =>
        if sends target.id then relay.handOver connectionId message else relay) relay) =
      { relay with
        handed := Function.update relay.handed connectionId (relay.handed connectionId ++
          List.replicate (targets.filter fun target => sends target.id).length message) } := by
  induction targets with
  | nil =>
    intro relay
    simp
  | cons target targets ih =>
    intro relay
    rw [foldl_cons]
    by_cases hsent : sends target.id = true
    · rw [if_pos hsent, ih]
      simp [handOver, hsent, replicate_succ]
    · rw [if_neg hsent, ih]
      simp [hsent]

theorem forward_frameStep (message : α) (sends : ℕ → Bool)
    (h : relay.getWebSockets .server connectionId ≠ [] →
      relay.pending connectionId = [] ∧
        ((relay.getWebSockets .server connectionId).filter fun target => sends target.id).length =
          1) :
    ∃ out lost, FrameStep connectionId relay
        ((relay.receive connectionId message).forward connectionId message sends) [message] out lost ∧
      (lost ≠ [] → maxPendingFrames < (relay.pending connectionId ++ [message]).length) := by
  have hservers : (relay.receive connectionId message).getWebSockets .server connectionId =
      relay.getWebSockets .server connectionId := rfl
  unfold forward
  dsimp only
  rw [hservers]
  by_cases hnone : relay.getWebSockets .server connectionId = []
  · -- the frame waits, and may push the oldest ones out
    rw [if_pos hnone]
    refine ⟨[], (relay.pending connectionId ++ [message]).take
      ((relay.pending connectionId ++ [message]).length - maxPendingFrames), ⟨?_, ?_, ?_⟩, ?_⟩
    · simp [bufferFrame, receive]
    · exact (append_nil _).symm
    · rw [pending_bufferFrame, nil_append]
      exact (take_append_drop _ _).symm
    · intro hlost
      by_contra hfits
      apply hlost
      rw [Nat.sub_eq_zero_of_le (by omega), take_zero]
  · obtain ⟨hempty, honce⟩ := h hnone
    rw [if_neg hnone, foldl_handOver, honce]
    refine ⟨[message], [], ⟨?_, ?_, ?_⟩, fun hlost => absurd rfl hlost⟩
    · simp [receive]
    · simp [receive]
    · rw [hempty]
      exact congrArg ([message] ++ ·) hempty.symm

/-- The frames of the other connections stay as they are. -/
theorem forward_other {other : String} (hother : other ≠ connectionId) (message : α)
    (sends : ℕ → Bool) :
    FrameStep other relay ((relay.receive connectionId message).forward connectionId message sends)
      [] [] [] := by
  unfold forward
  dsimp only
  split
  · apply FrameStep.same
    · simp [bufferFrame, receive,
        Function.update_of_ne hother]
    · rfl
    · exact pending_bufferFrame_ne hother message
  · rw [foldl_handOver]
    apply FrameStep.same
    · simp [receive, Function.update_of_ne hother]
    · simp [receive, Function.update_of_ne hother]
    · rfl

theorem webSocketMessage_frameStep {id : ℕ} {message : α} {sends : ℕ → Bool}
    (h : relay.Clean (.message id message sends)) (connectionId : String) :
    ∃ out lost, FrameStep connectionId relay (relay.webSocketMessage id message sends)
        (relay.arriving connectionId (.message id message sends)) out lost ∧
      (lost ≠ [] → maxPendingFrames < (relay.pending connectionId ++
        relay.arriving connectionId (.message id message sends)).length) := by
  unfold webSocketMessage arriving
  dsimp only
  cases hclient : relay.clientConnection id with
  | none =>
    rw [if_neg (by simp)]
    exact ⟨[], [], .same rfl rfl rfl, fun hlost => absurd rfl hlost⟩
  | some own =>
    dsimp only
    by_cases hown : own = connectionId
    · subst hown
      rw [if_pos rfl]
      exact forward_frameStep message sends (h own hclient)
    · rw [if_neg (by simpa using hown)]
      exact ⟨[], [], forward_other (Ne.symm hown) message sends, fun hlost => absurd rfl hlost⟩

theorem webSocketClose_frameStep (relay : RelayDurableObject α) (id : ℕ)
    (connectionId : String) :
    ∃ lost, FrameStep connectionId relay (relay.webSocketClose id) [] [] lost ∧
      (lost ≠ [] → (relay.webSocketClose id).hasClientSocket connectionId = false) := by
  unfold webSocketClose
  dsimp only
  split
  · rename_i own hclient
    split
    · exact ⟨[], .same rfl rfl rfl, fun hlost => absurd rfl hlost⟩
    · rename_i hlast
      by_cases hown : connectionId = own
      · subst hown
        -- the last client has gone, and what waited for the daemon with it
        refine ⟨relay.pending connectionId, ⟨?_, ?_, ?_⟩, ?_⟩
        · exact (append_nil _).symm
        · exact (append_nil _).symm
        · simp [pending]
        · intro _
          simp only [List.any_eq_true, not_exists, not_and, decide_eq_true_eq, not_not,
            getWebSockets, mem_filter] at hlast
          simp only [hasClientSocket, getWebSockets,
            List.filter_filter, decide_eq_false_iff_not, not_lt, Nat.le_zero,
            length_eq_zero_iff, filter_eq_nil_iff]
          intro socket hsocket
          have hid := hlast socket
          simp_all
      · apply Exists.intro []
        refine ⟨.same rfl rfl ?_, fun hlost => absurd rfl hlost⟩
        simp [pending, OrderedMap.get_delete_ne hown]
  · exact ⟨[], .same rfl rfl rfl, fun hlost => absurd rfl hlost⟩

/-- One operation: nothing is lost unless the last client leaves or too many frames wait. -/
theorem step_frameStep {op : RelayOp α} (h : relay.Clean op) (connectionId : String) :
    ∃ out lost, FrameStep connectionId relay (relay.step op) (relay.arriving connectionId op)
        out lost ∧
      (lost ≠ [] → (relay.step op).hasClientSocket connectionId = false ∨
        maxPendingFrames < (relay.pending connectionId ++ relay.arriving connectionId op).length) := by
  cases op with
  | connect role id assigned sends =>
    obtain ⟨out, hstep⟩ := fetchV2_frameStep h connectionId
    exact ⟨out, [], hstep, fun hlost => absurd rfl hlost⟩
  | message id message sends =>
    obtain ⟨out, lost, hstep, hlost⟩ := webSocketMessage_frameStep h connectionId
    exact ⟨out, lost, hstep, fun hne => .inr (hlost hne)⟩
  | close id =>
    obtain ⟨lost, hstep, hlost⟩ := webSocketClose_frameStep relay id connectionId
    exact ⟨[], lost, hstep, fun hne => .inl (hlost hne)⟩

theorem FrameStep.trans {relay'' : RelayDurableObject α} {arriving arriving' out out' : List α}
    (h : FrameStep connectionId relay relay' arriving out [])
    (h' : FrameStep connectionId relay' relay'' arriving' out' []) :
    FrameStep connectionId relay relay'' (arriving ++ arriving') (out ++ out') [] where
  received := by rw [h'.received, h.received, append_assoc]
  handed := by rw [h'.handed, h.handed, append_assoc]
  waiting := by
    have hfirst := h.waiting
    have hsecond := h'.waiting
    rw [append_nil] at hfirst hsecond
    calc relay.pending connectionId ++ (arriving ++ arriving')
        = (relay.pending connectionId ++ arriving) ++ arriving' := (append_assoc ..).symm
      _ = out ++ (relay'.pending connectionId ++ arriving') := by rw [hfirst, append_assoc]
      _ = out ++ out' ++ [] ++ relay''.pending connectionId := by
        rw [hsecond, append_nil, append_assoc]

theorem run_append (relay : RelayDurableObject α) (before during : List (RelayOp α)) :
    relay.run (before ++ during) = (relay.run before).run during :=
  foldl_append

theorem cleanRun_append {before during : List (RelayOp α)} :
    ∀ {relay : RelayDurableObject α}, relay.CleanRun (before ++ during) →
      relay.CleanRun before ∧ (relay.run before).CleanRun during := by
  induction before with
  | nil =>
    intro relay h
    exact ⟨trivial, h⟩
  | cons op before ih =>
    intro relay h
    obtain ⟨hbefore, hduring⟩ := ih h.2
    exact ⟨⟨h.1, hbefore⟩, hduring⟩

/-- What was handed over, with what waits after it, is a subsequence of what came in. -/
theorem handed_sublist_run (ops : List (RelayOp α)) :
    ∀ relay : RelayDurableObject α,
      (relay.handed connectionId ++ relay.pending connectionId).Sublist
        (relay.received connectionId) → relay.CleanRun ops →
      ((relay.run ops).handed connectionId ++ (relay.run ops).pending connectionId).Sublist
        ((relay.run ops).received connectionId) := by
  induction ops with
  | nil =>
    intro relay h _
    exact h
  | cons op ops ih =>
    intro relay h hclean
    obtain ⟨out, lost, hstep, _⟩ := step_frameStep hclean.1 connectionId
    apply ih (relay.step op) _ hclean.2
    rw [hstep.received, hstep.handed]
    have hgrown := h.append_right (relay.arriving connectionId op)
    rw [append_assoc, hstep.waiting] at hgrown
    apply List.Sublist.trans _ hgrown
    rw [append_assoc, append_assoc]
    exact ((sublist_append_right lost _).append_left out).append_left _

/-- While a client stays and the frames fit, all that came in is handed over or waits. -/
theorem steady_run (ops : List (RelayOp α)) :
    ∀ relay : RelayDurableObject α, relay.CleanRun ops → relay.SteadyRun connectionId ops →
      ∃ arriving out, FrameStep connectionId relay (relay.run ops) arriving out [] := by
  induction ops with
  | nil =>
    intro relay _ _
    exact ⟨[], [], .same rfl rfl rfl⟩
  | cons op ops ih =>
    intro relay hclean hsteady
    obtain ⟨out, lost, hstep, hlost⟩ := step_frameStep hclean.1 connectionId
    have hnone : lost = [] := by
      by_contra hne
      obtain ⟨hstays, hfits⟩ := hsteady.1
      rcases hlost hne with hgone | hmany
      · rw [hstays] at hgone
        cases hgone
      · omega
    subst hnone
    obtain ⟨arriving, more, hrest⟩ := ih (relay.step op) hclean.2 hsteady.2
    exact ⟨_, _, hstep.trans hrest⟩

end Steps

/-- In every run whose sends succeed where the condition asks for it, the frames of a
connection are handed over in order and at most once, and over any stretch in which a client
stays and the frames fit, those not handed over wait in the order of arrival. -/
theorem relayRuns_keepFrames (before during : List (RelayOp α)) (connectionId : String)
    (hclean : RelayDurableObject.start.CleanRun (before ++ during))
    (hsteady : (RelayDurableObject.start.run before).SteadyRun connectionId during) :
    ((RelayDurableObject.start.run (before ++ during)).handed connectionId).Sublist
        ((RelayDurableObject.start.run (before ++ during)).received connectionId) ∧
      ∃ arriving out, FrameStep connectionId (RelayDurableObject.start.run before)
        (RelayDurableObject.start.run (before ++ during)) arriving out [] := by
  constructor
  · have hempty : ((RelayDurableObject.start : RelayDurableObject α).handed connectionId ++
        (RelayDurableObject.start : RelayDurableObject α).pending connectionId).Sublist
          ((RelayDurableObject.start : RelayDurableObject α).received connectionId) :=
      List.Sublist.refl _
    have hrun := handed_sublist_run (before ++ during) _ hempty hclean
    exact (List.sublist_append_left _ _).trans hrun
  · rw [run_append]
    exact steady_run during _ (cleanRun_append hclean).2 hsteady

/-! ## Three runs -/

/-- Two frames wait, the second cannot be sent at first, and a third follows. -/
def retriedOps : List (RelayOp String) :=
  [.message 1 "x" fun _ => true, .message 1 "y" fun _ => true,
    .connect .server "c" "" fun turn => turn = 0, .close 2, .connect .server "c" "" fun _ => true,
    .message 1 "z" fun _ => true]

theorem relayRuns_keepFrames_retried :
    ((RelayDurableObject.start.run (.connect .client "c" "" (fun _ => true) :: retriedOps)).handed
        "c").Sublist
      ((RelayDurableObject.start.run
        (.connect .client "c" "" (fun _ => true) :: retriedOps)).received "c") ∧
      ∃ arriving out, FrameStep "c"
        (RelayDurableObject.start.run [.connect .client "c" "" fun _ => true])
        (RelayDurableObject.start.run (.connect .client "c" "" (fun _ => true) :: retriedOps))
        arriving out [] :=
  relayRuns_keepFrames [.connect .client "c" "" fun _ => true] retriedOps "c" (by decide)
    (by decide)

/-- Received, handed over, waiting; and whether a client is connected. -/
def RelayDurableObject.account (relay : RelayDurableObject α) (connectionId : String) :
    List α × List α × List α × Bool :=
  (relay.received connectionId, relay.handed connectionId, relay.pending connectionId,
    relay.hasClientSocket connectionId)

/-- A flush that fails at its first frame loses the second, and a frame whose `send` throws
is neither handed over nor buffered; the client stays connected all along. -/
theorem failedSends_loseFrames :
    (RelayDurableObject.start.run
        [.connect .client "c" "" fun _ => true, .message 1 "x" fun _ => true,
          .message 1 "y" fun _ => true, .connect .server "c" "" fun _ => false]).account "c" =
      (["x", "y"], [], ["x"], true) ∧
    (RelayDurableObject.start.run
        [.connect .client "c" "" fun _ => true, .connect .server "c" "" fun _ => true,
          .message 1 "x" fun _ => false]).account "c" =
      (["x"], [], [], true) := by
  decide

end Orqara.Relay
