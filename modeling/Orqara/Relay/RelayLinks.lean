import Orqara.Relay.DataLinks

/-!
# Links that recover and never double

In every state that the relay transport comes to, a closed control socket has one reconnect timer, a
connection has one data socket that was not told to close, and what an old socket reports is of no
effect.
-/

namespace Orqara.RelayTransport

open SameControls State JsonParse OrderedMap List Option

variable {st st' : State} {s : ℕ} {f : Socket → Socket} {encrypted : Bool} {event : Event} {id : Units}
  {message : ControlMessage}

/-! ## Attaching -/

/-- A socket whose handlers have attached it was given to `attachSocket` once, or will be. -/
structure AttachInv (attachments : List ℕ) (sockets : List Socket) : Prop where
  once : ∀ (k : ℕ) (socket : Socket), sockets[k]? = some socket →
    attachments.count k + (if socket.handshake = some .channel then 1 else 0) ≤
      if socket.attached then 1 else 0
  created : ∀ k ∈ attachments, k < sockets.length

def State.Once (st : State) : Prop := AttachInv st.attachments st.sockets

section

variable (h : st.Once)
include h

/-- One socket is changed, and may be given to `attachSocket` some times more. -/
theorem once_modify_attach (times : ℕ) (hlt : s < st.sockets.length)
    (honce : ∀ socket, st.sockets[s]? = some socket →
      st.attachments.count s + times + (if (f socket).handshake = some .channel then 1 else 0) ≤
        if (f socket).attached then 1 else 0) :
    AttachInv (st.attachments ++ List.replicate times s) (st.sockets.modify s f) where
  once k socket hsocket := by
    rw [getElem?_modify_eq] at hsocket
    obtain ⟨old, hold, rfl⟩ := map_eq_some_iff.mp hsocket
    rw [count_append, count_replicate]
    by_cases hk : s = k
    · subst hk
      simpa using honce old hold
    · simpa [hk] using h.once k old hold
  created k hk := by
    rw [length_modify]
    rcases mem_append.mp hk with hk | hk
    · exact h.created k hk
    · rwa [eq_of_mem_replicate hk]

theorem once_modify (hattached : ∀ socket, (f socket).attached = socket.attached)
    (hhandshake : ∀ socket, (f socket).handshake = some .channel →
      socket.handshake = some .channel) : (st.modify s f).Once := by
  by_cases hlt : s < st.sockets.length
  · have hmodified := once_modify_attach h 0 hlt (f := f) (by
      intro socket hsocket
      have honce := h.once s socket hsocket
      rw [hattached]
      by_cases hchannel : (f socket).handshake = some .channel
      · rw [if_pos (hhandshake socket hchannel)] at honce
        rwa [if_pos hchannel]
      · rw [if_neg hchannel]
        exact (Nat.le_add_right _ _).trans honce)
    rwa [replicate_zero, append_nil] at hmodified
  · have hsame : st.modify s f = st := by
      rw [State.modify, modify_eq_self (by omega)]
    rwa [hsame]

theorem once_tell (s : ℕ) : (st.tell s).Once :=
  once_modify h (fun _ => rfl) fun _ hhandshake => hhandshake

theorem once_tellAll (ss : List ℕ) : (st.tellAll ss).Once := by
  unfold tellAll
  induction ss generalizing st with
  | nil => exact h
  | cons s ss ih => exact ih (once_tell h s)

theorem once_create (role : Role) : (st.createWebSocket role).Once where
  once k socket hsocket := by
    rw [createWebSocket, getElem?_created] at hsocket
    split at hsocket
    · next hk =>
      have hnot : k ∉ st.attachments := fun hmem => absurd (h.created k hmem) (by omega)
      have hzero : st.attachments.count k = 0 := count_eq_zero.mpr hnot
      rw [← some.inj hsocket]
      change st.attachments.count k + _ ≤ _
      rw [hzero]
      simp
    · exact h.once k socket hsocket
  created k hk := by
    have hlt := h.created k hk
    simp only [createWebSocket, length_append, length_singleton]
    exact Nat.lt_succ_of_lt hlt

theorem once_connectControl : st.connectControl.Once := by
  unfold connectControl
  split
  · exact h
  · exact once_create h .control

theorem once_ensure (id : Units) : (st.ensureClientDataSocket id).Once := by
  unfold ensureClientDataSocket
  split
  · exact h
  · apply once_modify
    · exact once_create h (.data id)
    · exact fun _ => rfl
    · exact fun _ hhandshake => hhandshake

theorem once_handle (message : ControlMessage) :
    (st.handleControlMessage message).Once := by
  cases message with
  | ping => exact h
  | pong => exact h
  | sync ids =>
    simp only [handleControlMessage]
    induction ids generalizing st with
    | nil => exact h
    | cons id ids ih => exact ih (once_ensure h id)
  | connected id => exact once_ensure h id
  | disconnected id =>
    simp only [handleControlMessage]
    split
    · exact once_tell h _
    · exact h

theorem once_stop : st.stop.Once := by
  unfold stop
  dsimp only
  apply once_tellAll
  split
  · exact @once_tell st h _
  · exact h

omit h in
/-- A socket that was not attached yet is attached now, or when its channel is there. -/
theorem once_onDataOpen (encrypted : Bool) (h : st.Once) {socket : Socket}
    (hsocket : st.sockets[s]? = some socket) : (st.onDataOpen encrypted s socket).Once := by
  have hlt : s < st.sockets.length := (List.getElem?_eq_some_iff.mp hsocket).1
  have honce := h.once s socket hsocket
  unfold onDataOpen
  dsimp only
  split
  · exact h
  · next hattached =>
    rw [if_neg hattached] at honce
    have hcount : st.attachments.count s = 0 := by omega
    have hhandshake : socket.handshake ≠ some .channel := by
      intro hchannel
      rw [if_pos hchannel] at honce
      omega
    split
    · have hopened := once_modify_attach h 0 hlt
        (f := fun socket => { socket with attached := true, handshake := some .channel })
        (by simp [hcount])
      rwa [replicate_zero, append_nil] at hopened
    · apply once_modify_attach h 1 hlt
      intro found hfound
      rw [hsocket] at hfound
      rw [← some.inj hfound]
      simp [hcount, hhandshake]

theorem once_channel {socket : Socket} (hsocket : st.sockets[s]? = some socket)
    (hchannel : socket.handshake = some .channel) :
    (st.step encrypted (.channelSettles s true)).Once := by
  have hlt : s < st.sockets.length := (List.getElem?_eq_some_iff.mp hsocket).1
  apply once_modify_attach h 1 hlt
  intro found hfound
  rw [hsocket] at hfound
  rw [← some.inj hfound]
  have honce := h.once s socket hsocket
  rw [if_pos hchannel] at honce
  simpa using honce

theorem once_markControlReady (s : ℕ) (controlConnected : Bool) :
    (st.markControlReady s controlConnected).Once := by
  unfold markControlReady
  split
  · exact h
  · exact once_modify (s := s) h (fun _ => rfl) fun _ hhandshake => hhandshake

theorem once_onControlMessage (s now : ℕ) (socket : Socket) (text : List Char) :
    (st.onControlMessage s now socket text).Once := by
  unfold onControlMessage
  dsimp only
  split
  · apply once_handle
    apply once_markControlReady
    exact h
  · exact h

theorem once_clearKeepalive : st.clearControlKeepaliveInterval.Once := h

theorem once_clearReady : st.clearControlReadyTimeout.Once := h

theorem once_armReady (s : ℕ) :
    State.Once { st.arm (.controlReady s) with
      controlReadyTimeout := some (st.nextTimer (.controlReady s)) } := h

theorem once_armKeepalive (s : ℕ) :
    State.Once { st.arm (.keepalive s) with
      controlKeepaliveInterval := some (st.nextTimer (.keepalive s)) } := h

theorem once_onControlOpen (s now : ℕ) (pingFails : Bool) :
    (st.onControlOpen s now pingFails).Once := by
  have hseen : State.Once { st with controlLastSeenAt := now } := h
  have harmed := once_armKeepalive (once_armReady (once_clearReady (once_clearKeepalive hseen)) s) s
  unfold onControlOpen
  dsimp only
  split
  · exact once_tell harmed s
  · exact harmed

theorem once_onControlClose : st.onControlClose.Once := by
  unfold onControlClose scheduleReconnect
  split
  · exact h
  · exact h

theorem once_onDataClose (s : ℕ) (socket : Socket) (id : Units) :
    (st.onDataClose s socket id).Once := by
  unfold onDataClose
  dsimp only
  split
  · exact h
  · exact h

theorem once_report (event : Event) : (st.report event).Once := by
  unfold report
  split
  · exact once_modify h (fun _ => rfl) fun _ hhandshake => hhandshake
  · exact h

omit h in
theorem once_onSocketEvent (encrypted : Bool) (h : st.Once) (s : ℕ) (event : Event) :
    (st.onSocketEvent encrypted s event).Once := by
  have hreport := once_report h event
  unfold onSocketEvent
  split
  · exact h
  · next socket hsocket =>
    split
    · cases event with
      | socketOpen _ now pingFails =>
        simp only [onControlEvent]
        split
        · exact once_onControlOpen hreport s now pingFails
        · exact hreport
      | socketMessage _ now text =>
        simp only [onControlEvent]
        split
        · exact once_onControlMessage hreport s now socket text
        · exact hreport
      | socketPong _ now =>
        simp only [onControlEvent]
        split
        · exact hreport
        · exact hreport
      | socketClose _ =>
        simp only [onControlEvent]
        split
        · exact once_onControlClose hreport
        · exact hreport
      | _ => exact hreport
    · next id _ =>
      cases event with
      | socketOpen _ now pingFails => exact once_onDataOpen encrypted h hsocket
      | socketClose _ => exact once_onDataClose hreport s socket id
      | _ => exact hreport

theorem once_onTimer (timer : Timer) (now : ℕ) (isOpen pingFails : Bool) :
    (st.onTimer timer now isOpen pingFails).Once := by
  unfold onTimer
  split
  · apply once_connectControl
    exact h
  · next s _ =>
    dsimp only
    split
    · exact h
    · apply once_tell
      exact h
  · next s _ =>
    split
    · exact h
    · split
      · exact once_tell h s
      · exact h
  · next s _ =>
    dsimp only
    split
    · exact h
    · apply once_tell
      exact h

end

theorem once_step (encrypted : Bool) (h : st.Once) (hpossible : st.Possible event) :
    (st.step encrypted event).Once := by
  cases event with
  | timerFires timer now isOpen pingFails => exact once_onTimer h timer now isOpen pingFails
  | stop => exact once_stop h
  | channelSettles s resolves =>
    obtain ⟨socket, hsocket, hchannel⟩ := hpossible
    cases resolves with
    | true => exact once_channel h hsocket hchannel
    | false =>
      apply once_tell
      exact once_modify h (fun _ => rfl) (by simp)
  | attachSettles s resolves =>
    cases resolves with
    | true => exact once_modify (s := s) h (fun _ => rfl) (by simp)
    | false =>
      apply once_tell
      exact once_modify h (fun _ => rfl) (by simp)
  | ownerCloses s => exact once_tell h s
  | socketOpen s now pingFails => exact once_onSocketEvent encrypted h s _
  | socketMessage s now text => exact once_onSocketEvent encrypted h s _
  | socketPong s now => exact once_onSocketEvent encrypted h s _
  | socketError s => exact once_onSocketEvent encrypted h s _
  | socketClose s => exact once_onSocketEvent encrypted h s _

/-! ## The current control socket -/

/-- The newest control socket is the current one until it closes or the transport stops, and the
reconnect timer is armed while there is none. -/
structure CurrentInv (stopped : Bool) (controlWs : Option ℕ) (reconnect : Option Timer)
    (sockets : List Socket) : Prop where
  current : ∀ s, controlWs = some s →
    stopped = false ∧ IsNewestControl sockets s ∧ ¬ HasClosed sockets s
  newest : stopped = false → ∀ s, IsNewestControl sockets s → ¬ HasClosed sockets s →
    controlWs = some s
  waiting : stopped = false → (reconnect ≠ none ↔ controlWs = none)

def State.Current (st : State) : Prop :=
  CurrentInv st.stopped st.controlWs st.reconnectTimeout st.sockets

/-- What leaves the current control socket and the reconnect timer. -/
structure Quiet (st st' : State) : Prop where
  stopped : st'.stopped = st.stopped
  controlWs : st'.controlWs = st.controlWs
  reconnect : st'.reconnectTimeout = st.reconnectTimeout
  controls : SameControls st.sockets st'.sockets

theorem Quiet.refl (st : State) : Quiet st st := ⟨rfl, rfl, rfl, SameControls.refl _⟩

theorem Quiet.trans {a b c : State} (hab : Quiet a b) (hbc : Quiet b c) : Quiet a c :=
  ⟨hbc.stopped.trans hab.stopped, hbc.controlWs.trans hab.controlWs,
    hbc.reconnect.trans hab.reconnect, hab.controls.trans hbc.controls⟩

theorem State.Current.quiet (h : st.Current) (hquiet : Quiet st st') : st'.Current := by
  unfold State.Current
  rw [hquiet.stopped, hquiet.controlWs, hquiet.reconnect]
  refine ⟨?_, ?_, h.waiting⟩
  · intro s hs
    obtain ⟨hrunning, hnewest, hopen⟩ := h.current s hs
    refine ⟨hrunning, (hquiet.controls.newest s).mpr hnewest, ?_⟩
    rwa [hquiet.controls.closed s hnewest.1]
  · intro hrunning s hnewest hopen
    have hnewest' := (hquiet.controls.newest s).mp hnewest
    rw [hquiet.controls.closed s hnewest'.1] at hopen
    exact h.newest hrunning s hnewest' hopen

theorem quiet_modify (st : State) (s : ℕ) (f : Socket → Socket)
    (hrole : ∀ socket, (f socket).role = socket.role)
    (hclosed : ∀ socket, (f socket).closed = socket.closed) : Quiet st (st.modify s f) :=
  ⟨rfl, rfl, rfl, sameControls_modify hrole hclosed _ _⟩

theorem quiet_tell (st : State) (s : ℕ) : Quiet st (st.tell s) :=
  quiet_modify st s _ (fun _ => rfl) fun _ => rfl

theorem quiet_clear (st : State) (timer : Option Timer) : Quiet st (st.clear timer) :=
  ⟨rfl, rfl, rfl, refl _⟩

theorem quiet_clearKeepalive (st : State) : Quiet st st.clearControlKeepaliveInterval :=
  ⟨rfl, rfl, rfl, refl _⟩

theorem quiet_clearReady (st : State) : Quiet st st.clearControlReadyTimeout :=
  ⟨rfl, rfl, rfl, refl _⟩

theorem quiet_armReady (st : State) (s : ℕ) :
    Quiet st { st.arm (.controlReady s) with
      controlReadyTimeout := some (st.nextTimer (.controlReady s)) } :=
  ⟨rfl, rfl, rfl, refl _⟩

theorem quiet_armKeepalive (st : State) (s : ℕ) :
    Quiet st { st.arm (.keepalive s) with
      controlKeepaliveInterval := some (st.nextTimer (.keepalive s)) } :=
  ⟨rfl, rfl, rfl, refl _⟩

theorem quiet_tellAll (st : State) (ss : List ℕ) : Quiet st (st.tellAll ss) := by
  unfold tellAll
  induction ss generalizing st with
  | nil => exact Quiet.refl st
  | cons s ss ih => exact (quiet_tell st s).trans (ih (st.tell s))

theorem quiet_createData (st : State) (id : Units) : Quiet st (st.createWebSocket (.data id)) :=
  ⟨rfl, rfl, rfl, sameControls_append (by simp) _⟩

theorem quiet_ensure (st : State) (id : Units) : Quiet st (st.ensureClientDataSocket id) := by
  unfold ensureClientDataSocket
  split
  · exact Quiet.refl st
  · have hcreated := quiet_createData st id
    refine ⟨rfl, rfl, rfl, hcreated.controls.trans (sameControls_modify ?_ ?_ _ _)⟩
    · exact fun _ => rfl
    · exact fun _ => rfl

theorem quiet_ensureAll (st : State) (ids : List Units) :
    Quiet st (ids.foldl ensureClientDataSocket st) := by
  induction ids generalizing st with
  | nil => exact Quiet.refl st
  | cons id ids ih => exact (quiet_ensure st id).trans (ih _)

theorem quiet_handle (st : State) (message : ControlMessage) :
    Quiet st (st.handleControlMessage message) := by
  cases message with
  | ping => exact Quiet.refl st
  | pong => exact Quiet.refl st
  | sync ids => exact quiet_ensureAll st ids
  | connected id => exact quiet_ensure st id
  | disconnected id =>
    simp only [handleControlMessage]
    split
    · next existing _ =>
      have htold := quiet_tell st existing
      exact ⟨rfl, rfl, rfl, htold.controls⟩
    · exact Quiet.refl st

theorem quiet_markControlReady (st : State) (s : ℕ) (controlConnected : Bool) :
    Quiet st (st.markControlReady s controlConnected) := by
  unfold markControlReady
  split
  · exact Quiet.refl st
  · have hmodified := quiet_modify st s (fun socket => { socket with controlConnected := true })
      (fun _ => rfl) fun _ => rfl
    exact ⟨rfl, rfl, rfl, hmodified.controls⟩

theorem quiet_onControlMessage (st : State) (s now : ℕ) (socket : Socket) (text : List Char) :
    Quiet st (st.onControlMessage s now socket text) := by
  have hseen : Quiet st { st with controlLastSeenAt := now } := ⟨rfl, rfl, rfl, refl _⟩
  unfold onControlMessage
  dsimp only
  split
  · exact hseen.trans ((quiet_markControlReady _ s socket.controlConnected).trans (quiet_handle _ _))
  · exact hseen

theorem quiet_onControlOpen (st : State) (s now : ℕ) (pingFails : Bool) :
    Quiet st (st.onControlOpen s now pingFails) := by
  have hseen : Quiet st { st with controlLastSeenAt := now } := ⟨rfl, rfl, rfl, refl _⟩
  have hcleared := hseen.trans ((quiet_clearKeepalive _).trans (quiet_clearReady _))
  have harmed := hcleared.trans ((quiet_armReady _ s).trans (quiet_armKeepalive _ s))
  unfold onControlOpen
  dsimp only
  split
  · exact harmed.trans (quiet_tell _ s)
  · exact harmed

theorem quiet_onDataOpen (encrypted : Bool) (st : State) (s : ℕ) (socket : Socket) :
    Quiet st (st.onDataOpen encrypted s socket) := by
  have hclear := quiet_clear st socket.openTimeout
  unfold onDataOpen
  dsimp only
  split
  · exact hclear
  · split
    · exact hclear.trans (quiet_modify _ s _ (fun _ => rfl) fun _ => rfl)
    · have hmodified := quiet_modify (st.clear socket.openTimeout) s
        (fun socket => { socket with attached := true }) (fun _ => rfl) fun _ => rfl
      exact ⟨rfl, rfl, rfl, hmodified.controls⟩

theorem quiet_closeData {socket : Socket} (hsocket : st.sockets[s]? = some socket)
    (hrole : socket.role = .data id) :
    Quiet st ((st.report (.socketClose s)).onDataClose s socket id) := by
  have hdata : ¬ IsControl st.sockets s := by
    rintro ⟨found, hfound, hcontrol⟩
    rw [hsocket] at hfound
    rw [← some.inj hfound, hrole] at hcontrol
    contradiction
  have hreport : SameControls st.sockets (st.report (.socketClose s)).sockets := by
    apply sameControls_modify_data _ hdata
    exact fun _ => rfl
  unfold onDataClose
  dsimp only
  split
  · exact ⟨rfl, rfl, rfl, hreport⟩
  · exact ⟨rfl, rfl, rfl, hreport⟩

/-! ## What moves the current control socket -/

theorem current_stop (st : State) : st.stop.Current := by
  have hlast : ∀ middle : State, middle.stopped = true → middle.controlWs = none →
      State.Current { middle.tellAll (middle.dataSockets.entries.map Prod.snd) with
        dataSockets := ∅ } := by
    intro middle hstopped hnone
    have hquiet := quiet_tellAll middle (middle.dataSockets.entries.map Prod.snd)
    have hstopped' := hquiet.stopped.trans hstopped
    refine ⟨?_, ?_, ?_⟩
    · intro s hs
      rw [hquiet.controlWs, hnone] at hs
      contradiction
    · intro hrunning
      rw [hstopped'] at hrunning
      contradiction
    · intro hrunning
      rw [hstopped'] at hrunning
      contradiction
  unfold stop
  dsimp only
  apply hlast
  · split
    · rfl
    · rfl
  · split
    · rfl
    · assumption

/-- The current socket closes: the reconnect timer is armed. -/
theorem current_closeControl (h : st.Current) (hs : st.controlWs = some s) :
    (st.report (.socketClose s)).onControlClose.Current := by
  obtain ⟨hrunning, hnewest, -⟩ := h.current s hs
  have hquiet : st.reconnectTimeout = none := by
    by_contra hsome
    rw [(h.waiting hrunning).mp hsome] at hs
    contradiction
  have hclosed : HasClosed (st.report (.socketClose s)).sockets s := by
    obtain ⟨socket, hsocket, -⟩ := hnewest.1
    refine ⟨{ socket with closed := true }, ?_, rfl⟩
    simp only [State.report, State.modify]
    rw [getElem?_modify_eq, hsocket, map_some, if_pos rfl]
  have hcontrols : ∀ k, IsControl (st.report (.socketClose s)).sockets k ↔ IsControl st.sockets k := by
    intro k
    apply isControl_modify
    exact fun _ => rfl
  have hschedule : (st.report (.socketClose s)).onControlClose.reconnectTimeout ≠ none := by
    simp [State.onControlClose, State.scheduleReconnect, State.clearControlKeepaliveInterval,
      State.clearControlReadyTimeout, State.clear, State.report, State.modify, hrunning, hquiet]
  have hnone : (st.report (.socketClose s)).onControlClose.controlWs = none := by
    unfold State.onControlClose State.scheduleReconnect
    split
    · rfl
    · rfl
  have hsockets : (st.report (.socketClose s)).onControlClose.sockets =
      (st.report (.socketClose s)).sockets := by
    unfold onControlClose scheduleReconnect
    split
    · rfl
    · rfl
  unfold State.Current
  rw [hnone, hsockets]
  refine ⟨?_, ?_, ?_⟩
  · intro k hk
    contradiction
  · intro _ k hk hopen
    have hle := hnewest.2 k ((hcontrols k).mp hk.1)
    have hge := hk.2 s ((hcontrols s).mpr hnewest.1)
    have heq : k = s := by omega
    rw [heq] at hopen
    exact absurd hclosed hopen
  · intro _
    exact ⟨fun _ => rfl, fun _ => hschedule⟩

/-- A control socket that is not the current one closes. -/
theorem current_closeOld (h : st.Current) (hs : st.controlWs ≠ some s) :
    (st.report (.socketClose s)).Current := by
  have hcontrols : ∀ k, IsControl (st.report (.socketClose s)).sockets k ↔ IsControl st.sockets k := by
    intro k
    apply isControl_modify
    exact fun _ => rfl
  have hnewest : ∀ k, IsNewestControl (st.report (.socketClose s)).sockets k ↔
      IsNewestControl st.sockets k := by
    intro k
    simp only [IsNewestControl, hcontrols]
  refine ⟨?_, ?_, h.waiting⟩
  · intro k hk
    obtain ⟨hrunning, hnew, hopen⟩ := h.current k hk
    have hne : s ≠ k := fun heq => hs (heq ▸ hk)
    refine ⟨hrunning, (hnewest k).mpr hnew, ?_⟩
    simp only [State.report, State.modify]
    rwa [hasClosed_modify_ne hne]
  · intro hrunning k hnew hopen
    apply h.newest hrunning k ((hnewest k).mp hnew)
    intro hclosed
    apply hopen
    by_cases hk : s = k
    · obtain ⟨socket, hsocket, -⟩ := hclosed
      refine ⟨{ socket with closed := true }, ?_, rfl⟩
      simp only [State.report, State.modify]
      rw [getElem?_modify_eq, hsocket, map_some, if_pos hk]
    · simp only [State.report, State.modify]
      rwa [hasClosed_modify_ne hk]

/-- The control socket that is created is the newest one. -/
theorem current_connectControl (hnone : st.controlWs = none) (hreconnect : st.reconnectTimeout = none) :
    st.connectControl.Current := by
  unfold connectControl
  split
  · next hstopped =>
    refine ⟨?_, ?_, ?_⟩
    · intro s hs
      rw [hnone] at hs
      contradiction
    · intro hrunning
      rw [hstopped] at hrunning
      contradiction
    · intro hrunning
      rw [hstopped] at hrunning
      contradiction
  · next hrunning =>
    have hcreated : ∀ k, (st.createWebSocket .control).sockets[k]? =
        if k = st.sockets.length then
          some ⟨.control, false, none, false, none, false, false⟩
        else st.sockets[k]? := fun k => getElem?_created _ _ _
    have hlast : IsNewestControl (st.createWebSocket .control).sockets st.sockets.length := by
      refine ⟨⟨_, (hcreated _).trans (if_pos rfl), rfl⟩, ?_⟩
      rintro k ⟨socket, hsocket, -⟩
      have hlt := (List.getElem?_eq_some_iff.mp hsocket).1
      simp only [createWebSocket, length_append, length_singleton] at hlt
      omega
    refine ⟨?_, ?_, ?_⟩
    · intro k hk
      have heq : st.sockets.length = k := some.inj hk
      refine ⟨Bool.eq_false_iff.mpr hrunning, heq ▸ hlast, ?_⟩
      rintro ⟨socket, hsocket, hclosed⟩
      change (st.createWebSocket .control).sockets[k]? = some socket at hsocket
      rw [hcreated, if_pos heq.symm] at hsocket
      rw [← some.inj hsocket] at hclosed
      contradiction
    · intro _ k hk _
      have hle := hk.2 _ hlast.1
      have hge := hlast.2 k hk.1
      have heq : st.sockets.length = k := by omega
      exact congrArg some heq
    · intro _
      change st.reconnectTimeout ≠ none ↔ some st.sockets.length = none
      simp [hreconnect]

theorem current_onTimer (h : st.Current) (htimed : st.Timed) (timer : Timer) (now : ℕ)
    (isOpen pingFails : Bool) (harmed : timer ∈ st.armed) :
    (st.onTimer timer now isOpen pingFails).Current := by
  unfold onTimer
  split
  · next delay hkind =>
    have hreconnect := htimed.only timer harmed delay hkind
    apply current_connectControl
    · change st.controlWs = none
      cases hcurrent : st.controlWs with
      | none => rfl
      | some s =>
        obtain ⟨hrunning, -, -⟩ := h.current s hcurrent
        have hsome : st.reconnectTimeout ≠ none := by simp [hreconnect]
        rw [(h.waiting hrunning).mp hsome] at hcurrent
        contradiction
    · rfl
  · next s _ =>
    have hclear : Quiet st (st.clear (some timer)) := ⟨rfl, rfl, rfl, refl _⟩
    dsimp only
    split
    · exact h.quiet hclear
    · exact h.quiet (hclear.trans (quiet_tell _ s))
  · next s _ =>
    split
    · exact h
    · split
      · exact h.quiet (quiet_tell st s)
      · exact h
  · next s _ =>
    have hclear : Quiet st (st.clear (some timer)) := ⟨rfl, rfl, rfl, refl _⟩
    dsimp only
    split
    · exact h.quiet hclear
    · exact h.quiet (hclear.trans (quiet_tell _ s))

theorem current_onSocketEvent (encrypted : Bool) (h : st.Current) (hevent : event.socket = some s) :
    (st.onSocketEvent encrypted s event).Current := by
  unfold onSocketEvent
  split
  · exact h
  · next socket hsocket =>
    split
    · cases event with
      | socketOpen k now pingFails =>
        simp only [onControlEvent]
        split
        · exact h.quiet (quiet_onControlOpen _ s now pingFails)
        · exact h
      | socketMessage k now text =>
        simp only [onControlEvent]
        split
        · exact h.quiet (quiet_onControlMessage _ s now socket text)
        · exact h
      | socketPong k now =>
        simp only [onControlEvent]
        split
        · exact h.quiet ⟨rfl, rfl, rfl, refl _⟩
        · exact h
      | socketClose k =>
        have hk : k = s := some.inj hevent
        rw [hk]
        simp only [onControlEvent]
        split
        · next hs => exact current_closeControl h hs
        · next hs => exact current_closeOld h hs
      | socketError k => exact h
      | _ => contradiction
    · next id hrole =>
      cases event with
      | socketOpen k now pingFails => exact h.quiet (quiet_onDataOpen encrypted st s socket)
      | socketClose k =>
        have hk : k = s := some.inj hevent
        rw [hk]
        exact h.quiet (quiet_closeData hsocket hrole)
      | socketMessage k now text => exact h
      | socketPong k now => exact h
      | socketError k => exact h
      | _ => contradiction

theorem current_step (encrypted : Bool) (h : st.Current) (htimed : st.Timed)
    (hpossible : st.Possible event) : (st.step encrypted event).Current := by
  cases event with
  | timerFires timer now isOpen pingFails =>
    exact current_onTimer h htimed timer now isOpen pingFails hpossible
  | stop => exact current_stop st
  | channelSettles s resolves =>
    cases resolves with
    | true =>
      have hmodified := quiet_modify st s
        (fun socket => { socket with handshake := some .attaching }) (fun _ => rfl) fun _ => rfl
      exact h.quiet ⟨rfl, rfl, rfl, hmodified.controls⟩
    | false =>
      have hmodified := quiet_modify st s (fun socket => { socket with handshake := some .settled })
        (fun _ => rfl) fun _ => rfl
      exact h.quiet (hmodified.trans (quiet_tell _ s))
  | attachSettles s resolves =>
    cases resolves with
    | true => exact h.quiet (quiet_modify st s _ (fun _ => rfl) fun _ => rfl)
    | false =>
      have hmodified := quiet_modify st s (fun socket => { socket with handshake := some .settled })
        (fun _ => rfl) fun _ => rfl
      exact h.quiet (hmodified.trans (quiet_tell _ s))
  | ownerCloses s => exact h.quiet (quiet_tell st s)
  | socketOpen s now pingFails => exact current_onSocketEvent encrypted h rfl
  | socketMessage s now text => exact current_onSocketEvent encrypted h rfl
  | socketPong s now => exact current_onSocketEvent encrypted h rfl
  | socketError s => exact current_onSocketEvent encrypted h rfl
  | socketClose s => exact current_onSocketEvent encrypted h rfl

/-! ## Runs -/

structure Inv (st : State) : Prop where
  timed : st.Timed
  tabled : st.Tabled
  once : st.Once
  current : st.Current

theorem inv_initial : Inv startRelayTransport where
  timed := by
    apply timed_connectControl
    exact ⟨by simp [initial], by simp [initial], by simp [initial],
      by simp [initial], by simp [initial]⟩
  tabled := by
    apply tabled_connectControl
    refine ⟨?_, by simp [initial]⟩
    intro id k hget
    contradiction
  once := by
    apply once_connectControl
    exact ⟨by simp [initial], by simp [initial]⟩
  current := current_connectControl rfl rfl

theorem Reached.inv (h : Reached encrypted st) : Inv st := by
  induction h with
  | start => exact inv_initial
  | step _ event possible ih =>
    exact ⟨timed_step encrypted ih.timed possible, tabled_step encrypted ih.tabled event,
      once_step encrypted ih.once possible, current_step encrypted ih.current ih.timed possible⟩

/-! ## Announced connections -/

/-- A data socket of a connection that has not reported its close. -/
def OpenData (st : State) (id : Units) (k : ℕ) : Prop :=
  ∃ socket, st.sockets[k]? = some socket ∧ socket.role = .data id ∧ socket.closed = false

/-- One that was not told to close either. -/
def KeptData (st : State) (id : Units) (k : ℕ) : Prop :=
  ∃ socket, st.sockets[k]? = some socket ∧ socket.role = .data id ∧ socket.told = false ∧
    socket.closed = false

theorem trimUnits_nil : trimUnits [] = [] := rfl

theorem ne_nil_of_announced {text : List Char} (hparse : tryParseControlMessage text = some message)
    (hid : id ∈ message.announces) :
    id ≠ [] := by
  have hconnection : ∀ members, connectionIdOf members = some id → id ≠ [] := by
    intro members h
    unfold connectionIdOf at h
    split at h
    · split at h
      · contradiction
      · next hne => rwa [← some.inj h]
    · contradiction
  have hsync : ∀ items, id ∈ syncIds items → id ≠ [] := by
    intro items h hnil
    obtain ⟨item, -, hitem⟩ := mem_filterMap.mp h
    split at hitem
    · split at hitem
      · contradiction
      · next hne =>
        apply hne
        rw [some.inj hitem, hnil, trimUnits_nil]
    · contradiction
  unfold tryParseControlMessage at hparse
  split at hparse
  · next members _ =>
    split at hparse
    · split at hparse
      · rw [← some.inj hparse] at hid
        contradiction
      · split at hparse
        · rw [← some.inj hparse] at hid
          contradiction
        · split at hparse
          · split at hparse
            · next items _ =>
              rw [← some.inj hparse] at hid
              exact hsync items hid
            · contradiction
          · split at hparse
            · obtain ⟨found, hfound, rfl⟩ := map_eq_some_iff.mp hparse
              rw [ControlMessage.announces, mem_singleton] at hid
              exact hconnection members (hid ▸ hfound)
            · split at hparse
              · obtain ⟨found, -, rfl⟩ := map_eq_some_iff.mp hparse
                contradiction
              · contradiction
    · contradiction
  · contradiction

theorem ensure_keeps {id' : Units} (h : id' ∈ st.dataSockets.keys) :
    id' ∈ (st.ensureClientDataSocket id).dataSockets.keys := by
  unfold ensureClientDataSocket
  split
  · exact h
  · next hnew =>
    push Not at hnew
    change id' ∈ (st.dataSockets.set id st.sockets.length).keys
    rw [keys_set_of_not_mem hnew.2.2]
    exact mem_append_left _ h

section

variable (hrunning : st.stopped = false)
include hrunning

theorem ensure_adds (hid : id ≠ []) :
    id ∈ (st.ensureClientDataSocket id).dataSockets.keys := by
  unfold ensureClientDataSocket
  split
  · next hold =>
    rcases hold with hstopped | hnil | hmem
    · rw [hrunning] at hstopped
      contradiction
    · contradiction
    · exact hmem
  · change id ∈ (st.dataSockets.set id st.sockets.length).keys
    exact mem_keys_of_get get_set_self

omit hrunning in
theorem ensureAll_keeps {ids : List Units} (h : id ∈ st.dataSockets.keys) :
    id ∈ (ids.foldl ensureClientDataSocket st).dataSockets.keys := by
  induction ids generalizing st with
  | nil => exact h
  | cons first ids ih => exact ih (ensure_keeps h)

theorem ensureAll_adds {ids : List Units} (hid : id ≠ [])
    (hmem : id ∈ ids) :
    id ∈ (ids.foldl ensureClientDataSocket st).dataSockets.keys := by
  induction ids generalizing st with
  | nil => contradiction
  | cons first ids ih =>
    have hrunning' := (quiet_ensure st first).stopped.trans hrunning
    rcases mem_cons.mp hmem with heq | hmem
    · rw [foldl_cons, heq]
      exact ensureAll_keeps (ensure_adds hrunning (heq ▸ hid))
    · exact ih hrunning' hmem

theorem handle_adds (hid : id ≠ []) (hmem : id ∈ message.announces) :
    id ∈ (st.handleControlMessage message).dataSockets.keys := by
  cases message with
  | sync ids => exact ensureAll_adds hrunning hid hmem
  | connected first =>
    rw [ControlMessage.announces, mem_singleton] at hmem
    rw [hmem]
    exact ensure_adds hrunning (hmem ▸ hid)
  | _ => contradiction

end

/-- The table has the connections that the current control socket announces. -/
theorem announced_mem (encrypted : Bool) (now : ℕ) (h : Inv st) (hrunning : st.stopped = false)
    (hnewest : IsNewestControl st.sockets s) (hopen : ¬ HasClosed st.sockets s) {text : List Char}
    (hparse : tryParseControlMessage text = some message) (hid : id ∈ message.announces) :
    id ∈ (st.step encrypted (.socketMessage s now text)).dataSockets.keys := by
  have hcurrent := h.current.newest hrunning s hnewest hopen
  obtain ⟨socket, hsocket, hrole⟩ := hnewest.1
  have hstep : st.step encrypted (.socketMessage s now text) =
      st.onControlMessage s now socket text := by
    simp only [step, onSocketEvent, hsocket, hrole, report, onControlEvent]
    exact if_pos hcurrent
  rw [hstep]
  simp only [onControlMessage, hparse]
  apply handle_adds _ (ne_nil_of_announced hparse hid) hid
  exact (quiet_markControlReady _ s socket.controlConnected).stopped.trans hrunning

/-! ## The links -/

/-- The handlers of a control socket do nothing once there is a newer one. -/
theorem oldControl_ignored (h : Inv st) (hevent : event.socket = some s)
    (hcontrol : IsControl st.sockets s) (hold : ¬ IsNewestControl st.sockets s) :
    st.step encrypted event = st.report event := by
  obtain ⟨socket, hsocket, hrole⟩ := hcontrol
  have hother : st.controlWs ≠ some s := fun heq => hold (h.current.current s heq).2.1
  have hbehind : (st.report event).onControlEvent s socket event = st.report event := by
    cases event with
    | socketOpen k now pingFails => exact if_neg hother
    | socketMessage k now text => exact if_neg hother
    | socketPong k now => exact if_neg hother
    | socketClose k => exact if_neg hother
    | _ => rfl
  have hhandlers : st.onSocketEvent encrypted s event = st.report event := by
    simp only [onSocketEvent, hsocket, hrole]
    exact hbehind
  cases event with
  | timerFires => contradiction
  | stop => contradiction
  | channelSettles => contradiction
  | attachSettles => contradiction
  | ownerCloses => contradiction
  | _ k =>
    rw [← some.inj hevent] at hhandlers
    exact hhandlers

theorem reconnect_unique (h : Inv st) (hrunning : st.stopped = false)
    (hnewest : IsNewestControl st.sockets s) (hclosed : HasClosed st.sockets s) :
    ∃! timer, timer ∈ st.armed ∧ ∃ delay, timer.kind = .reconnect delay := by
  have hnone : st.controlWs = none := by
    cases hcurrent : st.controlWs with
    | none => rfl
    | some k =>
      obtain ⟨-, hk, hopen⟩ := h.current.current k hcurrent
      have hle := hk.2 s hnewest.1
      have hge := hnewest.2 k hk.1
      have heq : k = s := by omega
      rw [heq] at hopen
      exact absurd hclosed hopen
  obtain ⟨timer, htimer⟩ := ne_none_iff_exists'.mp ((h.current.waiting hrunning).mpr hnone)
  refine ⟨timer, h.timed.armed timer htimer, ?_⟩
  rintro other ⟨hother, delay, hkind⟩
  have hsame := h.timed.only other hother delay hkind
  rw [htimer] at hsame
  exact (some.inj hsame).symm

theorem kept_unique (h : Inv st) {k k' : ℕ} (hk : KeptData st id k) (hk' : KeptData st id k') : k = k' := by
  obtain ⟨socket, hsocket, hrole, htold, hclosed⟩ := hk
  obtain ⟨socket', hsocket', hrole', htold', hclosed'⟩ := hk'
  have hget := h.tabled.covers k socket id hsocket hrole htold hclosed
  have hget' := h.tabled.covers k' socket' id hsocket' hrole' htold' hclosed'
  rw [hget] at hget'
  exact some.inj hget'

/-- A connection of the table has a data socket that has not closed, and the others that have not
were told to close. -/
theorem held_open (h : st.Tabled) (hid : id ∈ st.dataSockets.keys) :
    ∃ k, st.dataSockets.get id = some k ∧ OpenData st id k ∧
      ∀ k', OpenData st id k' → k' ≠ k →
        ∃ socket, st.sockets[k']? = some socket ∧ socket.told = true := by
  obtain ⟨k, hk⟩ := get_of_mem_keys hid
  refine ⟨k, hk, h.held id k hk, ?_⟩
  rintro k' ⟨socket, hsocket, hrole, hclosed⟩ hne
  refine ⟨socket, hsocket, ?_⟩
  by_contra htold
  have hget := h.covers k' socket id hsocket hrole (Bool.eq_false_iff.mpr htold) hclosed
  rw [hk] at hget
  exact hne (some.inj hget).symm

theorem lateClose_keeps (encrypted : Bool) {k k' : ℕ}
    (hdata : ∃ socket, st.sockets[k]? = some socket ∧ socket.role = .data id)
    (hget : st.dataSockets.get id = some k') (hne : k ≠ k') :
    (st.step encrypted (.socketClose k)).dataSockets.get id = some k' := by
  obtain ⟨socket, hsocket, hrole⟩ := hdata
  have hother : ¬ st.dataSockets.get id = some k := by
    rw [hget]
    exact fun heq => hne (some.inj heq).symm
  simp only [step, onSocketEvent, hsocket, hrole, onDataEvent, onDataClose]
  change (if st.dataSockets.get id = some k then _ else _ : State).dataSockets.get id = some k'
  rw [if_neg hother]
  exact hget

theorem attached_once (h : Inv st) (k : ℕ) : st.attachments.count k ≤ 1 := by
  by_cases hk : k < st.sockets.length
  · have honce := h.once.once k st.sockets[k] (getElem?_eq_getElem hk)
    have hbound : (if st.sockets[k].attached then 1 else 0) ≤ 1 := by split <;> omega
    omega
  · have hnot : k ∉ st.attachments := fun hmem => hk (h.once.created k hmem)
    rw [count_eq_zero.mpr hnot]
    exact Nat.zero_le 1

/-- In every state that the transport comes to:
an event of a control socket that is not the newest one does nothing;
while the transport runs and its newest control socket has closed, one reconnect timer is armed;
a connection has at most one data socket that was not told to close and has not closed;
after a message that announces a connection, the table has a data socket for it that has not closed,
and every other one of the connection that has not closed was told to close;
a late close of another data socket leaves the one in the table;
and a data socket is attached at most once. -/
theorem relayLinks (encrypted : Bool) (st : State) (h : Reached encrypted st) :
    (∀ event s, event.socket = some s → IsControl st.sockets s → ¬ IsNewestControl st.sockets s →
      st.step encrypted event = st.report event) ∧
    (st.stopped = false → ∀ s, IsNewestControl st.sockets s → HasClosed st.sockets s →
      ∃! timer, timer ∈ st.armed ∧ ∃ delay, timer.kind = .reconnect delay) ∧
    (∀ id k k', KeptData st id k → KeptData st id k' → k = k') ∧
    (∀ s now text message id, st.stopped = false → IsNewestControl st.sockets s →
      ¬ HasClosed st.sockets s → tryParseControlMessage text = some message →
      id ∈ message.announces →
      ∃ k, (st.step encrypted (.socketMessage s now text)).dataSockets.get id = some k ∧
        OpenData (st.step encrypted (.socketMessage s now text)) id k ∧
        ∀ k', OpenData (st.step encrypted (.socketMessage s now text)) id k' → k' ≠ k →
          ∃ socket, (st.step encrypted (.socketMessage s now text)).sockets[k']? = some socket ∧
            socket.told = true) ∧
    (∀ id k k', (∃ socket, st.sockets[k]? = some socket ∧ socket.role = .data id) →
      st.dataSockets.get id = some k' → k ≠ k' →
      (st.step encrypted (.socketClose k)).dataSockets.get id = some k') ∧
    ∀ k, st.attachments.count k ≤ 1 := by
  have hinv := h.inv
  refine ⟨?_, ?_, ?_, ?_, ?_, attached_once hinv⟩
  · intro event s hevent hcontrol hold
    exact oldControl_ignored hinv hevent hcontrol hold
  · intro hrunning s hnewest hclosed
    exact reconnect_unique hinv hrunning hnewest hclosed
  · intro id k k' hk hk'
    exact kept_unique hinv hk hk'
  · intro s now text message id hrunning hnewest hopen hparse hid
    exact held_open (tabled_step encrypted hinv.tabled _)
      (announced_mem encrypted now hinv hrunning hnewest hopen hparse hid)
  · intro id k k' hdata hget hne
    exact lateClose_keeps encrypted hdata hget hne

/-! ## Runs -/

def connectedText : List Char :=
  "\x7b\"type\":\"connected\",\"connectionId\":\"a\"\x7d".toList

def disconnectedText : List Char :=
  "\x7b\"type\":\"disconnected\",\"connectionId\":\"a\"\x7d".toList

/-- The first control socket reports a message. -/
def withMessage (st : State) (text : List Char) : State := st.step false (.socketMessage 0 0 text)

theorem reached_withMessage (h : Reached false st) (hcreated : 0 < st.sockets.length)
    (text : List Char) : Reached false (withMessage st text) :=
  .step h (.socketMessage 0 0 text) hcreated

/-- A connection is announced, disconnected and announced again. -/
def reannounced : State :=
  withMessage (withMessage (withMessage State.startRelayTransport connectedText) disconnectedText)
    connectedText

/-- The data socket of the first connection does not open in time. -/
def withOpenTimeout (st : State) : State :=
  st.step false (.timerFires ⟨0, .dataOpen 1⟩ 15000 false false)

theorem reached_withOpenTimeout (h : Reached false st) (harmed : ⟨0, .dataOpen 1⟩ ∈ st.armed) :
    Reached false (withOpenTimeout st) :=
  .step h (.timerFires ⟨0, .dataOpen 1⟩ 15000 false false) harmed

/-- A connection is announced, and its data socket is terminated for not opening in time. -/
def terminating : State :=
  withOpenTimeout (withMessage State.startRelayTransport connectedText)

theorem reached_reannounced : Reached false reannounced := by
  apply reached_withMessage
  · apply reached_withMessage
    · exact reached_withMessage .start (by decide) _
    · decide +kernel
  · decide +kernel

theorem reached_terminating : Reached false terminating := by
  apply reached_withOpenTimeout
  · exact reached_withMessage .start (by decide) _
  · decide +kernel

theorem terminating_told : ∀ socket ∈ (withMessage terminating connectedText).sockets,
    socket.role = .data [97] → socket.told = true := by decide +kernel

theorem not_kept_of_told (h : ∀ socket ∈ st.sockets, socket.role = .data id → socket.told = true) (k : ℕ) :
    ¬ KeptData st id k := by
  rintro ⟨socket, hsocket, hrole, htold, -⟩
  have htrue := h socket (mem_of_getElem? hsocket) hrole
  rw [htold] at htrue
  contradiction

/-- Right after a message that announces a connection it may have two data sockets that have not
reported their close, of which the first was told to; and it may have none that was not told to. -/
theorem announced_notOne :
    Reached false reannounced ∧ OpenData reannounced [97] 1 ∧ OpenData reannounced [97] 2 ∧
    Reached false terminating ∧ tryParseControlMessage connectedText = some (.connected [97]) ∧
    ∀ k, ¬ KeptData (withMessage terminating connectedText) [97] k := by
  refine ⟨reached_reannounced, ?_, ?_, reached_terminating, by decide +kernel,
    not_kept_of_told terminating_told⟩
  · exact ⟨⟨.data [97], false, some ⟨0, .dataOpen 1⟩, false, none, true, false⟩, by decide +kernel,
      rfl, rfl⟩
  · exact ⟨⟨.data [97], false, some ⟨1, .dataOpen 2⟩, false, none, false, false⟩,
      by decide +kernel, rfl, rfl⟩

/-- The data socket of the connection that is announced twice. -/
theorem relayLinks_reannounced :
    KeptData reannounced [97] 2 ∧ {k | KeptData reannounced [97] k}.Subsingleton ∧
      reannounced.attachments.count 2 ≤ 1 := by
  have hlinks := relayLinks false reannounced reached_reannounced
  refine ⟨⟨⟨.data [97], false, some ⟨1, .dataOpen 2⟩, false, none, false, false⟩,
    by decide +kernel, rfl, rfl, rfl⟩, ?_, hlinks.2.2.2.2.2 2⟩
  intro k hk k' hk'
  exact hlinks.2.2.1 [97] k k' hk hk'

end Orqara.RelayTransport
