import Orqara.Relay.RelayTransport

/-!
# What the links keep

Three invariants of the relay transport, each over the part of the state that it reads: the
reconnect timer is the only one of its kind, the table of data sockets holds every data socket that
was not told to close, and a socket is attached once.
-/

namespace Orqara.RelayTransport

open State

variable {st st' : State} {s : ℕ} {f : Socket → Socket} {sockets : List Socket}

/-! ## Sockets -/

theorem getElem?_modify_eq (sockets : List Socket) (s : ℕ) (f : Socket → Socket) (k : ℕ) :
    (sockets.modify s f)[k]? = (sockets[k]?).map fun socket => if s = k then f socket else socket := by
  rw [List.getElem?_modify]
  cases sockets[k]? with
  | none => rfl
  | some socket => rfl

theorem getElem?_created (sockets : List Socket) (socket : Socket) (k : ℕ) :
    (sockets ++ [socket])[k]? = if k = sockets.length then some socket else sockets[k]? := by
  rw [List.getElem?_append]
  by_cases hk : k < sockets.length
  · have hne : k ≠ sockets.length := by omega
    rw [if_pos hk, if_neg hne]
  · rw [if_neg hk]
    by_cases heq : k = sockets.length
    · simp [heq]
    · have hnone : sockets[k]? = none := List.getElem?_eq_none (by omega)
      have hout : [socket][k - sockets.length]? = none := List.getElem?_eq_none (by simp; omega)
      rw [if_neg heq, hnone, hout]

/-- What is read of the sockets by their index. -/
def IsControl (sockets : List Socket) (s : ℕ) : Prop :=
  ∃ socket, sockets[s]? = some socket ∧ socket.role = .control

def HasClosed (sockets : List Socket) (s : ℕ) : Prop :=
  ∃ socket, sockets[s]? = some socket ∧ socket.closed = true

/-- The last control socket that was created. -/
def IsNewestControl (sockets : List Socket) (s : ℕ) : Prop :=
  IsControl sockets s ∧ ∀ k, IsControl sockets k → k ≤ s

/-- Sockets whose control sockets are the same, and have closed alike. -/
structure SameControls (sockets sockets' : List Socket) : Prop where
  control : ∀ k, IsControl sockets' k ↔ IsControl sockets k
  closed : ∀ k, IsControl sockets k → (HasClosed sockets' k ↔ HasClosed sockets k)

theorem SameControls.refl (sockets : List Socket) : SameControls sockets sockets :=
  ⟨fun _ => Iff.rfl, fun _ _ => Iff.rfl⟩

theorem SameControls.trans {a b c : List Socket} (hab : SameControls a b) (hbc : SameControls b c) :
    SameControls a c where
  control k := (hbc.control k).trans (hab.control k)
  closed k hk := (hbc.closed k ((hab.control k).mpr hk)).trans (hab.closed k hk)

theorem SameControls.newest {sockets' : List Socket} (h : SameControls sockets sockets') (s : ℕ) :
    IsNewestControl sockets' s ↔ IsNewestControl sockets s := by
  unfold IsNewestControl
  rw [h.control s]
  have hall : (∀ k, IsControl sockets' k → k ≤ s) ↔ ∀ k, IsControl sockets k → k ≤ s :=
    forall_congr' fun k => by rw [h.control k]
  rw [hall]

section

variable (hrole : ∀ socket, (f socket).role = socket.role)
include hrole

theorem isControl_modify (sockets : List Socket) (s k : ℕ) :
    IsControl (sockets.modify s f) k ↔ IsControl sockets k := by
  unfold IsControl
  rw [getElem?_modify_eq]
  cases sockets[k]? with
  | none => simp
  | some socket =>
    by_cases hk : s = k
    · simp [hk, hrole]
    · simp [hk]

omit hrole in
theorem hasClosed_modify (hclosed : ∀ socket, (f socket).closed = socket.closed)
    (sockets : List Socket) (s k : ℕ) : HasClosed (sockets.modify s f) k ↔ HasClosed sockets k := by
  unfold HasClosed
  rw [getElem?_modify_eq]
  cases sockets[k]? with
  | none => simp
  | some socket =>
    by_cases hk : s = k
    · simp [hk, hclosed]
    · simp [hk]

omit hrole in
theorem hasClosed_modify_ne {s k : ℕ} (hk : s ≠ k) :
    HasClosed (sockets.modify s f) k ↔ HasClosed sockets k := by
  unfold HasClosed
  rw [getElem?_modify_eq]
  simp [hk]

theorem sameControls_modify (hclosed : ∀ socket, (f socket).closed = socket.closed)
    (sockets : List Socket) (s : ℕ) :
    SameControls sockets (sockets.modify s f) where
  control k := isControl_modify hrole sockets s k
  closed k _ := hasClosed_modify hclosed sockets s k

/-- A socket that is no control socket may close. -/
theorem sameControls_modify_data {s : ℕ} (hs : ¬ IsControl sockets s) :
    SameControls sockets (sockets.modify s f) where
  control k := isControl_modify hrole sockets s k
  closed k hk := by
    have hne : s ≠ k := fun heq => hs (heq ▸ hk)
    exact hasClosed_modify_ne hne

end

theorem sameControls_append {socket : Socket} (hrole : socket.role ≠ .control)
    (sockets : List Socket) : SameControls sockets (sockets ++ [socket]) where
  control k := by
    unfold IsControl
    rw [getElem?_created]
    by_cases hk : k = sockets.length
    · have hnone : sockets[k]? = none := List.getElem?_eq_none (by omega)
      simp [hk, hrole]
    · rw [if_neg hk]
  closed k hk := by
    obtain ⟨found, hfound, -⟩ := hk
    have hlt : k < sockets.length := (List.getElem?_eq_some_iff.mp hfound).1
    unfold HasClosed
    rw [getElem?_created, if_neg (by omega)]

/-! ## The reconnect timer -/

/-- The timer of `reconnectTimeout` is armed, and no other reconnect timer is; the other handles are
of other timers. -/
structure TimerInv (reconnect keepalive ready : Option Timer) (armed : Finset Timer)
    (sockets : List Socket) : Prop where
  only : ∀ t ∈ armed, ∀ delay, t.kind = .reconnect delay → reconnect = some t
  armed : ∀ t, reconnect = some t → t ∈ armed ∧ ∃ delay, t.kind = .reconnect delay
  keepalive : ∀ t, keepalive = some t → ∀ delay, t.kind ≠ .reconnect delay
  ready : ∀ t, ready = some t → ∀ delay, t.kind ≠ .reconnect delay
  opening : ∀ (k : ℕ) (socket : Socket), sockets[k]? = some socket →
    ∀ t, socket.openTimeout = some t → ∀ delay, t.kind ≠ .reconnect delay

def State.Timed (st : State) : Prop :=
  TimerInv st.reconnectTimeout st.controlKeepaliveInterval st.controlReadyTimeout st.armed st.sockets

section

variable (h : st.Timed)
include h

theorem timed_clear (timer : Option Timer)
    (htimer : ∀ t, timer = some t → ∀ delay, t.kind ≠ .reconnect delay) : (st.clear timer).Timed where
  only t ht := h.only t (Finset.mem_filter.mp ht).1
  armed t ht := by
    obtain ⟨harmed, delay, hkind⟩ := h.armed t ht
    refine ⟨Finset.mem_filter.mpr ⟨harmed, ?_⟩, delay, hkind⟩
    intro heq
    exact htimer t heq delay hkind
  keepalive := h.keepalive
  ready := h.ready
  opening := h.opening

theorem timed_clearReconnect : st.clearReconnectTimeout.Timed where
  only t ht delay hkind := by
    obtain ⟨harmed, hne⟩ := Finset.mem_filter.mp ht
    exact absurd (h.only t harmed delay hkind) hne
  armed t ht := by
    contradiction
  keepalive := h.keepalive
  ready := h.ready
  opening := h.opening

theorem timed_clearKeepalive : st.clearControlKeepaliveInterval.Timed :=
  { timed_clear h _ h.keepalive with
    keepalive := by
      intro t ht
      contradiction }

theorem timed_clearReady : st.clearControlReadyTimeout.Timed :=
  { timed_clear h _ h.ready with
    ready := by
      intro t ht
      contradiction }

theorem timed_arm (kind : TimerKind) (hkind : ∀ delay, kind ≠ .reconnect delay) :
    (st.arm kind).Timed where
  only t ht delay hdelay := by
    rcases Finset.mem_insert.mp ht with heq | ht
    · rw [heq] at hdelay
      exact absurd hdelay (hkind delay)
    · exact h.only t ht delay hdelay
  armed t ht := by
    obtain ⟨harmed, hdelay⟩ := h.armed t ht
    exact ⟨Finset.mem_insert_of_mem harmed, hdelay⟩
  keepalive := h.keepalive
  ready := h.ready
  opening := h.opening

theorem timed_modify (hopen : ∀ socket t, (f socket).openTimeout = some t → socket.openTimeout = some t ∨
      ∀ delay, t.kind ≠ .reconnect delay) : (st.modify s f).Timed :=
  { h with
    opening := by
      intro k socket hsocket t ht
      rw [State.modify, getElem?_modify_eq] at hsocket
      obtain ⟨old, hold, rfl⟩ := Option.map_eq_some_iff.mp hsocket
      by_cases hk : s = k
      · rw [if_pos hk] at ht
        exact (hopen old t ht).elim (h.opening k old hold t) id
      · rw [if_neg hk] at ht
        exact h.opening k old hold t ht }

theorem timed_create (role : Role) : (st.createWebSocket role).Timed :=
  { h with
    opening := by
      intro k socket hsocket t ht
      rw [createWebSocket, getElem?_created] at hsocket
      split at hsocket
      · rw [← Option.some.inj hsocket] at ht
        contradiction
      · exact h.opening k socket hsocket t ht }

theorem timed_tell (s : ℕ) : (st.tell s).Timed :=
  timed_modify h fun _ _ ht => Or.inl ht

theorem timed_tellAll (ss : List ℕ) : (st.tellAll ss).Timed := by
  unfold tellAll
  induction ss generalizing st with
  | nil => exact h
  | cons s ss ih => exact ih (timed_tell h s)

theorem timed_scheduleReconnect : st.scheduleReconnect.Timed := by
  unfold scheduleReconnect
  split
  · exact h
  · next hquiet =>
    have hnone : st.reconnectTimeout = none := by
      by_contra hsome
      exact hquiet (Or.inr hsome)
    refine ⟨?_, ?_, h.keepalive, h.ready, h.opening⟩
    · intro t ht delay hkind
      rcases Finset.mem_insert.mp ht with heq | ht
      · exact congrArg some heq.symm
      · rw [h.only t ht delay hkind] at hnone
        contradiction
    · intro t ht
      rw [← Option.some.inj ht]
      exact ⟨Finset.mem_insert_self _ _, _, rfl⟩

theorem timed_connectControl : st.connectControl.Timed := by
  unfold connectControl
  split
  · exact h
  · exact timed_create h .control

theorem timed_ensure (connectionId : JsonParse.Units) :
    (st.ensureClientDataSocket connectionId).Timed := by
  unfold ensureClientDataSocket
  split
  · exact h
  · apply timed_modify
    · exact timed_arm (timed_create h _) (.dataOpen st.sockets.length) (by simp)
    · intro socket t ht
      right
      rw [← Option.some.inj ht]
      simp [nextTimer]

theorem timed_ensureAll (ids : List JsonParse.Units) :
    (ids.foldl ensureClientDataSocket st).Timed := by
  induction ids generalizing st with
  | nil => exact h
  | cons id ids ih => exact ih (timed_ensure h id)

theorem timed_markControlReady (s : ℕ) (controlConnected : Bool) :
    (st.markControlReady s controlConnected).Timed := by
  unfold markControlReady
  split
  · exact h
  · apply timed_clearReady
    exact timed_modify (s := s) h fun _ _ ht => Or.inl ht

theorem timed_handle (message : ControlMessage) :
    (st.handleControlMessage message).Timed := by
  cases message with
  | ping => exact h
  | pong => exact h
  | sync ids => exact timed_ensureAll h ids
  | connected id => exact timed_ensure h id
  | disconnected id =>
    simp only [handleControlMessage]
    split
    · exact timed_tell h _
    · exact h

theorem timed_stop : st.stop.Timed := by
  unfold stop
  dsimp only
  apply timed_tellAll
  have hstopped : State.Timed { st with stopped := true } := h
  have hcleared := timed_clearReady (timed_clearKeepalive (timed_clearReconnect hstopped))
  split
  · exact timed_tell hcleared _
  · exact hcleared

theorem timed_armReady (s : ℕ) :
    State.Timed { st.arm (.controlReady s) with
      controlReadyTimeout := some (st.nextTimer (.controlReady s)) } :=
  { timed_arm h (.controlReady s) (by simp) with
    ready := by
      intro t ht delay
      rw [← Option.some.inj ht]
      simp [nextTimer] }

theorem timed_armKeepalive (s : ℕ) :
    State.Timed { st.arm (.keepalive s) with
      controlKeepaliveInterval := some (st.nextTimer (.keepalive s)) } :=
  { timed_arm h (.keepalive s) (by simp) with
    keepalive := by
      intro t ht delay
      rw [← Option.some.inj ht]
      simp [nextTimer] }

theorem timed_onControlOpen (s now : ℕ) (pingFails : Bool) :
    (st.onControlOpen s now pingFails).Timed := by
  have hseen : State.Timed { st with controlLastSeenAt := now } := h
  have hcleared := timed_clearReady (timed_clearKeepalive hseen)
  have harmed := timed_armKeepalive (timed_armReady hcleared s) s
  unfold onControlOpen
  dsimp only
  split
  · exact timed_tell harmed s
  · exact harmed

theorem timed_onControlMessage (s now : ℕ) (socket : Socket) (text : List Char) :
    (st.onControlMessage s now socket text).Timed := by
  unfold onControlMessage
  dsimp only
  split
  · apply timed_handle
    apply timed_markControlReady
    exact h
  · exact h

theorem timed_onControlClose : st.onControlClose.Timed := by
  unfold onControlClose
  apply timed_scheduleReconnect
  apply timed_clearReady
  apply timed_clearKeepalive
  exact h

theorem timed_onDataOpen {encrypted : Bool} {socket : Socket} (hsocket : st.sockets[s]? = some socket) :
    (st.onDataOpen encrypted s socket).Timed := by
  have hcleared := timed_clear h _ (h.opening s socket hsocket)
  unfold onDataOpen
  dsimp only
  split
  · exact hcleared
  · split
    · exact timed_modify hcleared fun _ _ ht => Or.inl ht
    · exact timed_modify hcleared fun _ _ ht => Or.inl ht

theorem timed_onDataClose {socket : Socket} (connectionId : JsonParse.Units)
    (hopening : ∀ t, socket.openTimeout = some t → ∀ delay, t.kind ≠ .reconnect delay) :
    (st.onDataClose s socket connectionId).Timed := by
  have hcleared := timed_clear h _ hopening
  unfold onDataClose
  dsimp only
  split
  · exact hcleared
  · exact hcleared

theorem timed_report (event : Event) : (st.report event).Timed := by
  unfold report
  split
  · exact timed_modify h fun _ _ ht => Or.inl ht
  · exact h

omit h in
theorem timed_onSocketEvent (encrypted : Bool) (h : st.Timed) (s : ℕ) (event : Event) :
    (st.onSocketEvent encrypted s event).Timed := by
  unfold onSocketEvent
  have hreport := timed_report h event
  split
  · exact h
  · next socket hsocket =>
    split
    · cases event with
      | socketOpen _ now pingFails =>
        simp only [onControlEvent]
        split
        · exact timed_onControlOpen hreport s now pingFails
        · exact hreport
      | socketMessage _ now text =>
        simp only [onControlEvent]
        split
        · exact timed_onControlMessage hreport s now socket text
        · exact hreport
      | socketPong _ now =>
        simp only [onControlEvent]
        split
        · exact hreport
        · exact hreport
      | socketClose _ =>
        simp only [onControlEvent]
        split
        · exact timed_onControlClose hreport
        · exact hreport
      | _ => exact hreport
    · next connectionId _ =>
      cases event with
      | socketOpen _ now pingFails => exact timed_onDataOpen h hsocket
      | socketClose _ => exact timed_onDataClose hreport connectionId (h.opening s socket hsocket)
      | _ => exact hreport

theorem timed_onTimer (timer : Timer) (now : ℕ) (isOpen pingFails : Bool) (harmed : timer ∈ st.armed) :
    (st.onTimer timer now isOpen pingFails).Timed := by
  unfold onTimer
  split
  · next delay hkind =>
    apply timed_connectControl
    have hreconnect := h.only timer harmed delay hkind
    have hcleared := timed_clearReconnect h
    unfold clearReconnectTimeout at hcleared
    rw [hreconnect] at hcleared
    exact hcleared
  · next s hkind =>
    have hcleared := timed_clear h (some timer) (by
      intro t ht
      rw [← Option.some.inj ht, hkind]
      simp)
    dsimp only
    split
    · exact hcleared
    · exact timed_tell hcleared s
  · next s _ =>
    split
    · exact h
    · split
      · exact timed_tell h s
      · exact h
  · next s hkind =>
    have hcleared := timed_clear h (some timer) (by
      intro t ht
      rw [← Option.some.inj ht, hkind]
      simp)
    dsimp only
    split
    · exact hcleared
    · exact timed_tell hcleared s

end

theorem timed_step (encrypted : Bool) (h : st.Timed) {event : Event} (hpossible : st.Possible event) :
    (st.step encrypted event).Timed := by
  cases event with
  | timerFires timer now isOpen pingFails => exact timed_onTimer h timer now isOpen pingFails hpossible
  | stop => exact timed_stop h
  | channelSettles s resolves =>
    cases resolves with
    | true => exact timed_modify h fun _ _ ht => Or.inl ht
    | false =>
      apply timed_tell
      exact timed_modify h fun _ _ ht => Or.inl ht
  | attachSettles s resolves =>
    cases resolves with
    | true => exact timed_modify h fun _ _ ht => Or.inl ht
    | false =>
      apply timed_tell
      exact timed_modify h fun _ _ ht => Or.inl ht
  | ownerCloses s => exact timed_tell h s
  | socketOpen s now pingFails => exact timed_onSocketEvent encrypted h s _
  | socketMessage s now text => exact timed_onSocketEvent encrypted h s _
  | socketPong s now => exact timed_onSocketEvent encrypted h s _
  | socketError s => exact timed_onSocketEvent encrypted h s _
  | socketClose s => exact timed_onSocketEvent encrypted h s _

end Orqara.RelayTransport
