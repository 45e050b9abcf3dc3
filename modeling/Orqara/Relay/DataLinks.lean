import Orqara.Relay.LinkInvariants

/-!
# The table of data sockets

The table holds data sockets that have not closed, and every one that was not told to close. A
socket that was given to `attachSocket` is not given to it again.
-/

namespace Orqara.RelayTransport

open State JsonParse OrderedMap List Option

variable {st st' : State} {s : ℕ} {f : Socket → Socket}

/-! ## The table -/

structure TableInv (dataSockets : OrderedMap Units ℕ) (sockets : List Socket) : Prop where
  held : ∀ (id : Units) (k : ℕ), dataSockets.get id = some k →
    ∃ socket, sockets[k]? = some socket ∧ socket.role = .data id ∧ socket.closed = false
  covers : ∀ (k : ℕ) (socket : Socket) (id : Units), sockets[k]? = some socket →
    socket.role = .data id → socket.told = false → socket.closed = false →
      dataSockets.get id = some k

def State.Tabled (st : State) : Prop := TableInv st.dataSockets st.sockets

/-- A handler that leaves the role and the close of a socket, and does not take back that it was
told to close. -/
structure Mild (f : Socket → Socket) : Prop where
  role : ∀ socket, (f socket).role = socket.role
  closed : ∀ socket, (f socket).closed = socket.closed
  told : ∀ socket, (f socket).told = false → socket.told = false

section

variable (h : st.Tabled) {id : Units}
include h

theorem tabled_modify (hf : Mild f) : (st.modify s f).Tabled where
  held id k hget := by
    obtain ⟨socket, hsocket, hrole, hclosed⟩ := h.held id k hget
    refine ⟨if s = k then f socket else socket, ?_, ?_, ?_⟩
    · rw [State.modify, getElem?_modify_eq, hsocket, map_some]
    · split
      · exact (hf.role socket).trans hrole
      · exact hrole
    · split
      · exact (hf.closed socket).trans hclosed
      · exact hclosed
  covers k socket id hsocket hrole htold hclosed := by
    rw [State.modify, getElem?_modify_eq] at hsocket
    obtain ⟨old, hold, rfl⟩ := map_eq_some_iff.mp hsocket
    by_cases hk : s = k
    · rw [if_pos hk] at hrole htold hclosed
      exact h.covers k old id hold ((hf.role old).symm.trans hrole) (hf.told old htold)
        ((hf.closed old).symm.trans hclosed)
    · rw [if_neg hk] at hrole htold hclosed
      exact h.covers k old id hold hrole htold hclosed

omit h in
theorem mild_told : Mild fun socket => { socket with told := true } :=
  ⟨fun _ => rfl, fun _ => rfl, fun _ h => by contradiction⟩

theorem tabled_tell (s : ℕ) : (st.tell s).Tabled := tabled_modify h mild_told

theorem tabled_createControl : (st.createWebSocket .control).Tabled where
  held id k hget := by
    obtain ⟨socket, hsocket, hrest⟩ := h.held id k hget
    have hlt := (List.getElem?_eq_some_iff.mp hsocket).1
    refine ⟨socket, ?_, hrest⟩
    rw [createWebSocket, getElem?_created, if_neg (by omega), hsocket]
  covers k socket id hsocket hrole htold hclosed := by
    rw [createWebSocket, getElem?_created] at hsocket
    split at hsocket
    · rw [← some.inj hsocket] at hrole
      contradiction
    · exact h.covers k socket id hsocket hrole htold hclosed

theorem tabled_connectControl : st.connectControl.Tabled := by
  unfold connectControl
  split
  · exact h
  · exact tabled_createControl h

/-- The socket for a connection that the table does not have is created with its entry. -/
theorem tabled_createData (hid : id ∉ st.dataSockets.keys) :
    State.Tabled { st.createWebSocket (.data id) with
      dataSockets := st.dataSockets.set id st.sockets.length } where
  held id' k hget := by
    change (st.dataSockets.set id st.sockets.length).get id' = some k at hget
    rw [get_set] at hget
    split at hget
    · next heq =>
      rw [heq, ← some.inj hget]
      refine ⟨⟨.data id, false, none, false, none, false, false⟩, ?_, rfl, rfl⟩
      simp only [createWebSocket]
      rw [getElem?_created, if_pos rfl]
    · obtain ⟨socket, hsocket, hrest⟩ := h.held id' k hget
      have hlt := (List.getElem?_eq_some_iff.mp hsocket).1
      refine ⟨socket, ?_, hrest⟩
      simp only [createWebSocket]
      rw [getElem?_created, if_neg (by omega), hsocket]
  covers k socket id' hsocket hrole htold hclosed := by
    change (st.dataSockets.set id st.sockets.length).get id' = some k
    simp only [createWebSocket] at hsocket
    rw [getElem?_created] at hsocket
    rw [get_set]
    split at hsocket
    · next hk =>
      rw [← some.inj hsocket] at hrole
      have heq : id = id' := Role.data.inj hrole
      rw [if_pos heq.symm, hk]
    · have hget := h.covers k socket id' hsocket hrole htold hclosed
      have hne : id' ≠ id := fun heq => hid (heq ▸ mem_keys_of_get hget)
      rw [if_neg hne, hget]

omit h in
theorem mild_openTimeout (timer : Option Timer) :
    Mild fun socket => { socket with openTimeout := timer } :=
  ⟨fun _ => rfl, fun _ => rfl, fun _ h => h⟩

theorem tabled_ensure (id : Units) : (st.ensureClientDataSocket id).Tabled := by
  unfold ensureClientDataSocket
  split
  · exact h
  · next hnew =>
    push Not at hnew
    apply tabled_modify _ (mild_openTimeout _)
    exact tabled_createData h hnew.2.2

theorem tabled_ensureAll (ids : List Units) :
    (ids.foldl ensureClientDataSocket st).Tabled := by
  induction ids generalizing st with
  | nil => exact h
  | cons id ids ih => exact ih (tabled_ensure h id)

/-- A data socket is told to close when its entry is deleted. -/
theorem tabled_disconnected {existing : ℕ} (hget : st.dataSockets.get id = some existing) :
    State.Tabled { st.tell existing with dataSockets := st.dataSockets.delete id } where
  held id' k hget' := by
    change (st.dataSockets.delete id).get id' = some k at hget'
    rw [get_delete] at hget'
    split at hget'
    · contradiction
    · exact (tabled_tell h existing).held id' k hget'
  covers k socket id' hsocket hrole htold hclosed := by
    change (st.dataSockets.delete id).get id' = some k
    have hsame := (tabled_tell h existing).covers k socket id' hsocket hrole htold hclosed
    change st.dataSockets.get id' = some k at hsame
    have hne : id' ≠ id := by
      intro heq
      rw [heq, hget] at hsame
      have hk : existing = k := some.inj hsame
      simp only [State.tell, State.modify] at hsocket
      rw [getElem?_modify_eq] at hsocket
      obtain ⟨old, -, rfl⟩ := map_eq_some_iff.mp hsocket
      rw [if_pos hk] at htold
      contradiction
    rw [get_delete_ne hne, hsame]

theorem tabled_handle (message : ControlMessage) :
    (st.handleControlMessage message).Tabled := by
  cases message with
  | ping => exact h
  | pong => exact h
  | sync ids => exact tabled_ensureAll h ids
  | connected id => exact tabled_ensure h id
  | disconnected id =>
    simp only [handleControlMessage]
    split
    · next existing hget => exact tabled_disconnected h hget
    · exact h

omit h in
theorem getElem?_tellAll (st : State) (ss : List ℕ) (k : ℕ) :
    (st.tellAll ss).sockets[k]? =
      (st.sockets[k]?).map fun socket => if k ∈ ss then { socket with told := true } else socket := by
  unfold tellAll
  induction ss generalizing st with
  | nil => simp
  | cons s ss ih =>
    rw [foldl_cons, ih, State.tell, State.modify, getElem?_modify_eq, Option.map_map]
    congr 1
    funext socket
    by_cases hk : s = k
    · simp [hk]
    · have hne : ¬ k = s := fun heq => hk heq.symm
      simp [hk, hne]

theorem tabled_stop : st.stop.Tabled := by
  have htold : ∀ (middle : State), middle.Tabled → State.Tabled
      { middle.tellAll (middle.dataSockets.entries.map Prod.snd) with dataSockets := ∅ } := by
    intro middle hmiddle
    refine ⟨?_, ?_⟩
    · intro id k hget
      contradiction
    · intro k socket id hsocket hrole htold hclosed
      exfalso
      simp only [getElem?_tellAll] at hsocket
      obtain ⟨old, hold, rfl⟩ := map_eq_some_iff.mp hsocket
      split at htold
      · contradiction
      · next hmem =>
        rw [if_neg hmem] at hrole hclosed
        have hget := hmiddle.covers k old id hold hrole htold hclosed
        exact hmem (List.mem_map.mpr ⟨_, get_eq_some_iff.mp hget, rfl⟩)
  unfold stop
  dsimp only
  apply htold
  split
  · exact @tabled_tell st h _
  · exact h

/-! ## Closing -/

/-- A socket that the table does not hold may close. -/
theorem tabled_close (hheld : ∀ id, st.dataSockets.get id ≠ some s) :
    (st.modify s fun socket => { socket with closed := true }).Tabled where
  held id k hget := by
    obtain ⟨socket, hsocket, hrest⟩ := h.held id k hget
    have hne : s ≠ k := fun heq => hheld id (heq ▸ hget)
    refine ⟨socket, ?_, hrest⟩
    rw [State.modify, getElem?_modify_eq, hsocket, map_some, if_neg hne]
  covers k socket id hsocket hrole htold hclosed := by
    rw [State.modify, getElem?_modify_eq] at hsocket
    obtain ⟨old, hold, rfl⟩ := map_eq_some_iff.mp hsocket
    split at hclosed
    · contradiction
    · next hne =>
      rw [if_neg hne] at hrole htold
      exact h.covers k old id hold hrole htold hclosed

theorem tabled_closeData {socket : Socket} (hsocket : st.sockets[s]? = some socket)
    (hrole : socket.role = .data id) :
    ((st.report (.socketClose s)).onDataClose s socket id).Tabled := by
  have honly : ∀ id', st.dataSockets.get id' = some s → id' = id := by
    intro id' hget
    obtain ⟨found, hfound, hfoundRole, -⟩ := h.held id' s hget
    rw [hsocket] at hfound
    rw [← some.inj hfound, hrole] at hfoundRole
    exact (Role.data.inj hfoundRole).symm
  unfold onDataClose
  dsimp only
  split
  · next hget =>
    change st.dataSockets.get id = some s at hget
    refine ⟨?_, ?_⟩
    · intro id' k hget'
      change (st.dataSockets.delete id).get id' = some k at hget'
      rw [get_delete] at hget'
      split at hget'
      · contradiction
      · next hne =>
        obtain ⟨found, hfound, hrest⟩ := h.held id' k hget'
        have hother : s ≠ k := by
          intro heq
          exact hne (honly id' (heq ▸ hget'))
        refine ⟨found, ?_, hrest⟩
        change (st.sockets.modify s _)[k]? = some found
        rw [getElem?_modify_eq, hfound, map_some, if_neg hother]
    · intro k found id' hfound hfoundRole htold hclosed
      change (st.dataSockets.delete id).get id' = some k
      change (st.sockets.modify s _)[k]? = some found at hfound
      rw [getElem?_modify_eq] at hfound
      obtain ⟨old, hold, rfl⟩ := map_eq_some_iff.mp hfound
      split at hclosed
      · contradiction
      · next hother =>
        rw [if_neg hother] at hfoundRole htold
        have hget' := h.covers k old id' hold hfoundRole htold hclosed
        have hne : id' ≠ id := by
          intro heq
          rw [heq, hget] at hget'
          exact hother (some.inj hget')
        rw [get_delete_ne hne, hget']
  · next hget =>
    refine tabled_close h ?_
    intro id' hget'
    have hid := honly id' hget'
    rw [hid] at hget'
    exact hget hget'

/-! ## Events -/

omit h in
theorem mild_connected : Mild fun socket => { socket with controlConnected := true } :=
  ⟨fun _ => rfl, fun _ => rfl, fun _ h => h⟩

theorem tabled_markControlReady (s : ℕ) (controlConnected : Bool) :
    (st.markControlReady s controlConnected).Tabled := by
  unfold markControlReady
  split
  · exact h
  · exact tabled_modify (s := s) h mild_connected

theorem tabled_onControlMessage (s now : ℕ) (socket : Socket) (text : List Char) :
    (st.onControlMessage s now socket text).Tabled := by
  unfold onControlMessage
  dsimp only
  split
  · apply tabled_handle
    apply tabled_markControlReady
    exact h
  · exact h

theorem tabled_clearKeepalive : st.clearControlKeepaliveInterval.Tabled := h

theorem tabled_clearReady : st.clearControlReadyTimeout.Tabled := h

theorem tabled_armReady (s : ℕ) :
    State.Tabled { st.arm (.controlReady s) with
      controlReadyTimeout := some (st.nextTimer (.controlReady s)) } := h

theorem tabled_armKeepalive (s : ℕ) :
    State.Tabled { st.arm (.keepalive s) with
      controlKeepaliveInterval := some (st.nextTimer (.keepalive s)) } := h

theorem tabled_onControlOpen (s now : ℕ) (pingFails : Bool) :
    (st.onControlOpen s now pingFails).Tabled := by
  have hseen : State.Tabled { st with controlLastSeenAt := now } := h
  have harmed := tabled_armKeepalive (tabled_armReady
    (tabled_clearReady (tabled_clearKeepalive hseen)) s) s
  unfold onControlOpen
  dsimp only
  split
  · exact tabled_tell harmed s
  · exact harmed

theorem tabled_scheduleReconnect : st.scheduleReconnect.Tabled := by
  unfold scheduleReconnect
  split
  · exact h
  · exact h

omit h in
theorem tabled_onDataOpen (encrypted : Bool) (h : st.Tabled) (s : ℕ) (socket : Socket) :
    (st.onDataOpen encrypted s socket).Tabled := by
  unfold onDataOpen
  dsimp only
  split
  · exact h
  · split
    · exact tabled_modify (s := s) h ⟨fun _ => rfl, fun _ => rfl, fun _ h => h⟩
    · exact tabled_modify (s := s) h ⟨fun _ => rfl, fun _ => rfl, fun _ h => h⟩

/-- A control socket is in no entry of the table. -/
theorem tabled_reportControl {socket : Socket} (hsocket : st.sockets[s]? = some socket)
    (hrole : socket.role = .control) :
    (st.report (.socketClose s)).Tabled := by
  apply tabled_close h
  intro id hget
  obtain ⟨found, hfound, hfoundRole, -⟩ := h.held id s hget
  rw [hsocket] at hfound
  rw [← some.inj hfound, hrole] at hfoundRole
  contradiction

omit h in
theorem tabled_onSocketEvent (encrypted : Bool) (h : st.Tabled) {event : Event}
    (hevent : event.socket = some s) : (st.onSocketEvent encrypted s event).Tabled := by
  unfold onSocketEvent
  split
  · exact h
  · next socket hsocket =>
    split
    · next hrole =>
      cases event with
      | socketOpen k now pingFails =>
        simp only [onControlEvent]
        split
        · exact tabled_onControlOpen h s now pingFails
        · exact h
      | socketMessage k now text =>
        simp only [onControlEvent]
        split
        · exact tabled_onControlMessage h s now socket text
        · exact h
      | socketPong k now =>
        simp only [onControlEvent]
        split
        · exact h
        · exact h
      | socketClose k =>
        have hk : k = s := some.inj hevent
        rw [hk]
        have hreport := tabled_reportControl h hsocket hrole
        simp only [onControlEvent]
        split
        · apply tabled_scheduleReconnect
          exact hreport
        · exact hreport
      | socketError k => exact h
      | _ => contradiction
    · next id hrole =>
      cases event with
      | socketOpen k now pingFails => exact tabled_onDataOpen encrypted h s socket
      | socketClose k =>
        have hk : k = s := some.inj hevent
        rw [hk]
        exact tabled_closeData h hsocket hrole
      | socketMessage k now text => exact h
      | socketPong k now => exact h
      | socketError k => exact h
      | _ => contradiction

theorem tabled_onTimer (timer : Timer) (now : ℕ) (isOpen pingFails : Bool) :
    (st.onTimer timer now isOpen pingFails).Tabled := by
  unfold onTimer
  split
  · apply tabled_connectControl
    exact h
  · next s _ =>
    dsimp only
    split
    · exact h
    · apply tabled_tell
      exact h
  · next s _ =>
    split
    · exact h
    · split
      · exact tabled_tell h s
      · exact h
  · next s _ =>
    dsimp only
    split
    · exact h
    · apply tabled_tell
      exact h

end

theorem mild_handshake (handshake : Option Handshake) :
    Mild fun socket => { socket with handshake := handshake } :=
  ⟨fun _ => rfl, fun _ => rfl, fun _ h => h⟩

theorem tabled_step (encrypted : Bool) (h : st.Tabled) (event : Event) :
    (st.step encrypted event).Tabled := by
  cases event with
  | timerFires timer now isOpen pingFails => exact tabled_onTimer h timer now isOpen pingFails
  | stop => exact tabled_stop h
  | channelSettles s resolves =>
    cases resolves with
    | true => exact tabled_modify (s := s) h (mild_handshake _)
    | false => exact tabled_tell (tabled_modify h (mild_handshake _)) s
  | attachSettles s resolves =>
    cases resolves with
    | true => exact tabled_modify (s := s) h (mild_handshake _)
    | false => exact tabled_tell (tabled_modify h (mild_handshake _)) s
  | ownerCloses s => exact tabled_tell h s
  | socketOpen s now pingFails => exact tabled_onSocketEvent encrypted h rfl
  | socketMessage s now text => exact tabled_onSocketEvent encrypted h rfl
  | socketPong s now => exact tabled_onSocketEvent encrypted h rfl
  | socketError s => exact tabled_onSocketEvent encrypted h rfl
  | socketClose s => exact tabled_onSocketEvent encrypted h rfl

end Orqara.RelayTransport
