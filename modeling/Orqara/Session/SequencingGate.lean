import Orqara.Session.StreamEvents

/-!
# What the sequencing gate lets through

A run of live events from no cursor: which of them are applied, in which order, and
what is asked of the daemon for the others.
-/

namespace Orqara.Session

open Orqara.Timeline Orqara.Stream TimelineSequencingGateResult List Option

/-- An event and the cursor that it met. -/
structure GateStep where
  cursor : Option TimelineCursor
  event : AgentStreamReducerEvent

/-- A timeline event that was applied, and whether the transcript was emptied for it. -/
structure AppliedEvent where
  position : TimelinePosition
  reset : Bool
  deriving DecidableEq

def GateStep.gate (step : GateStep) : TimelineSequencingGateResult :=
  processTimelineSequencingGate step.event step.cursor true

def GateStep.applied? (step : GateStep) : Option AppliedEvent :=
  if step.gate.shouldApplyStreamEvent then
    step.event.position.map fun position => { position, reset := step.gate.resetLiveTimeline }
  else none

/-- The transcript after the event. -/
def GateStep.transcript (parse : MarkdownParser) (lanes : List StreamItem × List StreamItem)
    (step : GateStep) : Except String (List StreamItem × List StreamItem) := do
  if step.gate.shouldApplyStreamEvent then
    let shown := if step.gate.resetLiveTimeline then ([], []) else lanes
    let result ← applyStreamEvent parse shown.1 shown.2 step.event.event step.event.timestamp
      .live step.event.position .tail
    return (result.tail, result.head)
  else return lanes

/-- The events of a batch with the cursors that they meet. -/
def gateSteps : Option TimelineCursor → List AgentStreamReducerEvent → List GateStep
  | _, [] => []
  | cursor, e :: events =>
    { cursor, event := e } ::
      gateSteps ((processTimelineSequencingGate e cursor true).stored cursor) events

def appliedEvents (cursor : Option TimelineCursor) (events : List AgentStreamReducerEvent) :
    List AppliedEvent :=
  (gateSteps cursor events).filterMap GateStep.applied?

def TimelineCursor.reached (cursor : TimelineCursor) : TimelinePosition where
  epoch := cursor.epoch
  seq := cursor.endSeq

/-! ## One event -/

variable {e : AgentStreamReducerEvent} {position : TimelinePosition} {applied : List AppliedEvent}
  {parse : MarkdownParser} {cursor : Option TimelineCursor} {a : AppliedEvent}

open GateStep

/-- One turn of the loop over a batch changes the transcript as its gate step does. -/
theorem transcript_of_processNextEvent {state next : ProcessAgentStreamEventOutput}
    (h : processNextEvent parse true state e = .ok next) :
    transcript parse (state.tail, state.head) { cursor := state.cursor, event := e } =
      .ok (next.tail, next.head) := by
  unfold processNextEvent at h
  obtain ⟨output, houtput, hnext⟩ := bind_eq_ok.mp h
  obtain ⟨result, hresult, rfl⟩ := processAgentStreamEvent_eq_ok.mp houtput
  obtain rfl := Except.ok.inj hnext
  unfold applyGated at hresult
  unfold transcript gate
  by_cases hshould :
      (processTimelineSequencingGate e state.cursor true).shouldApplyStreamEvent = true
  · simp only [hshould, Bool.not_true, Bool.false_eq_true, if_false, if_true] at hresult ⊢
    apply bind_eq_ok.mpr
    refine ⟨result, ?_, rfl⟩
    rw [← hresult]
    by_cases hreset : (processTimelineSequencingGate e state.cursor true).resetLiveTimeline = true
    · simp [hreset]
    · simp [hreset]
  · simp only [hshould, Bool.not_false, if_true] at hresult ⊢
    obtain rfl := Except.ok.inj hresult
    rfl

/-- What may be applied after a position: the next event, or the first of another epoch. -/
def Follows (position : TimelinePosition) (a : AppliedEvent) : Prop :=
  a.reset = false ∧ a.position.epoch = position.epoch ∧ a.position.seq = position.seq + 1 ∨
    a.reset = true ∧ a.position.epoch ≠ position.epoch ∧ a.position.seq = 1

theorem gate_of_position (h : e.position = some position) (cursor : Option TimelineCursor) :
    processTimelineSequencingGate e cursor true = gateAt cursor position := by
  simp [processTimelineSequencingGate, h]

theorem gate_of_no_position (h : e.position = none) (cursor : Option TimelineCursor) :
    processTimelineSequencingGate e cursor true = base := by
  simp [processTimelineSequencingGate, h]

/-- An event that is not applied leaves the cursor alone. -/
theorem stored_of_not_applied (h : applied? { cursor, event := e } = none) :
    (processTimelineSequencingGate e cursor true).stored cursor = cursor := by
  cases hposition : e.position with
  | none =>
    rw [gate_of_no_position hposition]
    rfl
  | some position =>
    unfold applied? gate at h
    simp only [gate_of_position hposition, hposition, map_some, ite_eq_right_iff,
      reduceCtorEq, imp_false, Bool.not_eq_true] at h
    rw [gate_of_position hposition]
    unfold gateAt at h ⊢
    simp only [base] at h ⊢
    -- only the three branches that apply the event write a cursor
    split at h
    · cases h
    · cases h
    · rfl
    · split_ifs at h ⊢ with hfirst
      rfl
    · rfl

/-- An event that is applied becomes the position of the cursor, after which it follows. -/
theorem stored_of_applied (h : applied? { cursor, event := e } = some a) :
    (∃ next, (processTimelineSequencingGate e cursor true).stored cursor = some next ∧
      next.reached = a.position) ∧
      (cursor = none → a.reset = false) ∧ ∀ current ∈ cursor, Follows current.reached a := by
  cases hposition : e.position with
  | none =>
    unfold applied? at h
    simp [hposition] at h
  | some position =>
    have hspec := classifySessionTimelineSeq_spec cursor position
    unfold applied? gate at h
    rw [gate_of_position hposition] at h ⊢
    simp only [hposition, map_some] at h
    unfold gateAt at h ⊢
    simp only [base] at h ⊢
    cases hdecision : classifySessionTimelineSeq cursor position with
    | init =>
      rw [hdecision] at h hspec
      obtain rfl := some.inj h
      subst hspec
      exact ⟨⟨_, rfl, rfl⟩, by simp⟩
    | accept =>
      rw [hdecision] at h hspec
      obtain ⟨current, rfl, hepoch, hseq⟩ := hspec
      obtain rfl := some.inj h
      refine ⟨⟨_, rfl, rfl⟩, by simp, ?_⟩
      intro c hc
      obtain rfl := some.inj hc
      exact .inl ⟨rfl, hepoch.symm, hseq⟩
    | dropEpoch =>
      rw [hdecision] at h hspec
      obtain ⟨current, rfl, hepoch⟩ := hspec
      by_cases hfirst : position.seq = 1
      · simp only [if_pos hfirst] at h ⊢
        obtain rfl := some.inj h
        refine ⟨⟨_, rfl, rfl⟩, by simp, ?_⟩
        intro c hc
        obtain rfl := some.inj hc
        exact .inr ⟨rfl, hepoch.symm, hfirst⟩
      · simp [if_neg hfirst] at h
    | gap =>
      rw [hdecision] at h
      cases h
    | dropStale =>
      rw [hdecision] at h
      cases h

/-- An event beyond the next one of the cursor's epoch is turned into a catch-up. -/
theorem gap_not_applied {cursor : TimelineCursor} (hposition : e.position = some position)
    (hepoch : position.epoch = cursor.epoch) (hgap : cursor.endSeq + 1 < position.seq) :
    applied? { cursor := some cursor, event := e } = none ∧
      (gate { cursor := some cursor, event := e }).sideEffects = [cursor.position] := by
  have hdecision : classifySessionTimelineSeq (some cursor) position = .gap := by
    have hstale : ¬ position.seq ≤ cursor.endSeq := by omega
    have hnext : ¬ position.seq = cursor.endSeq + 1 := by omega
    simp [classifySessionTimelineSeq, hepoch, hstale, hnext]
  constructor
  · unfold applied? gate
    rw [gate_of_position hposition, gateAt, hdecision]
    rfl
  · unfold gate
    rw [gate_of_position hposition, gateAt, hdecision]
    rfl

/-- An event of another epoch asks for nothing, and its first event alone is applied. -/
theorem foreign_event {cursor : TimelineCursor} (hposition : e.position = some position)
    (hepoch : position.epoch ≠ cursor.epoch) :
    applied? { cursor := some cursor, event := e } =
        (if position.seq = 1 then some { position, reset := true } else none) ∧
      (gate { cursor := some cursor, event := e }).sideEffects = [] := by
  have hdecision : classifySessionTimelineSeq (some cursor) position = .dropEpoch := by
    simp [classifySessionTimelineSeq, hepoch.symm]
  unfold applied? gate
  rw [gate_of_position hposition, gateAt, hdecision]
  by_cases hfirst : position.seq = 1
  · simp [hfirst, hposition, base]
  · simp [hfirst, base]

/-! ## A run -/

theorem appliedEvents_cons (cursor : Option TimelineCursor) (e : AgentStreamReducerEvent)
    (events : List AgentStreamReducerEvent) :
    appliedEvents cursor (e :: events) =
      (applied? { cursor, event := e }).toList ++
        appliedEvents ((processTimelineSequencingGate e cursor true).stored cursor) events := by
  unfold appliedEvents
  rw [gateSteps, filterMap_cons]
  cases applied? { cursor, event := e } with
  | none => rfl
  | some a => rfl

/-- The cursor after the events. -/
def cursorAfter (cursor : Option TimelineCursor) (events : List AgentStreamReducerEvent) :
    Option TimelineCursor :=
  events.foldl (fun current e => (processTimelineSequencingGate e current true).stored current)
    cursor

/-- Each applied event follows the one before, and the cursor is at the last of them. -/
theorem appliedEvents_chain (events : List AgentStreamReducerEvent) :
    ∀ cursor : Option TimelineCursor,
      (appliedEvents cursor events).IsChain (fun a b => Follows a.position b) ∧
      (∀ first ∈ (appliedEvents cursor events).head?, (cursor = none → first.reset = false) ∧
        ∀ current ∈ cursor, Follows current.reached first) ∧
      (cursorAfter cursor events).map TimelineCursor.reached =
        (((appliedEvents cursor events).getLast?.map AppliedEvent.position).or
          (cursor.map TimelineCursor.reached)) := by
  induction events with
  | nil =>
    intro cursor
    exact ⟨.nil, by simp [appliedEvents, gateSteps], by simp [appliedEvents, gateSteps, cursorAfter]⟩
  | cons e events ih =>
    intro cursor
    obtain ⟨hchain, hhead, hlast⟩ :=
      ih ((processTimelineSequencingGate e cursor true).stored cursor)
    have hafter : cursorAfter cursor (e :: events) =
        cursorAfter ((processTimelineSequencingGate e cursor true).stored cursor) events := rfl
    rw [appliedEvents_cons, hafter, hlast]
    cases happlied : applied? { cursor, event := e } with
    | none =>
      rw [stored_of_not_applied happlied] at hchain hhead ⊢
      exact ⟨hchain, hhead, rfl⟩
    | some a =>
      obtain ⟨⟨next, hstored, hreached⟩, hfirst, hfollows⟩ := stored_of_applied happlied
      rw [hstored] at hchain hhead ⊢
      have hnext : ∀ b ∈ (appliedEvents (some next) events).head?, Follows a.position b := by
        intro b hb
        have := (hhead b hb).2 next rfl
        rwa [hreached] at this
      refine ⟨?_, ?_, ?_⟩
      · exact isChain_cons.mpr ⟨hnext, hchain⟩
      · intro first hfirst'
        obtain rfl := some.inj hfirst'
        exact ⟨hfirst, hfollows⟩
      · rw [toList_some, singleton_append, getLast?_cons, map_some,
          map_some, hreached]
        cases (appliedEvents (some next) events).getLast? with
        | none => rfl
        | some last => rfl

/-- A batch that does not throw, on top of an authoritative transcript, is its gate steps. -/
theorem foldlM_processNextEvent_gate (events : List AgentStreamReducerEvent) :
    ∀ {state output : ProcessAgentStreamEventOutput},
      events.foldlM (processNextEvent parse true) state = .ok output →
      output.cursor = cursorAfter state.cursor events ∧
        output.sideEffects = state.sideEffects ++
          (gateSteps state.cursor events).flatMap (fun step => step.gate.sideEffects) ∧
        (gateSteps state.cursor events).foldlM (transcript parse)
          (state.tail, state.head) = .ok (output.tail, output.head) := by
  induction events with
  | nil =>
    intro state output h
    obtain rfl := Except.ok.inj h
    exact ⟨rfl, by simp [gateSteps], rfl⟩
  | cons e events ih =>
    intro state output h
    rw [foldlM_cons] at h
    obtain ⟨next, hnext, hrest⟩ := bind_eq_ok.mp h
    obtain ⟨hcursor, _, heffects⟩ := processNextEvent_eq_ok hnext
    obtain ⟨houtput, hsides, htranscript⟩ := ih hrest
    rw [hcursor] at houtput hsides htranscript
    refine ⟨houtput, ?_, ?_⟩
    · rw [hsides, heffects, gateSteps, flatMap_cons, append_assoc]
      rfl
    · rw [gateSteps, foldlM_cons]
      apply bind_eq_ok.mpr
      refine ⟨(next.tail, next.head), ?_, htranscript⟩
      exact transcript_of_processNextEvent hnext

theorem follows_of_chain {k : ℕ} {b : AppliedEvent} (h : applied.IsChain fun a b => Follows a.position b)
    (ha : applied[k]? = some a) (hb : applied[k + 1]? = some b) : Follows a.position b := by
  obtain ⟨hk, rfl⟩ := List.getElem?_eq_some_iff.mp ha
  obtain ⟨hk', rfl⟩ := List.getElem?_eq_some_iff.mp hb
  exact isChain_iff_getElem.mp h k hk'

/-- Without a reset in between, the seqs count up by one. -/
theorem consecutive_of_chain (h : applied.IsChain fun a b => Follows a.position b) {i : ℕ}
    (ha : applied[i]? = some a) (n : ℕ) :
    ∀ {b : AppliedEvent}, applied[i + n]? = some b →
      (∀ m c, i < m → m ≤ i + n → applied[m]? = some c → c.reset = false) →
      b.position.epoch = a.position.epoch ∧ b.position.seq = a.position.seq + n := by
  induction n with
  | zero =>
    intro b hb _
    rw [Nat.add_zero, ha] at hb
    obtain rfl := some.inj hb
    exact ⟨rfl, by simp⟩
  | succ n ih =>
    intro b hb hquiet
    have hlt : i + n < applied.length := by
      have := (List.getElem?_eq_some_iff.mp hb).1
      omega
    have hprev : applied[i + n]? = some applied[i + n] := getElem?_eq_getElem hlt
    obtain ⟨hepoch, hseq⟩ := ih hprev fun m c hi hm hc => hquiet m c hi (by omega) hc
    have hreset := hquiet (i + (n + 1)) b (by omega) le_rfl hb
    rcases follows_of_chain h hprev hb with ⟨_, hepoch', hseq'⟩ | ⟨hreset', _, _⟩
    · refine ⟨hepoch'.trans hepoch, ?_⟩
      rw [hseq', hseq]
      push_cast
      ring
    · rw [hreset] at hreset'
      cases hreset'

/-- Two epochs are told apart by a reset to the first event of the later one. -/
theorem reset_of_chain (h : applied.IsChain fun a b => Follows a.position b) {i : ℕ}
    (ha : applied[i]? = some a) (n : ℕ) :
    ∀ {b : AppliedEvent}, applied[i + n]? = some b → a.position.epoch ≠ b.position.epoch →
      ∃ m, i < m ∧ m ≤ i + n ∧
        applied[m]? = some { position := { epoch := b.position.epoch, seq := 1 }, reset := true } := by
  induction n with
  | zero =>
    intro b hb hne
    rw [Nat.add_zero, ha] at hb
    obtain rfl := some.inj hb
    exact absurd rfl hne
  | succ n ih =>
    intro b hb hne
    have hlt : i + n < applied.length := by
      have := (List.getElem?_eq_some_iff.mp hb).1
      omega
    have hprev : applied[i + n]? = some applied[i + n] := getElem?_eq_getElem hlt
    rcases follows_of_chain h hprev hb with ⟨_, hepoch, _⟩ | ⟨hreset, _, hseq⟩
    · obtain ⟨m, hi, hm, hc⟩ := ih hprev (by rwa [← hepoch])
      exact ⟨m, hi, by omega, by rw [hc, hepoch]⟩
    · refine ⟨i + (n + 1), by omega, le_rfl, ?_⟩
      rw [hb, ← hreset, ← hseq]

/-- What the gate makes of live events that start from no cursor. -/
structure SequencedRun (parse : MarkdownParser) (events : List AgentStreamReducerEvent)
    (snapshot : AgentStreamReducerSnapshot) (output : ProcessAgentStreamEventOutput) : Prop where
  /-- The transcript is made by the applied events alone. -/
  transcript : (gateSteps none events).foldlM (GateStep.transcript parse)
    (snapshot.currentTail, snapshot.currentHead) = .ok (output.tail, output.head)
  consecutive : ∀ (i j : ℕ) (a b : AppliedEvent), (appliedEvents none events)[i]? = some a →
    (appliedEvents none events)[j]? = some b → i ≤ j →
    (∀ (m : ℕ) (c : AppliedEvent), i < m → m ≤ j → (appliedEvents none events)[m]? = some c → c.reset = false) →
    b.position.epoch = a.position.epoch ∧ b.position.seq = a.position.seq + (j - i)
  stored : output.cursor = cursorAfter none events
  reached : ∀ n, (cursorAfter none (events.take n)).map TimelineCursor.reached =
    (appliedEvents none (events.take n)).getLast?.map AppliedEvent.position
  catchUps : output.sideEffects = (gateSteps none events).flatMap fun step => step.gate.sideEffects
  gap : ∀ step ∈ gateSteps none events, ∀ (cursor : TimelineCursor) (position : TimelinePosition),
    step.cursor = some cursor →
    step.event.position = some position → position.epoch = cursor.epoch →
    cursor.endSeq + 1 < position.seq →
    step.applied? = none ∧ step.gate.sideEffects = [cursor.position]
  foreign : ∀ step ∈ gateSteps none events,
    ∀ (cursor : TimelineCursor) (position : TimelinePosition), step.cursor = some cursor →
    step.event.position = some position → position.epoch ≠ cursor.epoch →
    step.applied? = (if position.seq = 1 then some { position, reset := true } else none) ∧
      step.gate.sideEffects = []
  returned : ∀ (i j : ℕ) (a b : AppliedEvent), (appliedEvents none events)[i]? = some a →
    (appliedEvents none events)[j]? = some b → i ≤ j → a.position.epoch ≠ b.position.epoch →
    ∃ m, i < m ∧ m ≤ j ∧ (appliedEvents none events)[m]? =
      some { position := { epoch := b.position.epoch, seq := 1 }, reset := true }

/-- Live events are applied in order and at most once from one reset to the next. -/
theorem processAgentStreamEvents_sequenced (parse : MarkdownParser)
    (events : List AgentStreamReducerEvent) (snapshot : AgentStreamReducerSnapshot)
    (output : ProcessAgentStreamEventOutput) (hcursor : snapshot.currentCursor = none)
    (hbaseline : snapshot.hasAuthoritativeBaseline = true) (hdetached : snapshot.isDetached = false)
    (h : processAgentStreamEvents parse events snapshot = .ok output) :
    SequencedRun parse events snapshot output := by
  rw [processAgentStreamEvents, hdetached, if_neg (by decide), hbaseline] at h
  obtain ⟨hafter, hsides, htranscript⟩ := foldlM_processNextEvent_gate events h
  have hstart : snapshot.start.cursor = none := hcursor
  rw [hstart] at hafter hsides htranscript
  have hchain := (appliedEvents_chain events none).1
  refine
    { transcript := htranscript
      consecutive := ?_
      stored := hafter
      reached := ?_
      catchUps := by simpa [AgentStreamReducerSnapshot.start] using hsides
      gap := ?_
      foreign := ?_
      returned := ?_ }
  · intro i j a b ha hb hij hquiet
    obtain ⟨n, rfl⟩ := Nat.exists_eq_add_of_le hij
    have hcount := consecutive_of_chain hchain ha n hb hquiet
    refine ⟨hcount.1, ?_⟩
    rw [hcount.2]
    push_cast
    ring
  · intro n
    have hlast := (appliedEvents_chain (events.take n) none).2.2
    simpa using hlast
  · rintro ⟨_, e⟩ _ cursor position rfl hposition hepoch hgap
    exact gap_not_applied hposition hepoch hgap
  · rintro ⟨_, e⟩ _ cursor position rfl hposition hepoch
    exact foreign_event hposition hepoch
  · intro i j a b ha hb hij hne
    obtain ⟨n, rfl⟩ := Nat.exists_eq_add_of_le hij
    exact reset_of_chain hchain ha n hb hne

/-! ## Runs of a restarted daemon -/

/-- An assistant message that says its position. -/
def liveAt (epoch : String) (seq : ℤ) : AgentStreamReducerEvent where
  event := .timeline "codex" (.assistantMessage (epoch ++ toString seq) none) none
  seq := some seq
  epoch := some epoch
  timestamp := 0

/-- An initialized app that has loaded nothing. -/
def nothingLoaded : AgentStreamReducerSnapshot where
  currentTail := []
  currentHead := []
  currentCursor := none
  hasAuthoritativeBaseline := true
  isDetached := false

/-- A restarted daemon, a repeated event and a lost one. -/
def restartedEvents : List AgentStreamReducerEvent :=
  [liveAt "old" 7, liveAt "old" 8, liveAt "old" 8, liveAt "old" 10, liveAt "new" 1, liveAt "new" 2]

theorem processAgentStreamEvents_sequenced_restarted :
    ∃ output, processAgentStreamEvents (fun _ => []) restartedEvents nothingLoaded = .ok output ∧
      SequencedRun (fun _ => []) restartedEvents nothingLoaded output := by
  have hok : ∃ output,
      processAgentStreamEvents (fun _ => []) restartedEvents nothingLoaded = .ok output := by
    cases h : processAgentStreamEvents (fun _ => []) restartedEvents nothingLoaded with
    | ok output => exact ⟨output, rfl⟩
    | error message =>
      have hfine : (processAgentStreamEvents (fun _ => []) restartedEvents
        nothingLoaded).toBool = true := by decide +kernel
      rw [h] at hfine
      cases hfine
  obtain ⟨output, h⟩ := hok
  exact ⟨output, h, processAgentStreamEvents_sequenced _ _ _ _ rfl rfl rfl h⟩

/-- An event of another epoch that is too far ahead asks for no catch-up, and the first
event of an earlier epoch is applied a second time. -/
theorem earlierEpoch_returns :
    (processAgentStreamEvents (fun _ => []) [liveAt "old" 1, liveAt "new" 5] nothingLoaded).map
        (fun output => (output.cursor.map TimelineCursor.reached, output.sideEffects)) =
      .ok (some { epoch := "old", seq := 1 }, []) ∧
    appliedEvents none [liveAt "old" 1, liveAt "new" 5] =
      [{ position := { epoch := "old", seq := 1 }, reset := false }] ∧
    (processAgentStreamEvents (fun _ => []) [liveAt "old" 1, liveAt "new" 1, liveAt "old" 1]
        nothingLoaded).map (fun output => output.cursor.map TimelineCursor.reached) =
      .ok (some { epoch := "old", seq := 1 }) ∧
    appliedEvents none [liveAt "old" 1, liveAt "new" 1, liveAt "old" 1] =
      [{ position := { epoch := "old", seq := 1 }, reset := false },
        { position := { epoch := "new", seq := 1 }, reset := true },
        { position := { epoch := "old", seq := 1 }, reset := true }] := by
  decide +kernel

end Orqara.Session
