import Orqara.Session.TimelineCursor

/-!
# Live events

The sequencing gate decides event by event what is applied to the transcript, and
a batch hands the cursor and the transcript of one event to the next.
-/

namespace Orqara.Session

open Orqara.Timeline Orqara.Stream

structure AgentStreamReducerEvent where
  event : AgentStreamEventPayload
  seq : Option ℤ
  epoch : Option String
  timestamp : ℤ
  deriving DecidableEq

def isTimelineEvent : AgentStreamEventPayload → Bool
  | .timeline .. => true
  | _ => false

inductive SessionTimelineSeqDecision
  | accept | dropStale | dropEpoch | gap | init
  deriving DecidableEq, Repr

def classifySessionTimelineSeq (cursor : Option TimelineCursor) (position : TimelinePosition) :
    SessionTimelineSeqDecision :=
  match cursor with
  | none => .init
  | some cursor =>
    if cursor.epoch ≠ position.epoch then .dropEpoch
    else if position.seq ≤ cursor.endSeq then .dropStale
    else if position.seq = cursor.endSeq + 1 then .accept
    else .gap

/-- What each decision says about the cursor and the position. -/
theorem classifySessionTimelineSeq_spec (cursor : Option TimelineCursor)
    (position : TimelinePosition) :
    match classifySessionTimelineSeq cursor position with
    | .init => cursor = none
    | .dropEpoch => ∃ current, cursor = some current ∧ current.epoch ≠ position.epoch
    | .dropStale => ∃ current, cursor = some current ∧ current.epoch = position.epoch ∧
        position.seq ≤ current.endSeq
    | .accept => ∃ current, cursor = some current ∧ current.epoch = position.epoch ∧
        position.seq = current.endSeq + 1
    | .gap => ∃ current, cursor = some current ∧ current.epoch = position.epoch ∧
        current.endSeq + 1 < position.seq := by
  cases cursor with
  | none => rfl
  | some current =>
    unfold classifySessionTimelineSeq
    simp only [ne_eq, ite_not]
    split_ifs with hepoch hstale hnext
    · exact ⟨current, rfl, hepoch, hstale⟩
    · exact ⟨current, rfl, hepoch, hnext⟩
    · exact ⟨current, rfl, hepoch, by omega⟩
    · exact ⟨current, rfl, hepoch⟩

structure TimelineSequencingGateResult where
  shouldApplyStreamEvent : Bool
  nextTimelineCursor : Option TimelineCursor
  cursorChanged : Bool
  resetLiveTimeline : Bool
  sideEffects : List CatchUpCursor
  deriving DecidableEq

/-- An event that the gate lets through without a look at the cursor. -/
def TimelineSequencingGateResult.base : TimelineSequencingGateResult where
  shouldApplyStreamEvent := true
  nextTimelineCursor := none
  cursorChanged := false
  resetLiveTimeline := false
  sideEffects := []

def AgentStreamReducerEvent.position (e : AgentStreamReducerEvent) : Option TimelinePosition := do
  guard (isTimelineEvent e.event)
  let seq ← e.seq
  let epoch ← e.epoch
  return { epoch, seq }

/-- A cursor that starts at an event. -/
def TimelinePosition.cursor (position : TimelinePosition) : TimelineCursor where
  epoch := position.epoch
  startSeq := position.seq
  endSeq := position.seq
  retainedRanges := []

/-- The gate at an event with a position, on top of an authoritative baseline. -/
def gateAt (currentCursor : Option TimelineCursor) (position : TimelinePosition) :
    TimelineSequencingGateResult :=
  let base := TimelineSequencingGateResult.base
  match classifySessionTimelineSeq currentCursor position with
  | .init =>
    { base with nextTimelineCursor := some (TimelinePosition.cursor position), cursorChanged := true }
  | .accept =>
    { base with
      nextTimelineCursor := some
        { currentCursor.getD (TimelinePosition.cursor position) with
          epoch := position.epoch, endSeq := position.seq }
      cursorChanged := true }
  | .gap =>
    { base with
      shouldApplyStreamEvent := false
      sideEffects := (currentCursor.map TimelineCursor.position).toList }
  | .dropEpoch =>
    if position.seq = 1 then
      { base with
        nextTimelineCursor := some (TimelinePosition.cursor position), cursorChanged := true
        resetLiveTimeline := true }
    else { base with shouldApplyStreamEvent := false }
  | .dropStale => { base with shouldApplyStreamEvent := false }

def processTimelineSequencingGate (e : AgentStreamReducerEvent)
    (currentCursor : Option TimelineCursor) (hasAuthoritativeBaseline : Bool) :
    TimelineSequencingGateResult :=
  match e.position with
  | none => TimelineSequencingGateResult.base
  | some position =>
    if !hasAuthoritativeBaseline then TimelineSequencingGateResult.base
    else gateAt currentCursor position

/-- The cursor after an event that went through the gate. -/
def TimelineSequencingGateResult.stored (gate : TimelineSequencingGateResult)
    (currentCursor : Option TimelineCursor) : Option TimelineCursor :=
  if gate.cursorChanged then gate.nextTimelineCursor else currentCursor

structure ProcessAgentStreamEventOutput extends Lanes where
  cursor : Option TimelineCursor
  cursorChanged : Bool
  acknowledgedClientMessageIds : List String
  taskSnapshot : Option (List TodoEntry)
  sideEffects : List CatchUpCursor
  deriving DecidableEq

/-- The event applied to a provisional transcript, whose tail stays as it is. -/
def applyOverlay (parse : MarkdownParser) (tail head : List StreamItem)
    (e : AgentStreamReducerEvent) : Except String ApplyStreamEventResult :=
  match e.event with
  | .timeline _ (.userMessage ..) _ =>
    applyStreamEvent parse tail head e.event e.timestamp .live e.position .head
  | _ => do
    let overlay ← applyStreamEvent parse head [] e.event e.timestamp .live e.position .tail
    return { tail, head := overlay.tail ++ overlay.head, changedTail := false
             changedHead := overlay.changedTail || overlay.changedHead
             acknowledgedClientMessageIds := [] }

/-- What the gate's result makes of the transcript. -/
def applyGated (parse : MarkdownParser) (tail head : List StreamItem) (e : AgentStreamReducerEvent)
    (hasAuthoritativeBaseline : Bool) (gate : TimelineSequencingGateResult) :
    Except String ApplyStreamEventResult :=
  if !gate.shouldApplyStreamEvent then
    .ok { Lanes.start tail head with acknowledgedClientMessageIds := [] }
  else if !hasAuthoritativeBaseline then applyOverlay parse tail head e
  else
    applyStreamEvent parse (if gate.resetLiveTimeline then [] else tail)
      (if gate.resetLiveTimeline then [] else head) e.event e.timestamp .live
      e.position .tail

def taskSnapshotOf (e : AgentStreamReducerEvent) (gate : TimelineSequencingGateResult) :
    Option (List TodoEntry) :=
  match e.event with
  | .timeline _ (.todo items) _ => if gate.shouldApplyStreamEvent then some items else none
  | _ => none

def processAgentStreamEvent (parse : MarkdownParser) (e : AgentStreamReducerEvent)
    (currentTail currentHead : List StreamItem) (currentCursor : Option TimelineCursor)
    (hasAuthoritativeBaseline : Bool) : Except String ProcessAgentStreamEventOutput := do
  let gate := processTimelineSequencingGate e currentCursor hasAuthoritativeBaseline
  let result ← applyGated parse currentTail currentHead e hasAuthoritativeBaseline gate
  return { result with
    cursor := gate.nextTimelineCursor
    cursorChanged := gate.cursorChanged
    taskSnapshot := taskSnapshotOf e gate
    sideEffects := gate.sideEffects }

/-- What `createAgentStreamReducerQueue` reads of the store for one agent. -/
structure AgentStreamReducerSnapshot where
  currentTail : List StreamItem
  currentHead : List StreamItem
  currentCursor : Option TimelineCursor
  hasAuthoritativeBaseline : Bool
  isDetached : Bool
  deriving DecidableEq

/-- The output of no event. -/
def AgentStreamReducerSnapshot.start (snapshot : AgentStreamReducerSnapshot) :
    ProcessAgentStreamEventOutput where
  tail := snapshot.currentTail
  head := snapshot.currentHead
  changedTail := false
  changedHead := false
  cursor := snapshot.currentCursor
  cursorChanged := false
  acknowledgedClientMessageIds := []
  taskSnapshot := none
  sideEffects := []

/-- One turn of the loop over a batch. The acknowledged ids are a set in insertion order. -/
def processNextEvent (parse : MarkdownParser) (hasAuthoritativeBaseline : Bool)
    (state : ProcessAgentStreamEventOutput) (e : AgentStreamReducerEvent) :
    Except String ProcessAgentStreamEventOutput := do
  let result ← processAgentStreamEvent parse e state.tail state.head state.cursor
    hasAuthoritativeBaseline
  return {
    tail := result.tail
    head := result.head
    changedTail := state.changedTail || result.changedTail
    changedHead := state.changedHead || result.changedHead
    cursor := if result.cursorChanged then result.cursor else state.cursor
    cursorChanged := state.cursorChanged || result.cursorChanged
    acknowledgedClientMessageIds := result.acknowledgedClientMessageIds.foldl
      (fun ids id => if ids.contains id then ids else ids ++ [id])
      state.acknowledgedClientMessageIds
    taskSnapshot := result.taskSnapshot <|> state.taskSnapshot
    sideEffects := state.sideEffects ++ result.sideEffects }

def processAgentStreamEvents (parse : MarkdownParser) (events : List AgentStreamReducerEvent)
    (snapshot : AgentStreamReducerSnapshot) : Except String ProcessAgentStreamEventOutput :=
  if snapshot.isDetached then .ok snapshot.start
  else events.foldlM (processNextEvent parse snapshot.hasAuthoritativeBaseline) snapshot.start

/-! ## What an event does -/

variable {parse : MarkdownParser} {e : AgentStreamReducerEvent} {hasAuthoritativeBaseline : Bool}

/-- An event that does not throw: the gate's cursor and side effects, and the transcript
that the gate lets it make. -/
theorem processAgentStreamEvent_eq_ok {tail head : List StreamItem} {cursor : Option TimelineCursor}
    {output : ProcessAgentStreamEventOutput} :
    processAgentStreamEvent parse e tail head cursor hasAuthoritativeBaseline = .ok output ↔
      ∃ result, applyGated parse tail head e hasAuthoritativeBaseline
          (processTimelineSequencingGate e cursor hasAuthoritativeBaseline) = .ok result ∧
        output =
          { result with
            cursor := (processTimelineSequencingGate e cursor
              hasAuthoritativeBaseline).nextTimelineCursor
            cursorChanged := (processTimelineSequencingGate e cursor
              hasAuthoritativeBaseline).cursorChanged
            taskSnapshot := taskSnapshotOf e
              (processTimelineSequencingGate e cursor hasAuthoritativeBaseline)
            sideEffects := (processTimelineSequencingGate e cursor
              hasAuthoritativeBaseline).sideEffects } := by
  unfold processAgentStreamEvent
  rw [bind_eq_ok]
  apply exists_congr
  intro result
  apply and_congr_right
  intro _
  exact ⟨fun h => (Except.ok.inj h).symm, fun h => congrArg Except.ok h.symm⟩

/-- One turn of the loop moves the cursor as the gate says. -/
theorem processNextEvent_eq_ok {state next : ProcessAgentStreamEventOutput}
    (h : processNextEvent parse hasAuthoritativeBaseline state e = .ok next) :
    next.cursor = (processTimelineSequencingGate e state.cursor hasAuthoritativeBaseline).stored
        state.cursor ∧
      next.cursorChanged = (state.cursorChanged ||
        (processTimelineSequencingGate e state.cursor hasAuthoritativeBaseline).cursorChanged) ∧
      next.sideEffects = state.sideEffects ++
        (processTimelineSequencingGate e state.cursor hasAuthoritativeBaseline).sideEffects := by
  unfold processNextEvent at h
  obtain ⟨output, houtput, hnext⟩ := bind_eq_ok.mp h
  obtain ⟨result, _, rfl⟩ := processAgentStreamEvent_eq_ok.mp houtput
  obtain rfl := Except.ok.inj hnext
  exact ⟨rfl, rfl, rfl⟩

end Orqara.Session
