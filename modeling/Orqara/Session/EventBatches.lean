import Orqara.Session.ReducerQueue

/-!
# Batches of events

A batch shares one snapshot and one commit. When it comes to the same timeline as its
events would one by one, and when a queue of batches does.
-/

namespace Orqara.Session

open ReducerQueue AgentTimelineState Orqara.Stream List Option

/-! ## When batching shows -/

/-- The event empties the transcript, being the first of another epoch. -/
def AgentTimelineState.restarts (state : AgentTimelineState) (e : AgentStreamReducerEvent) : Bool :=
  (processTimelineSequencingGate e state.snapshot.currentCursor state.synced).resetLiveTimeline

/-- The event does not throw, and when it restarts the transcript it leaves no lane empty
that was not: the commit would keep the old lane. -/
def TakesAlone (parse : MarkdownParser) (state : AgentTimelineState) (e : AgentStreamReducerEvent) :
    Prop :=
  match processAgentStreamEvents parse [e] state.snapshot with
  | .error _ => False
  | .ok result => state.restarts e = true →
    (state.tail = [] ∨ result.changedTail = true) ∧ (state.head = [] ∨ result.changedHead = true)

instance (parse : MarkdownParser) (state : AgentTimelineState) (e : AgentStreamReducerEvent) :
    Decidable (TakesAlone parse state e) := by
  unfold TakesAlone
  cases processAgentStreamEvents parse [e] state.snapshot with
  | error _ => exact instDecidableFalse
  | ok result => exact inferInstance

def TakenOneByOne (parse : MarkdownParser) :
    AgentTimelineState → List AgentStreamReducerEvent → Prop
  | _, [] => True
  | state, e :: events =>
    TakesAlone parse state e ∧ TakenOneByOne parse (state.batch parse [e]).1 events

instance decidableTakenOneByOne (parse : MarkdownParser) :
    ∀ (state : AgentTimelineState) (events : List AgentStreamReducerEvent),
      Decidable (TakenOneByOne parse state events)
  | _, [] => isTrue trivial
  | state, e :: events =>
    have := decidableTakenOneByOne parse (state.batch parse [e]).1 events
    inferInstanceAs (Decidable (_ ∧ _))

/-- The commit does not take the batch for one that the stored cursor has seen. -/
def CursorCommitted (state : AgentTimelineState) (events : List AgentStreamReducerEvent) : Prop :=
  state.synced = true → state.newerAvailable = false →
    cursorAfter state.cursor events = state.cursor ∨
      ∀ current ∈ state.cursor, ∀ next ∈ cursorAfter state.cursor events,
        keepsStoredCursor current events.getLast? next = false

instance (state : AgentTimelineState) (events : List AgentStreamReducerEvent) :
    Decidable (CursorCommitted state events) :=
  inferInstanceAs (Decidable (_ → _ → _ ∨ _))

def CleanBatch (parse : MarkdownParser) (state : AgentTimelineState)
    (events : List AgentStreamReducerEvent) : Prop :=
  events.length ≤ 1 ∨ TakenOneByOne parse state events ∧ CursorCommitted state events

instance (parse : MarkdownParser) (state : AgentTimelineState)
    (events : List AgentStreamReducerEvent) : Decidable (CleanBatch parse state events) :=
  inferInstanceAs (Decidable (_ ∨ _))

/-! ## One event -/

variable {e : AgentStreamReducerEvent} {cursor : Option TimelineCursor} {baseline : Bool}
  {parse : MarkdownParser} {output : ProcessAgentStreamEventOutput} {state : AgentTimelineState}
  {base : AgentTimelineState} {events : List AgentStreamReducerEvent}

/-- Only an event of the authoritative timeline restarts the transcript, and it is applied. -/
theorem reset_spec (h : (processTimelineSequencingGate e cursor baseline).resetLiveTimeline = true) :
    baseline = true ∧
      (processTimelineSequencingGate e cursor baseline).shouldApplyStreamEvent = true := by
  unfold processTimelineSequencingGate at h ⊢
  cases hposition : e.position with
  | none =>
    rw [hposition] at h
    cases h
  | some position =>
    rw [hposition] at h
    cases baseline with
    | false => cases h
    | true =>
      simp only [Bool.not_true, Bool.false_eq_true, if_false] at h ⊢
      refine ⟨trivial, ?_⟩
      unfold gateAt at h ⊢
      simp only [TimelineSequencingGateResult.base] at h ⊢
      cases hdecision : classifySessionTimelineSeq cursor position with
      | dropEpoch =>
        rw [hdecision] at h
        by_cases hfirst : position.seq = 1
        · simp [hfirst]
        · simp [hfirst] at h
      | _ => simp [hdecision] at h

/-- A cursor that an event moves is stored when the event is a batch of its own. -/
theorem cursorChanged_spec (h : (processTimelineSequencingGate e cursor baseline).cursorChanged = true) :
    baseline = true ∧ ∃ next,
      (processTimelineSequencingGate e cursor baseline).nextTimelineCursor = some next ∧
        commitCursor cursor [e] next = next := by
  cases hposition : e.position with
  | none => simp [processTimelineSequencingGate, hposition, TimelineSequencingGateResult.base] at h
  | some position =>
    cases baseline with
    | false =>
      simp [processTimelineSequencingGate, hposition, TimelineSequencingGateResult.base] at h
    | true =>
      refine ⟨rfl, ?_⟩
      rw [gate_of_position hposition] at h ⊢
      have hread : e.seq = some position.seq ∧ e.epoch = some position.epoch := by
        unfold AgentStreamReducerEvent.position at hposition
        simp only [bind_eq_bind, bind_eq_some_iff] at hposition
        obtain ⟨_, _, seq, hseq, epoch, hepoch, heq⟩ := hposition
        obtain rfl := some.inj heq
        exact ⟨hseq, hepoch⟩
      have hspec := classifySessionTimelineSeq_spec cursor position
      unfold gateAt at h ⊢
      simp only [TimelineSequencingGateResult.base] at h ⊢
      cases hdecision : classifySessionTimelineSeq cursor position with
      | init =>
        rw [hdecision] at hspec
        subst hspec
        exact ⟨_, rfl, rfl⟩
      | accept =>
        rw [hdecision] at hspec
        obtain ⟨current, rfl, hepoch, hseq⟩ := hspec
        refine ⟨_, rfl, ?_⟩
        -- the event lies beyond the stored range, and so does the new end
        simp [commitCursor, keepsStoredCursor, hread, hepoch, hseq]
      | dropEpoch =>
        rw [hdecision] at h hspec
        obtain ⟨current, rfl, hepoch⟩ := hspec
        by_cases hfirst : position.seq = 1
        · simp only [if_pos hfirst]
          refine ⟨_, rfl, ?_⟩
          simp [commitCursor, keepsStoredCursor, hread, TimelinePosition.cursor, hepoch, hepoch.symm]
        · simp [hfirst] at h
      | gap =>
        rw [hdecision] at h
        cases h
      | dropStale =>
        rw [hdecision] at h
        cases h

/-- A provisional transcript counts its head as changed when an item of it changes. -/
theorem marks_applyOverlay {tail head : List StreamItem} {result : ApplyStreamEventResult}
    (h : applyOverlay parse tail head e = .ok result) : Marks tail head result.toLanes := by
  unfold applyOverlay at h
  split at h
  · exact marks_applyStreamEvent h
  · obtain ⟨overlay, hoverlay, h⟩ := bind_eq_ok.mp h
    obtain rfl := Except.ok.inj h
    have hmarks := marks_applyStreamEvent hoverlay
    refine ⟨fun _ => rfl, ?_⟩
    intro hchanged
    obtain ⟨htail, hhead⟩ := Bool.or_eq_false_iff.mp hchanged
    rw [hmarks.tail htail, hmarks.head hhead, append_nil]

/-- The lanes an event starts from. -/
theorem marks_processAgentStreamEvent {tail head : List StreamItem}
    (h : processAgentStreamEvent parse e tail head cursor baseline = .ok output) :
    if (processTimelineSequencingGate e cursor baseline).resetLiveTimeline then
      Marks [] [] output.toLanes else Marks tail head output.toLanes := by
  obtain ⟨result, hresult, rfl⟩ := processAgentStreamEvent_eq_ok.mp h
  unfold applyGated at hresult
  by_cases hreset : (processTimelineSequencingGate e cursor baseline).resetLiveTimeline = true
  · obtain ⟨rfl, hshould⟩ := reset_spec hreset
    simp only [hreset, hshould, Bool.not_true, Bool.false_eq_true, if_false, if_true] at hresult ⊢
    exact marks_applyStreamEvent hresult
  · simp only [hreset] at hresult ⊢
    by_cases hshould :
        (processTimelineSequencingGate e cursor baseline).shouldApplyStreamEvent = true
    · cases baseline with
      | true =>
        simp only [hshould, Bool.not_true, Bool.false_eq_true, if_false] at hresult
        exact marks_applyStreamEvent hresult
      | false =>
        simp only [hshould, Bool.not_true, Bool.not_false, Bool.false_eq_true, if_false, if_true]
          at hresult
        exact marks_applyOverlay hresult
    · simp only [hshould, Bool.not_false, if_true] at hresult
      obtain rfl := Except.ok.inj hresult
      exact Marks.start

/-- A turn of the loop, with what the event itself comes to. -/
theorem processNextEvent_iff {state next : ProcessAgentStreamEventOutput} :
    processNextEvent parse baseline state e = .ok next ↔
      ∃ result, processAgentStreamEvent parse e state.tail state.head state.cursor baseline =
          .ok result ∧
        next =
          { tail := result.tail
            head := result.head
            changedTail := state.changedTail || result.changedTail
            changedHead := state.changedHead || result.changedHead
            cursor := if result.cursorChanged then result.cursor else state.cursor
            cursorChanged := state.cursorChanged || result.cursorChanged
            acknowledgedClientMessageIds := result.acknowledgedClientMessageIds.foldl
              (fun ids id => if ids.contains id then ids else ids ++ [id])
              state.acknowledgedClientMessageIds
            taskSnapshot := result.taskSnapshot <|> state.taskSnapshot
            sideEffects := state.sideEffects ++ result.sideEffects } := by
  unfold processNextEvent
  rw [bind_eq_ok]
  apply exists_congr
  intro result
  apply and_congr_right
  intro _
  exact ⟨fun h => (Except.ok.inj h).symm, fun h => congrArg Except.ok h.symm⟩

theorem processAgentStreamEvents_one (parse : MarkdownParser) (e : AgentStreamReducerEvent)
    {snapshot : AgentStreamReducerSnapshot} (h : snapshot.isDetached = false) :
    processAgentStreamEvents parse [e] snapshot =
      processNextEvent parse snapshot.hasAuthoritativeBaseline snapshot.start e := by
  rw [processAgentStreamEvents, h, if_neg (by decide), foldlM_cons]
  simp

/-- What an event does when it is a batch of its own. -/
structure Alone (parse : MarkdownParser) (state : AgentTimelineState) (e : AgentStreamReducerEvent)
    (result : ProcessAgentStreamEventOutput) : Prop where
  ok : processAgentStreamEvent parse e state.tail state.head state.snapshot.currentCursor
    state.synced = .ok result
  marks : Marks state.tail state.head result.toLanes
  tail : (state.batch parse [e]).1.tail = result.tail
  head : (state.batch parse [e]).1.head = result.head
  synced : (state.batch parse [e]).1.synced = state.synced
  newer : (state.batch parse [e]).1.newerAvailable = state.newerAvailable
  moved : result.cursorChanged = true → state.synced = true ∧ result.cursor.isSome = true ∧
    (state.batch parse [e]).1.cursor = result.cursor
  unmoved : result.cursorChanged = false → (state.batch parse [e]).1.cursor = state.cursor
  sideEffects : (state.batch parse [e]).2 = result.sideEffects

/-- Under the condition the lanes that do not count as changed are those of before. -/
theorem marks_of_restart {result : ProcessAgentStreamEventOutput}
    (hok : processAgentStreamEvent parse e state.tail state.head state.snapshot.currentCursor
      state.synced = .ok result)
    (h : state.restarts e = true → (state.tail = [] ∨ result.changedTail = true) ∧
      (state.head = [] ∨ result.changedHead = true)) :
    Marks state.tail state.head result.toLanes := by
  have hlanes := marks_processAgentStreamEvent hok
  by_cases hrestart : state.restarts e = true
  · obtain ⟨htail, hhead⟩ := h hrestart
    unfold restarts at hrestart
    rw [if_pos hrestart] at hlanes
    refine ⟨?_, ?_⟩
    · intro hsame
      have hnil : state.tail = [] := htail.resolve_right (by simp [hsame])
      rw [hlanes.tail hsame, hnil]
    · intro hsame
      have hnil : state.head = [] := hhead.resolve_right (by simp [hsame])
      rw [hlanes.head hsame, hnil]
  · unfold restarts at hrestart
    rw [if_neg hrestart] at hlanes
    exact hlanes

theorem exists_alone (h : TakesAlone parse state e) (hattached : state.snapshot.isDetached = false) :
    ∃ result, Alone parse state e result := by
  unfold TakesAlone at h
  cases hone : processAgentStreamEvents parse [e] state.snapshot with
  | error message => simp [hone] at h
  | ok single =>
    rw [hone] at h
    have hbatch : state.batch parse [e] = (state.commit single [e], single.sideEffects) := by
      rw [batch, hone]
    rw [processAgentStreamEvents_one parse e hattached] at hone
    obtain ⟨result, hok, hsingle⟩ := processNextEvent_iff.mp hone
    have hok : processAgentStreamEvent parse e state.tail state.head
      state.snapshot.currentCursor state.synced = .ok result := hok
    have hmarks : Marks state.tail state.head result.toLanes := by
      apply marks_of_restart hok
      intro hrestart
      have hlanes := h hrestart
      rw [hsingle] at hlanes
      exact hlanes
    -- the first event of a batch finds nothing that counts as changed
    have hchangedTail : single.changedTail = result.changedTail := by rw [hsingle]; rfl
    have hchangedHead : single.changedHead = result.changedHead := by rw [hsingle]; rfl
    have hchanged : single.cursorChanged = result.cursorChanged := by rw [hsingle]; rfl
    have htail : single.tail = result.tail := by rw [hsingle]
    have hhead : single.head = result.head := by rw [hsingle]
    obtain ⟨applied, _, heq⟩ := processAgentStreamEvent_eq_ok.mp hok
    have hnext : result.cursor = (processTimelineSequencingGate e state.snapshot.currentCursor
        state.synced).nextTimelineCursor := by rw [heq]
    have hgate : result.cursorChanged = (processTimelineSequencingGate e
        state.snapshot.currentCursor state.synced).cursorChanged := by rw [heq]
    refine ⟨result, ?_⟩
    refine
      { ok := hok
        marks := hmarks
        tail := ?_
        head := ?_
        synced := by rw [hbatch]; rfl
        newer := by rw [hbatch]; rfl
        moved := ?_
        unmoved := ?_
        sideEffects := ?_ }
    · rw [hbatch]
      by_cases hset : result.changedTail = true
      · simp [commit, hchangedTail, hset, htail]
      · simp only [commit, hchangedTail, hset]
        exact (hmarks.tail (by simpa using hset)).symm
    · rw [hbatch]
      by_cases hset : result.changedHead = true
      · simp [commit, hchangedHead, hset, hhead]
      · simp only [commit, hchangedHead, hset]
        exact (hmarks.head (by simpa using hset)).symm
    · intro hmoved
      have hcursor : single.cursor = result.cursor := by
        rw [hsingle]
        simp [hmoved]
      obtain ⟨hsynced, next, hnextCursor, hcommit⟩ := cursorChanged_spec (hgate ▸ hmoved)
      have hcurrent : state.snapshot.currentCursor = state.cursor := by
        simp [snapshot, hsynced]
      rw [hcurrent] at hcommit
      have hresult : result.cursor = some next := hnext.trans hnextCursor
      refine ⟨hsynced, by rw [hresult]; rfl, ?_⟩
      rw [hbatch]
      simp [commit, hchanged, hmoved, hcursor, hresult, hcommit]
    · intro hunmoved
      rw [hbatch]
      simp [commit, hchanged, hunmoved]
    · rw [hbatch, hsingle]
      exact nil_append _

/-! ## A batch -/

/-- The loop over a batch from `base` is where the events one by one are. -/
structure Carries (base state : AgentTimelineState) (output : ProcessAgentStreamEventOutput) :
    Prop where
  tail : output.tail = state.tail
  head : output.head = state.head
  cursor : output.cursor = state.snapshot.currentCursor
  marks : Marks base.tail base.head output.toLanes
  synced : state.synced = base.synced
  newer : state.newerAvailable = base.newerAvailable
  moved : output.cursorChanged = true → base.synced = true ∧ output.cursor.isSome = true
  unmoved : output.cursorChanged = false → state.cursor = base.cursor

theorem Carries.start (base : AgentTimelineState) : Carries base base base.snapshot.start where
  tail := rfl
  head := rfl
  cursor := rfl
  marks := Marks.start
  synced := rfl
  newer := rfl
  moved h := Bool.noConfusion h
  unmoved _ := rfl

section

variable (h : Carries base state output)
include h

section

variable (hattached : base.snapshot.isDetached = false)
include hattached

theorem Carries.attached :
    state.snapshot.isDetached = false := by
  unfold snapshot at hattached ⊢
  rw [h.synced, h.newer]
  exact hattached

theorem Carries.next
    (htakes : TakesAlone parse state e) :
    ∃ next, processNextEvent parse base.synced output e = .ok next ∧
      Carries base (state.batch parse [e]).1 next ∧
      next.sideEffects = output.sideEffects ++ (state.batch parse [e]).2 := by
  obtain ⟨result, halone⟩ := exists_alone htakes (h.attached hattached)
  have hok := halone.ok
  rw [← h.tail, ← h.head, ← h.cursor, h.synced] at hok
  refine ⟨_, processNextEvent_iff.mpr ⟨result, hok, rfl⟩, ?_, ?_⟩
  · refine
      { tail := halone.tail.symm
        head := halone.head.symm
        cursor := ?_
        marks := ?_
        synced := halone.synced.trans h.synced
        newer := halone.newer.trans h.newer
        moved := ?_
        unmoved := ?_ }
    · by_cases hmoved : result.cursorChanged = true
      · obtain ⟨hsynced, _, hcursor⟩ := halone.moved hmoved
        simp [hmoved, snapshot, halone.synced, hsynced, hcursor]
      · have hsame := halone.unmoved (by simpa using hmoved)
        have hcursor := h.cursor
        unfold snapshot at hcursor ⊢
        simp only [hmoved, halone.synced, hsame]
        exact hcursor
    · refine ⟨?_, ?_⟩
      · intro hchanged
        obtain ⟨hbefore, hresult⟩ := Bool.or_eq_false_iff.mp hchanged
        rw [← h.marks.tail hbefore, h.tail]
        exact halone.marks.tail hresult
      · intro hchanged
        obtain ⟨hbefore, hresult⟩ := Bool.or_eq_false_iff.mp hchanged
        rw [← h.marks.head hbefore, h.head]
        exact halone.marks.head hresult
    · intro hchanged
      by_cases hmoved : result.cursorChanged = true
      · obtain ⟨hsynced, hsome, _⟩ := halone.moved hmoved
        simp only [hmoved]
        exact ⟨h.synced ▸ hsynced, hsome⟩
      · simp only [hmoved, Bool.or_false] at hchanged ⊢
        exact h.moved hchanged
    · intro hunchanged
      obtain ⟨hbefore, hresult⟩ := Bool.or_eq_false_iff.mp hunchanged
      rw [halone.unmoved hresult]
      exact h.unmoved hbefore
  · rw [halone.sideEffects]

omit h in
/-- The loop over events that can be taken one by one. -/
theorem Carries.foldlM
    (events : List AgentStreamReducerEvent) :
    ∀ {state : AgentTimelineState} {output : ProcessAgentStreamEventOutput},
      Carries base state output → TakenOneByOne parse state events →
      ∃ last, events.foldlM (processNextEvent parse base.synced) output = .ok last ∧
        Carries base (state.oneByOne parse events).1 last ∧
        last.sideEffects = output.sideEffects ++ (state.oneByOne parse events).2 := by
  induction events with
  | nil =>
    intro state output h _
    exact ⟨output, rfl, h, (append_nil _).symm⟩
  | cons e events ih =>
    intro state output h htaken
    obtain ⟨next, hnext, hcarries, heffects⟩ := h.next hattached htaken.1
    obtain ⟨last, hlast, hcarries', heffects'⟩ := ih hcarries htaken.2
    refine ⟨last, ?_, hcarries', ?_⟩
    · rw [foldlM_cons, hnext]
      exact hlast
    · rw [heffects', heffects, append_assoc]
      rfl

/-- The commit of the batch stores what the events one by one have stored. -/
theorem Carries.commit
    (hcursor : base.synced = true → output.cursor = cursorAfter base.cursor events)
    (hcommitted : CursorCommitted base events) : base.commit output events = state := by
  have htail : (base.commit output events).tail = state.tail := by
    rw [← h.tail]
    by_cases hchanged : output.changedTail = true
    · simp [AgentTimelineState.commit, hchanged]
    · simp only [AgentTimelineState.commit, hchanged]
      exact (h.marks.tail (by simpa using hchanged)).symm
  have hhead : (base.commit output events).head = state.head := by
    rw [← h.head]
    by_cases hchanged : output.changedHead = true
    · simp [AgentTimelineState.commit, hchanged]
    · simp only [AgentTimelineState.commit, hchanged]
      exact (h.marks.head (by simpa using hchanged)).symm
  have hstored : (base.commit output events).cursor = state.cursor := by
    by_cases hchanged : output.cursorChanged = true
    · obtain ⟨hsynced, hsome⟩ := h.moved hchanged
      obtain ⟨next, hnext⟩ := isSome_iff_exists.mp hsome
      have hstate : state.cursor = some next := by
        have := h.cursor
        simp only [snapshot, h.synced, hsynced, if_true] at this
        rw [← this, hnext]
      have hafter := hcursor hsynced
      have hnewer : base.newerAvailable = false := by
        simpa [snapshot, hsynced] using hattached
      have hcommit : commitCursor base.cursor events next = next := by
        cases hbase : base.cursor with
        | none => rfl
        | some current =>
          rcases hcommitted hsynced hnewer with hsame | hclear
          · have hcurrent : next = current := by
              rw [← hafter, hnext, hbase] at hsame
              exact some.inj hsame
            rw [hcurrent, commitCursor]
            split <;> rfl
          · have hkeeps := hclear current hbase next (by rw [← hafter, hnext]; rfl)
            simp [commitCursor, hkeeps]
      simp [AgentTimelineState.commit, hchanged, hnext, hcommit, hstate]
    · simp only [AgentTimelineState.commit, hchanged]
      exact (h.unmoved (by simpa using hchanged)).symm
  have hsynced := h.synced
  have hnewer := h.newer
  cases state
  simp only [AgentTimelineState.commit] at *
  simp [htail, hhead, hstored, hsynced, hnewer]

end

end

theorem processAgentStreamEvents_nil (parse : MarkdownParser)
    (snapshot : AgentStreamReducerSnapshot) :
    processAgentStreamEvents parse [] snapshot = .ok snapshot.start := by
  unfold processAgentStreamEvents
  by_cases h : snapshot.isDetached = true
  · rw [if_pos h]
  · rw [if_neg h, foldlM_nil]
    rfl

/-- A timeline that newer rows detach takes no live event. -/
theorem batch_detached (parse : MarkdownParser) (h : state.snapshot.isDetached = true)
    (events : List AgentStreamReducerEvent) :
    state.batch parse events = (state, []) := by
  unfold batch processAgentStreamEvents
  rw [if_pos h]
  rfl

theorem oneByOne_detached (parse : MarkdownParser) (h : state.snapshot.isDetached = true)
    (events : List AgentStreamReducerEvent) :
    state.oneByOne parse events = (state, []) := by
  induction events with
  | nil => rfl
  | cons e events ih => simp [oneByOne, batch_detached parse h, ih]

theorem batch_nil (parse : MarkdownParser) (state : AgentTimelineState) :
    state.batch parse [] = (state, []) := by
  have hsame : state.commit state.snapshot.start [] = state := by
    simp [commit, AgentStreamReducerSnapshot.start]
  have heffects : state.snapshot.start.sideEffects = [] := rfl
  rw [batch, processAgentStreamEvents_nil]
  simp only [hsame, heffects]

/-- A clean batch comes to what its events come to one by one. -/
theorem batch_eq_oneByOne (h : CleanBatch parse state events) :
    state.batch parse events = state.oneByOne parse events := by
  cases hdetached : state.snapshot.isDetached with
  | true => rw [batch_detached parse hdetached, oneByOne_detached parse hdetached]
  | false =>
    rcases h with hshort | ⟨htaken, hcommitted⟩
    · cases events with
      | nil => exact batch_nil parse state
      | cons e rest =>
        have hrest : rest = [] := by simpa using hshort
        simp [hrest, oneByOne]
    · obtain ⟨last, hlast, hcarries, heffects⟩ :=
        Carries.foldlM hdetached events (Carries.start state) htaken
      have hok : processAgentStreamEvents parse events state.snapshot = .ok last := by
        rw [processAgentStreamEvents, hdetached, if_neg (by decide)]
        exact hlast
      have hafter : state.synced = true → last.cursor = cursorAfter state.cursor events := by
        intro hsynced
        rw [hsynced] at hlast
        have hcursor := (foldlM_processNextEvent_gate events hlast).1
        simpa [snapshot, AgentStreamReducerSnapshot.start, hsynced] using hcursor
      unfold batch
      rw [hok]
      apply Prod.ext
      · exact hcarries.commit hdetached hafter hcommitted
      · exact heffects.trans (nil_append _)

/-! ## The queue -/

theorem oneByOne_cons (parse : MarkdownParser) (state : AgentTimelineState)
    (e : AgentStreamReducerEvent) (events : List AgentStreamReducerEvent) :
    state.oneByOne parse (e :: events) =
      (((state.batch parse [e]).1.oneByOne parse events).1,
        (state.batch parse [e]).2 ++ ((state.batch parse [e]).1.oneByOne parse events).2) := rfl

theorem oneByOne_append (parse : MarkdownParser) (events more : List AgentStreamReducerEvent) :
    ∀ state : AgentTimelineState, state.oneByOne parse (events ++ more) =
      (((state.oneByOne parse events).1.oneByOne parse more).1,
        (state.oneByOne parse events).2 ++ ((state.oneByOne parse events).1.oneByOne parse more).2) := by
  induction events with
  | nil =>
    intro state
    rfl
  | cons e events ih =>
    intro state
    rw [cons_append, oneByOne_cons, oneByOne_cons, ih, append_assoc]

/-- The agents whose events an operation hands to the reducer. -/
def QueueOp.flushed (queue : ReducerQueue) : QueueOp → List String
  | .enqueue .. => []
  | .flush => queue.pendingByAgentId.keys
  | .flushAgent agentId => [agentId]
  | .timer id => if id ∈ queue.scheduledFlushes then queue.pendingByAgentId.keys else []

/-- Every batch that the operation hands over is clean. -/
def CleanOp (parse : MarkdownParser) (queue : ReducerQueue) (op : QueueOp) : Prop :=
  ∀ agentId ∈ op.flushed queue, CleanBatch parse (queue.store agentId) (queue.pending agentId)

instance (parse : MarkdownParser) (queue : ReducerQueue) (op : QueueOp) :
    Decidable (CleanOp parse queue op) := inferInstanceAs (Decidable (∀ _ ∈ _, _))

def CleanRun (parse : MarkdownParser) : ReducerQueue → List QueueOp → Prop
  | _, [] => True
  | queue, op :: ops => CleanOp parse queue op ∧ CleanRun parse (queue.step parse op) ops

instance decidableCleanRun (parse : MarkdownParser) :
    ∀ (queue : ReducerQueue) (ops : List QueueOp), Decidable (CleanRun parse queue ops)
  | _, [] => isTrue trivial
  | queue, op :: ops =>
    have := decidableCleanRun parse (queue.step parse op) ops
    inferInstanceAs (Decidable (_ ∧ _))

/-- The events handed to the reducer for an agent, in order. -/
def ReducerQueue.processed (queue : ReducerQueue) (agentId : String) :
    List AgentStreamReducerEvent :=
  (queue.handed agentId).flatten

/-- What is enqueued has been handed over in order, or waits, and the store is where the
processed events one by one have brought it. -/
structure Batched (parse : MarkdownParser) (initial : String → AgentTimelineState)
    (received : String → List AgentStreamReducerEvent) (queue : ReducerQueue) : Prop where
  inOrder : ∀ agentId, queue.processed agentId ++ queue.pending agentId = received agentId
  store : ∀ agentId, queue.store agentId =
    ((initial agentId).oneByOne parse (queue.processed agentId)).1
  recovered : ∀ agentId, queue.recovered agentId =
    ((initial agentId).oneByOne parse (queue.processed agentId)).2

section Batched

variable {parse : MarkdownParser} {initial : String → AgentTimelineState}
  {received : String → List AgentStreamReducerEvent} {queue : ReducerQueue}

/-- Neither the timers nor the flags of the queue count. -/
theorem Batched.congr (h : Batched parse initial received queue) {queue' : ReducerQueue}
    (hpending : ∀ agentId, queue'.pending agentId = queue.pending agentId)
    (hhanded : queue'.handed = queue.handed) (hstore : queue'.store = queue.store)
    (hrecovered : queue'.recovered = queue.recovered) : Batched parse initial received queue' where
  inOrder agentId := by
    rw [hpending, processed, hhanded]
    exact h.inOrder agentId
  store agentId := by
    rw [hstore, processed, hhanded]
    exact h.store agentId
  recovered agentId := by
    rw [hrecovered, processed, hhanded]
    exact h.recovered agentId

@[simp] theorem cancelScheduledFlush_fields (queue : ReducerQueue) :
    queue.cancelScheduledFlush.pendingByAgentId = queue.pendingByAgentId ∧
      queue.cancelScheduledFlush.handed = queue.handed ∧
      queue.cancelScheduledFlush.store = queue.store ∧
      queue.cancelScheduledFlush.recovered = queue.recovered := by
  unfold cancelScheduledFlush
  split
  · exact ⟨rfl, rfl, rfl, rfl⟩
  · exact ⟨rfl, rfl, rfl, rfl⟩

/-- Taking the events of an agent moves them from the waiting to the handed over. -/
theorem takePending_spec (queue : ReducerQueue) (agentId : String)
    (events : List AgentStreamReducerEvent) :
    (queue.takePending agentId events).pendingByAgentId = queue.pendingByAgentId.delete agentId ∧
      (queue.takePending agentId events).handed =
        Function.update queue.handed agentId (queue.handed agentId ++ [events]) ∧
      (queue.takePending agentId events).store = queue.store ∧
      (queue.takePending agentId events).recovered = queue.recovered := by
  unfold takePending
  dsimp only
  split
  · simp
  · exact ⟨rfl, rfl, rfl, rfl⟩

/-- A batch of all that an agent has waiting, which touches no other agent. -/
structure Flushed (parse : MarkdownParser) (agentId : String) (queue queue' : ReducerQueue) :
    Prop where
  pending : ∀ other, queue'.pending other = if other = agentId then [] else queue.pending other
  processed : ∀ other, queue'.processed other =
    if other = agentId then queue.processed agentId ++ queue.pending agentId
    else queue.processed other
  store : ∀ other, queue'.store other =
    if other = agentId then ((queue.store agentId).batch parse (queue.pending agentId)).1
    else queue.store other
  recovered : ∀ other, queue'.recovered other =
    if other = agentId then
      queue.recovered agentId ++ ((queue.store agentId).batch parse (queue.pending agentId)).2
    else queue.recovered other

theorem Flushed.nothing {agentId : String} (h : queue.pending agentId = []) :
    Flushed parse agentId queue queue where
  pending other := by
    by_cases hother : other = agentId
    · rw [if_pos hother, hother, h]
    · rw [if_neg hother]
  processed other := by
    by_cases hother : other = agentId
    · rw [if_pos hother, hother, h, append_nil]
    · rw [if_neg hother]
  store other := by
    by_cases hother : other = agentId
    · rw [if_pos hother, hother, h, batch_nil]
    · rw [if_neg hother]
  recovered other := by
    by_cases hother : other = agentId
    · rw [if_pos hother, hother, h, batch_nil, append_nil]
    · rw [if_neg hother]

/-- The queue without the events that are handed over. -/
theorem takePending_reads {agentId : String} {events : List AgentStreamReducerEvent}
    (h : queue.pending agentId = events) (other : String) :
    (queue.takePending agentId events).pending other =
        (if other = agentId then [] else queue.pending other) ∧
      (queue.takePending agentId events).processed other =
        if other = agentId then queue.processed agentId ++ queue.pending agentId
        else queue.processed other := by
  obtain ⟨hpending, hhanded, _, _⟩ := takePending_spec queue agentId events
  constructor
  · unfold pending
    rw [hpending, OrderedMap.get_delete]
    by_cases hother : other = agentId
    · rw [if_pos hother, if_pos hother]
      rfl
    · rw [if_neg hother, if_neg hother]
  · unfold processed
    rw [hhanded]
    by_cases hother : other = agentId
    · rw [if_pos hother, hother, Function.update_self, flatten_append, h]
      simp
    · rw [if_neg hother, Function.update_of_ne hother]

theorem flushed_flushAgent (parse : MarkdownParser) (queue : ReducerQueue) (agentId : String) :
    Flushed parse agentId queue (settled (queue.flushAgent parse agentId)) := by
  unfold flushAgent
  split
  · rename_i hget
    apply Flushed.nothing
    simp [pending, hget]
  · rename_i hget
    apply Flushed.nothing
    simp [pending, hget]
  · rename_i events _ hget
    have hpending : queue.pending agentId = events := by simp [pending, hget]
    have hreads := takePending_reads hpending
    obtain ⟨_, _, hstore, hrecovered⟩ := takePending_spec queue agentId events
    dsimp only
    cases hresult : processAgentStreamEvents parse events
        ((queue.takePending agentId events).store agentId).snapshot with
    | error message =>
      -- the reducer threw: the events are gone, and nothing is committed
      have hbatch : (queue.store agentId).batch parse events = (queue.store agentId, []) := by
        rw [hstore] at hresult
        rw [batch, hresult]
      refine ⟨fun other => (hreads other).1, fun other => (hreads other).2, ?_, ?_⟩
      · intro other
        rw [hpending, hbatch, settled, hstore]
        by_cases hother : other = agentId
        · rw [if_pos hother, hother]
        · rw [if_neg hother]
      · intro other
        rw [hpending, hbatch, settled, hrecovered]
        by_cases hother : other = agentId
        · rw [if_pos hother, hother, append_nil]
        · rw [if_neg hother]
    | ok result =>
      have hbatch : (queue.store agentId).batch parse events =
          ((queue.store agentId).commit result events, result.sideEffects) := by
        rw [hstore] at hresult
        rw [batch, hresult]
      refine ⟨fun other => (hreads other).1, fun other => (hreads other).2, ?_, ?_⟩
      · intro other
        rw [hpending, hbatch, settled, committed, hstore]
        dsimp only
        by_cases hother : other = agentId
        · rw [if_pos hother, hother, Function.update_self]
        · rw [if_neg hother, Function.update_of_ne hother]
      · intro other
        rw [hpending, hbatch, settled, committed, hrecovered]
        dsimp only
        by_cases hother : other = agentId
        · rw [if_pos hother, hother, Function.update_self]
        · rw [if_neg hother, Function.update_of_ne hother]

section

variable (h : Batched parse initial received queue)
include h

/-- A clean batch keeps the store where the events one by one bring it. -/
theorem Batched.flushed {agentId : String} {queue' : ReducerQueue}
    (hflushed : Flushed parse agentId queue queue')
    (hclean : CleanBatch parse (queue.store agentId) (queue.pending agentId)) :
    Batched parse initial received queue' := by
  have hbatch := batch_eq_oneByOne hclean
  refine ⟨?_, ?_, ?_⟩
  · intro other
    rw [hflushed.pending, hflushed.processed, ← h.inOrder other]
    by_cases hother : other = agentId
    · rw [if_pos hother, if_pos hother, hother, append_nil]
    · rw [if_neg hother, if_neg hother]
  · intro other
    rw [hflushed.store, hflushed.processed]
    by_cases hother : other = agentId
    · rw [if_pos hother, if_pos hother, hother, hbatch, oneByOne_append, ← h.store agentId]
    · rw [if_neg hother, if_neg hother]
      exact h.store other
  · intro other
    rw [hflushed.recovered, hflushed.processed]
    by_cases hother : other = agentId
    · rw [if_pos hother, if_pos hother, hother, hbatch, oneByOne_append, ← h.store agentId,
        ← h.recovered agentId]
    · rw [if_neg hother, if_neg hother]
      exact h.recovered other

omit h in
/-- The agents are flushed one after another, until one throws. -/
theorem Batched.foldlM_flushAgent (ids : List String) :
    ∀ {queue : ReducerQueue}, ids.Nodup → Batched parse initial received queue →
      (∀ agentId ∈ ids, CleanBatch parse (queue.store agentId) (queue.pending agentId)) →
      Batched parse initial received
        (settled (ids.foldlM (flushAgent parse) queue)) := by
  induction ids with
  | nil =>
    intro queue _ h _
    exact h
  | cons agentId ids ih =>
    intro queue hnodup h hclean
    obtain ⟨hfresh, hrest⟩ := nodup_cons.mp hnodup
    have hflushed := flushed_flushAgent parse queue agentId
    have hbatched := h.flushed hflushed (hclean agentId mem_cons_self)
    rw [foldlM_cons]
    cases hresult : queue.flushAgent parse agentId with
    | error stopped =>
      rw [hresult] at hbatched
      exact hbatched
    | ok next =>
      rw [hresult] at hbatched hflushed
      apply ih hrest hbatched
      intro other hother
      have hne : other ≠ agentId := fun heq => hfresh (heq ▸ hother)
      have hstore := hflushed.store other
      have hpending := hflushed.pending other
      rw [if_neg hne] at hstore hpending
      rw [hstore, hpending]
      exact hclean other (mem_cons_of_mem _ hother)

theorem Batched.flush (hclean : ∀ agentId ∈ queue.pendingByAgentId.keys,
      CleanBatch parse (queue.store agentId) (queue.pending agentId)) :
    Batched parse initial received (settled (queue.flush parse)) :=
  h.foldlM_flushAgent _ queue.pendingByAgentId.nodup_keys hclean

theorem Batched.enqueue (agentId : String) (e : AgentStreamReducerEvent) :
    Batched parse initial (fun id => received id ++ if agentId = id then [e] else [])
      (queue.enqueue agentId e) := by
  have hfields : (queue.enqueue agentId e).handed = queue.handed ∧
      (queue.enqueue agentId e).store = queue.store ∧
      (queue.enqueue agentId e).recovered = queue.recovered ∧
      (queue.enqueue agentId e).pendingByAgentId =
        queue.pendingByAgentId.set agentId (queue.pending agentId ++ [e]) := by
    unfold ReducerQueue.enqueue scheduleFlush
    dsimp only
    split
    · exact ⟨rfl, rfl, rfl, rfl⟩
    · exact ⟨rfl, rfl, rfl, rfl⟩
  obtain ⟨hhanded, hstore, hrecovered, hpending⟩ := hfields
  refine ⟨?_, ?_, ?_⟩
  · intro id
    have hwaits : (queue.enqueue agentId e).pending id =
        queue.pending id ++ if agentId = id then [e] else [] := by
      rw [pending, hpending, OrderedMap.get_set]
      by_cases hid : agentId = id
      · rw [if_pos hid.symm, if_pos hid, hid]
        rfl
      · rw [if_neg (Ne.symm hid), if_neg hid, append_nil]
        rfl
    rw [hwaits, processed, hhanded, ← append_assoc]
    exact congrArg (· ++ _) (h.inOrder id)
  · intro id
    rw [hstore, processed, hhanded]
    exact h.store id
  · intro id
    rw [hrecovered, processed, hhanded]
    exact h.recovered id

/-- One operation on the queue. -/
theorem Batched.step {op : QueueOp} (hclean : CleanOp parse queue op) :
    Batched parse initial (fun agentId => received agentId ++ enqueued agentId [op])
      (queue.step parse op) := by
  have hsame (queue' : ReducerQueue) (h' : Batched parse initial received queue') :
      Batched parse initial (fun agentId => received agentId ++ []) queue' := by
    simpa using h'
  cases op with
  | enqueue agentId e =>
    have henqueued (id : String) :
        enqueued id [.enqueue agentId e] = if agentId = id then [e] else [] := by
      by_cases hid : agentId = id
      · simp [enqueued, hid]
      · simp [enqueued, hid]
    simp only [henqueued]
    exact h.enqueue agentId e
  | flush => exact hsame _ (h.flush hclean)
  | flushAgent agentId =>
    exact hsame _ (h.flushed (flushed_flushAgent parse queue agentId)
      (hclean agentId (mem_singleton_self _)))
  | timer id =>
    apply hsame
    unfold ReducerQueue.step timer
    unfold CleanOp QueueOp.flushed at hclean
    dsimp only
    by_cases hscheduled : id ∈ queue.scheduledFlushes
    · rw [if_pos hscheduled]
      simp only [if_pos hscheduled] at hclean
      apply Batched.flush
      · exact h.congr (fun _ => rfl) rfl rfl rfl
      · exact hclean
    · rw [if_neg hscheduled]
      exact h

end

theorem Batched.run (ops : List QueueOp) :
    ∀ {received : String → List AgentStreamReducerEvent} {queue : ReducerQueue},
      Batched parse initial received queue → CleanRun parse queue ops →
      Batched parse initial (fun agentId => received agentId ++ enqueued agentId ops)
        (queue.run parse ops) := by
  induction ops with
  | nil =>
    intro received queue h _
    simpa [enqueued, ReducerQueue.run] using h
  | cons op ops ih =>
    intro received queue h hclean
    have hrest := ih (h.step hclean.1) hclean.2
    have happend (agentId : String) : received agentId ++ enqueued agentId (op :: ops) =
        (received agentId ++ enqueued agentId [op]) ++ enqueued agentId ops := by
      rw [append_assoc, enqueued, enqueued, enqueued, ← filterMap_append,
        singleton_append]
    simp only [happend]
    exact hrest

end Batched

/-- An initialized agent that has loaded the seqs 1 to 4. -/
def loadedAgent : AgentTimelineState where
  tail := []
  head := []
  cursor := some { epoch := "e", startSeq := 1, endSeq := 4, retainedRanges := [] }
  synced := true
  newerAvailable := false

/-- Two agents that share a timer, a flush of one of them in between, and a gap twice. -/
def sharedTimerOps : List QueueOp :=
  [.enqueue "a" (liveAt "e" 5), .enqueue "b" (liveAt "e" 5), .enqueue "a" (liveAt "e" 6),
    .flushAgent "a", .enqueue "a" (liveAt "e" 9), .enqueue "a" (liveAt "e" 9), .timer 1]

/-- A user message without an identity, on which the reducer throws. -/
def namelessAt (seq : ℤ) : AgentStreamReducerEvent where
  event := .timeline "codex" (.userMessage "hi" (some "") none) none
  seq := some seq
  epoch := some "e"
  timestamp := 0

end Orqara.Session
