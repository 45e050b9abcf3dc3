import Orqara.Session.CursorCoverage

/-!
# Coverage along runs

Any sequence of pages and batches of live events over one agent, from no cursor.
-/

namespace Orqara.Session

open Orqara.Timeline Orqara.Stream

/-- A call, whatever it is made with besides the stored cursor. -/
inductive SessionCall
  | response (input : ProcessTimelineResponseInput)
  | batch (parse : MarkdownParser) (events : List AgentStreamReducerEvent)
      (snapshot : AgentStreamReducerSnapshot)

/-- The stored cursor and the ranges accepted since the last replacement. -/
structure CoverageState where
  cursor : Option TimelineCursor
  ledger : List TimelineLoadedRange
  deriving DecidableEq

def CoverageState.empty : CoverageState where
  cursor := none
  ledger := []

/-- The cursor stored after a call. A batch that throws is not committed. -/
def SessionCall.stored (call : SessionCall) (cursor : Option TimelineCursor) :
    Option TimelineCursor :=
  match call with
  | .response input => storedCursor { input with currentCursor := cursor }
  | .batch parse events snapshot =>
    match processAgentStreamEvents parse events { snapshot with currentCursor := cursor } with
    | .ok output => if output.cursorChanged then output.cursor else cursor
    | .error _ => cursor

/-- What a call accepts. -/
def SessionCall.effects (call : SessionCall) (cursor : Option TimelineCursor) :
    List CoverageEffect :=
  match call with
  | .response input => [pageEffect { input with currentCursor := cursor }]
  | .batch parse events snapshot =>
    match processAgentStreamEvents parse events { snapshot with currentCursor := cursor } with
    | .ok _ =>
      if snapshot.isDetached then []
      else eventEffects snapshot.hasAuthoritativeBaseline cursor events
    | .error _ => []

def CoverageState.call (state : CoverageState) (call : SessionCall) : CoverageState where
  cursor := call.stored state.cursor
  ledger := (call.effects state.cursor).foldl CoverageEffect.record state.ledger

def CoverageState.run (state : CoverageState) (calls : List SessionCall) : CoverageState :=
  calls.foldl CoverageState.call state

/-- Every extension is clean when it is made. -/
def CleanEffects : Option TimelineCursor → List CoverageEffect → Prop
  | _, [] => True
  | cursor, effect :: effects => effect.Clean cursor ∧ CleanEffects (effect.apply cursor) effects

instance decidableCleanEffects :
    ∀ (cursor : Option TimelineCursor) (effects : List CoverageEffect),
      Decidable (CleanEffects cursor effects)
  | _, [] => isTrue trivial
  | cursor, effect :: effects =>
    have := decidableCleanEffects (effect.apply cursor) effects
    inferInstanceAs (Decidable (_ ∧ _))

/-- The condition along a run. -/
def CleanCalls : CoverageState → List SessionCall → Prop
  | _, [] => True
  | state, call :: calls =>
    CleanEffects state.cursor (call.effects state.cursor) ∧ CleanCalls (state.call call) calls

instance decidableCleanCalls :
    ∀ (state : CoverageState) (calls : List SessionCall), Decidable (CleanCalls state calls)
  | _, [] => isTrue trivial
  | state, call :: calls =>
    have := decidableCleanCalls (state.call call) calls
    inferInstanceAs (Decidable (_ ∧ _))

/-- The pages of a call start before they end. -/
def SessionCall.Ordered : SessionCall → Prop
  | .response input => input.payload.Ordered
  | .batch .. => True

/-! ## Steps -/

/-- A batch that does not throw moves the cursor by the effects of its events. -/
theorem foldlM_processNextEvent_cursor {parse : MarkdownParser} {hasAuthoritativeBaseline : Bool}
    (events : List AgentStreamReducerEvent) :
    ∀ {state output : ProcessAgentStreamEventOutput},
      events.foldlM (processNextEvent parse hasAuthoritativeBaseline) state = .ok output →
      output.cursor = (eventEffects hasAuthoritativeBaseline state.cursor events).foldl
          CoverageEffect.apply state.cursor ∧
        (output.cursorChanged = false →
          state.cursorChanged = false ∧ output.cursor = state.cursor) := by
  induction events with
  | nil =>
    intro state output h
    obtain rfl := Except.ok.inj h
    exact ⟨rfl, fun h => ⟨h, rfl⟩⟩
  | cons e events ih =>
    intro state output h
    rw [List.foldlM_cons] at h
    obtain ⟨next, hnext, hrest⟩ := bind_eq_ok.mp h
    obtain ⟨hcursor, hchanged, _⟩ := processNextEvent_eq_ok hnext
    obtain ⟨houtput, hsame⟩ := ih hrest
    constructor
    · rw [houtput, hcursor, stored_gate]
      rfl
    · intro hfalse
      obtain ⟨hnextFalse, heq⟩ := hsame hfalse
      rw [hnextFalse, eq_comm, Bool.or_eq_false_iff] at hchanged
      refine ⟨hchanged.1, ?_⟩
      rw [heq, hcursor, TimelineSequencingGateResult.stored, hchanged.2]
      rfl

/-- The cursor stored after a call is the one before under the call's effects. -/
theorem SessionCall.stored_eq (call : SessionCall) (cursor : Option TimelineCursor) :
    call.stored cursor = (call.effects cursor).foldl CoverageEffect.apply cursor := by
  cases call with
  | response input => exact storedCursor_eq { input with currentCursor := cursor }
  | batch parse events snapshot =>
    cases hrun : processAgentStreamEvents parse events
        { snapshot with currentCursor := cursor } with
    | error message => simp only [SessionCall.stored, SessionCall.effects, hrun, List.foldl_nil]
    | ok output =>
      simp only [SessionCall.stored, SessionCall.effects, hrun]
      unfold processAgentStreamEvents at hrun
      cases hdetached : snapshot.isDetached with
      | true =>
        rw [hdetached] at hrun
        obtain rfl := Except.ok.inj hrun
        rfl
      | false =>
        rw [hdetached] at hrun
        obtain ⟨hcursor, hsame⟩ := foldlM_processNextEvent_cursor events hrun
        split
        · exact hcursor
        · next hunchanged =>
          rw [Bool.not_eq_true] at hunchanged
          exact (hsame hunchanged).2.symm.trans hcursor

/-- Effects that the code has had, each on the cursor before it. -/
def ValidEffects : Option TimelineCursor → List CoverageEffect → Prop
  | _, [] => True
  | cursor, effect :: effects => effect.Valid cursor ∧ ValidEffects (effect.apply cursor) effects

theorem validEffects_eventEffects (hasAuthoritativeBaseline : Bool)
    (events : List AgentStreamReducerEvent) :
    ∀ cursor, ValidEffects cursor (eventEffects hasAuthoritativeBaseline cursor events) := by
  induction events with
  | nil => exact fun cursor => trivial
  | cons e events ih =>
    intro cursor
    exact ⟨eventEffect_valid e cursor hasAuthoritativeBaseline, ih _⟩

theorem SessionCall.validEffects {call : SessionCall} (h : call.Ordered)
    (cursor : Option TimelineCursor) : ValidEffects cursor (call.effects cursor) := by
  cases call with
  | response input =>
    have hordered : ({ input with currentCursor := cursor } : ProcessTimelineResponseInput).payload.Ordered := h
    exact ⟨pageEffect_valid hordered, trivial⟩
  | batch parse events snapshot =>
    unfold SessionCall.effects
    simp only []
    split
    · split
      · trivial
      · exact validEffects_eventEffects _ events cursor
    · trivial

/-- Clean effects, one after the other. -/
theorem Represents.foldl (effects : List CoverageEffect) :
    ∀ {cursor : Option TimelineCursor} {ledger : List TimelineLoadedRange},
      Represents cursor ledger → ValidEffects cursor effects → CleanEffects cursor effects →
      Represents (effects.foldl CoverageEffect.apply cursor)
        (effects.foldl CoverageEffect.record ledger) := by
  induction effects with
  | nil => exact fun h _ _ => h
  | cons effect effects ih =>
    intro cursor ledger h hvalid hclean
    exact ih (h.apply hvalid.1 hclean.1) hvalid.2 hclean.2

theorem CoverageState.represents_call {state : CoverageState}
    (h : Represents state.cursor state.ledger) {call : SessionCall} (hordered : call.Ordered)
    (hclean : CleanEffects state.cursor (call.effects state.cursor)) :
    Represents (state.call call).cursor (state.call call).ledger := by
  have hrun := h.foldl (call.effects state.cursor) (SessionCall.validEffects hordered _) hclean
  rwa [← SessionCall.stored_eq] at hrun

theorem CoverageState.represents_run (calls : List SessionCall) :
    ∀ {state : CoverageState}, Represents state.cursor state.ledger →
      (∀ call ∈ calls, call.Ordered) → CleanCalls state calls →
      Represents (state.run calls).cursor (state.run calls).ledger := by
  induction calls with
  | nil => exact fun h _ _ => h
  | cons call calls ih =>
    intro state h hordered hclean
    exact ih (CoverageState.represents_call h (hordered call (by simp)) hclean.1)
      (fun call' hcall' => hordered call' (List.mem_cons_of_mem _ hcall')) hclean.2

/-- A page of an initialized app, with both cursors. -/
def pageFrom (direction : TimelineLimitDirection) (startSeq endSeq : ℤ) (mergeWindow : Bool) :
    SessionCall :=
  .response
    { payload :=
        { direction, projection := .projected, reset := false, epoch := "e", windowMaxSeq := 30
          startCursor := some startSeq, endCursor := some endSeq
          entries := [{ seqStart := startSeq, seqEnd := endSeq }]
          error := none, hasNewer := false, hasOlder := false, mergeWindow }
      currentCursor := none, isInitializing := false, hasActiveInitDeferred := false
      initRequestDirection := .tail }

/-- A window that is merged beside the newest pages. -/
def windowBeside : List SessionCall :=
  [pageFrom .tail 11 20 false, pageFrom .after 21 25 false, pageFrom .before 2 4 true,
    pageFrom .before 8 10 false]

theorem ordered_pageFrom {direction : TimelineLimitDirection} {startSeq endSeq : ℤ}
    {mergeWindow : Bool} (h : startSeq ≤ endSeq) :
    (pageFrom direction startSeq endSeq mergeWindow).Ordered := by
  intro page hpage
  obtain rfl := Option.some.inj hpage
  exact h

end Orqara.Session
