import Orqara.Library.Ranges
import Orqara.Stream.ApplyStreamEvent
import Orqara.Timeline.Projection

/-!
# The app's timeline cursor

How far the app has loaded an agent's timeline, and what the pages of the daemon
and the live events of a batch do to it. The transcript that a page changes is
left out: none of the decisions below reads it.
-/

namespace Orqara.Session

open Orqara.Timeline Orqara.Stream

structure TimelineLoadedRange where
  startSeq : ℤ
  endSeq : ℤ
  hasOlder : Option Bool
  deriving DecidableEq, Repr

/-- The contiguous range that live events extend, and the ranges loaded apart from it. -/
structure TimelineCursor where
  epoch : String
  startSeq : ℤ
  endSeq : ℤ
  retainedRanges : List TimelineLoadedRange
  deriving DecidableEq, Repr

structure CatchUpCursor where
  epoch : String
  endSeq : ℤ
  deriving DecidableEq, Repr

inductive TimelineReducerSideEffect
  | catchUp (cursor : CatchUpCursor)
  | flushPendingUpdates
  deriving DecidableEq, Repr

/-! ## Coverage -/

/-- `left.startSeq - right.startSeq || left.endSeq - right.endSeq` is not positive. -/
def TimelineLoadedRange.before (left right : TimelineLoadedRange) : Prop :=
  left.startSeq < right.startSeq ∨
    left.startSeq = right.startSeq ∧ left.endSeq ≤ right.endSeq

instance : DecidableRel TimelineLoadedRange.before := fun _ _ =>
  inferInstanceAs (Decidable (_ ∨ _))

/-- `previous.endSeq = Math.max(previous.endSeq, range.endSeq)` -/
def joinRange (previous range : TimelineLoadedRange) : TimelineLoadedRange :=
  { previous with endSeq := max previous.endSeq range.endSeq }

def TimelineCursor.contiguous (cursor : TimelineCursor) : TimelineLoadedRange where
  startSeq := cursor.startSeq
  endSeq := cursor.endSeq
  hasOlder := none

/-- All ranges with an added one, sorted and merged. -/
def mergedRanges (current : TimelineCursor) (added : TimelineLoadedRange) :
    List TimelineLoadedRange :=
  Ranges.mergeSorted TimelineLoadedRange.startSeq TimelineLoadedRange.endSeq joinRange
    ((current.contiguous :: current.retainedRanges ++ [added]).insertionSort
      TimelineLoadedRange.before)

def mergeTimelineCoverage (current : TimelineCursor) (added : TimelineLoadedRange) :
    TimelineCursor :=
  let merged := mergedRanges current added
  match merged.findIdx? fun range =>
      range.startSeq ≤ current.endSeq && current.endSeq ≤ range.endSeq with
  | none => current
  | some contiguousIndex =>
    match merged[contiguousIndex]? with
    | none => current
    | some contiguous =>
      { epoch := current.epoch, startSeq := contiguous.startSeq, endSeq := contiguous.endSeq
        retainedRanges := merged.eraseIdx contiguousIndex }

/-! ## Pages -/

structure TimelineResponseEntry where
  seqStart : ℤ
  seqEnd : ℤ
  deriving DecidableEq, Repr

/-- A page, its cursors as the seqs they hold. -/
structure TimelinePayload where
  direction : TimelineLimitDirection
  projection : TimelineProjectionMode
  reset : Bool
  epoch : String
  windowMaxSeq : ℤ
  startCursor : Option ℤ
  endCursor : Option ℤ
  entries : List TimelineResponseEntry
  error : Option String
  hasNewer : Bool
  hasOlder : Bool
  mergeWindow : Bool

inductive InitRequestDirection
  | tail | after
  deriving DecidableEq, Repr

structure ProcessTimelineResponseInput where
  payload : TimelinePayload
  currentCursor : Option TimelineCursor
  isInitializing : Bool
  hasActiveInitDeferred : Bool
  initRequestDirection : InitRequestDirection

inductive OlderTimeline
  | available | none | unchanged
  deriving DecidableEq, Repr

inductive InitResolution
  | resolve | reject
  deriving DecidableEq, Repr

/-- `cursor` is `none` for `null` and undefined alike. -/
structure TimelinePathResult where
  cursor : Option TimelineCursor
  cursorChanged : Bool
  older : OlderTimeline
  sideEffects : List TimelineReducerSideEffect

structure ProcessTimelineResponseOutput extends TimelinePathResult where
  discarded : Bool
  initResolution : Option InitResolution
  clearInitializing : Bool
  error : Option String

structure BootstrapPolicy where
  replace : Bool
  catchUpCursor : Option CatchUpCursor

def deriveBootstrapTailTimelinePolicy (payload : TimelinePayload)
    (isInitializing hasActiveInitDeferred : Bool) : BootstrapPolicy :=
  if payload.reset then { replace := true, catchUpCursor := none }
  else if payload.direction = .tail ∧ isInitializing ∧ hasActiveInitDeferred then
    { replace := true
      catchUpCursor := payload.endCursor.map fun endSeq => { epoch := payload.epoch, endSeq } }
  else { replace := false, catchUpCursor := none }

inductive ResumeTailPolicy
  | notResume | discard | append | replace
  deriving DecidableEq, Repr

def deriveResumeTailPolicy (payload : TimelinePayload) (currentCursor : Option TimelineCursor)
    (bootstrapReplace : Bool) : ResumeTailPolicy :=
  match currentCursor with
  | none => .notResume
  | some cursor =>
    if payload.direction ≠ .tail ∨ payload.reset ∨ bootstrapReplace then .notResume
    else if cursor.epoch ≠ payload.epoch then .replace
    else if payload.windowMaxSeq = cursor.endSeq then .discard
    else if payload.windowMaxSeq < cursor.endSeq then .replace
    else if payload.startCursor.any (· ≤ cursor.endSeq + 1) then .append
    else .replace

def availability (hasOlder : Bool) : OlderTimeline := if hasOlder then .available else .none

/-- The range of a page that has both cursors. -/
def TimelinePayload.range (payload : TimelinePayload) : Option TimelineLoadedRange := do
  let startSeq ← payload.startCursor
  let endSeq ← payload.endCursor
  return { startSeq, endSeq, hasOlder := some payload.hasOlder }

/-- A result that leaves the cursor. -/
def TimelinePathResult.unchanged (currentCursor : Option TimelineCursor) : TimelinePathResult where
  cursor := currentCursor
  cursorChanged := false
  older := .unchanged
  sideEffects := []

def earliestLoadedSeq (cursor : TimelineCursor) : ℤ :=
  (cursor.retainedRanges.map (·.startSeq)).foldl min cursor.startSeq

def mergeTimelineWindow (payload : TimelinePayload) (currentCursor : Option TimelineCursor) :
    TimelinePathResult :=
  match payload.range, currentCursor.filter (·.epoch = payload.epoch) with
  | some page, some current =>
    let cursor := mergeTimelineCoverage current page
    { cursor := some cursor
      cursorChanged := decide (current ≠ cursor)
      older :=
        if page.startSeq ≤ earliestLoadedSeq current then availability payload.hasOlder
        else .unchanged
      sideEffects := [] }
  | _, _ => TimelinePathResult.unchanged currentCursor

def applyTimelineReplacePath (payload : TimelinePayload) (catchUpCursor : Option CatchUpCursor) :
    TimelinePathResult where
  cursor := payload.range.map fun page =>
    { epoch := payload.epoch, startSeq := page.startSeq, endSeq := page.endSeq
      retainedRanges := [] }
  cursorChanged := true
  older := availability payload.hasOlder
  sideEffects := catchUpCursor.toList.map .catchUp

/-- The range a page is taken to have: its cursors, or else its entries. -/
def responseRange (payload : TimelinePayload) (entries : List TimelineResponseEntry) :
    Option TimelineLoadedRange := do
  let startSeq ← payload.startCursor <|> entries.head?.map (·.seqStart)
  let endSeq ← payload.endCursor <|> entries.getLast?.map (·.seqEnd)
  return { startSeq, endSeq, hasOlder := some payload.hasOlder }

structure IncrementalAcceptResult where
  acceptedUnits : List TimelineResponseEntry
  cursor : Option TimelineCursor
  gapCursor : Option CatchUpCursor

def TimelineCursor.position (cursor : TimelineCursor) : CatchUpCursor where
  epoch := cursor.epoch
  endSeq := cursor.endSeq

def acceptIncrementalTimelineUnits (timelineUnits : List TimelineResponseEntry)
    (payload : TimelinePayload) (currentCursor : Option TimelineCursor) :
    IncrementalAcceptResult :=
  let rejected : IncrementalAcceptResult :=
    { acceptedUnits := [], cursor := currentCursor, gapCursor := none }
  match responseRange payload timelineUnits with
  | none => rejected
  | some page =>
    match currentCursor with
    | none =>
      { acceptedUnits := timelineUnits
        cursor := some { epoch := payload.epoch, startSeq := page.startSeq, endSeq := page.endSeq
                         retainedRanges := [] }
        gapCursor := none }
    | some cursor =>
      if cursor.epoch ≠ payload.epoch then rejected
      else if (payload.startCursor = none ∨ payload.endCursor = none) ∧
          page.startSeq ≤ cursor.endSeq ∧ cursor.endSeq < page.endSeq then
        { rejected with gapCursor := some cursor.position }
      else if page.endSeq ≤ cursor.endSeq then rejected
      else if cursor.endSeq + 1 < page.startSeq then
        { rejected with gapCursor := some cursor.position }
      else
        { acceptedUnits := timelineUnits, cursor := some { cursor with endSeq := page.endSeq }
          gapCursor := none }

def acceptOlderTimelineUnits (timelineUnits : List TimelineResponseEntry)
    (payload : TimelinePayload) (currentCursor : Option TimelineCursor) :
    IncrementalAcceptResult :=
  let rejected : IncrementalAcceptResult :=
    { acceptedUnits := [], cursor := currentCursor, gapCursor := none }
  match currentCursor.filter (·.epoch = payload.epoch), responseRange payload timelineUnits with
  | some cursor, some page =>
    if page.endSeq ≠ cursor.startSeq - 1 then rejected
    else
      { acceptedUnits := timelineUnits, cursor := some (mergeTimelineCoverage cursor page)
        gapCursor := none }
  | _, _ => rejected

def selectEntriesOwnedByTimelinePage (payload : TimelinePayload) : List TimelineResponseEntry :=
  if payload.direction ≠ .before ∨ payload.projection ≠ .projected then payload.entries
  else
    match payload.range with
    | none => payload.entries
    | some page => payload.entries.filter fun entry =>
        page.startSeq ≤ entry.seqStart ∧ entry.seqStart ≤ page.endSeq

def resolveOlderTimelineAvailability (payload : TimelinePayload)
    (cursor currentCursor : Option TimelineCursor) : OlderTimeline :=
  match cursor, currentCursor with
  | some cursor, some current =>
    if payload.direction ≠ .before ∨ cursor.startSeq = current.startSeq then .unchanged
    else
      let connectedRetainedRange :=
        current.retainedRanges.find? (·.startSeq = cursor.startSeq)
      availability ((connectedRetainedRange.bind (·.hasOlder)).getD payload.hasOlder)
  | _, _ => .unchanged

def applyTimelineIncrementalPath (timelineUnits : List TimelineResponseEntry)
    (payload : TimelinePayload) (currentCursor : Option TimelineCursor) : TimelinePathResult :=
  if timelineUnits = [] ∧ payload.direction ≠ .before then
    TimelinePathResult.unchanged currentCursor
  else
    let accepted :=
      if payload.direction = .before then
        acceptOlderTimelineUnits timelineUnits payload currentCursor
      else acceptIncrementalTimelineUnits timelineUnits payload currentCursor
    let changed := decide (accepted.cursor ≠ none ∧ accepted.cursor ≠ currentCursor)
    { cursor := if changed then accepted.cursor else currentCursor
      cursorChanged := changed
      older := resolveOlderTimelineAvailability payload accepted.cursor currentCursor
      sideEffects := accepted.gapCursor.toList.map .catchUp }

def InitRequestDirection.direction : InitRequestDirection → TimelineLimitDirection
  | .tail => .tail
  | .after => .after

def shouldResolveTimelineInit (input : ProcessTimelineResponseInput) : Bool :=
  if !input.hasActiveInitDeferred || !input.isInitializing then false
  else if input.payload.reset then true
  else if input.payload.direction = .after ∧ input.payload.hasNewer then false
  else input.payload.direction = input.initRequestDirection.direction

/-- The path that a response without an error takes. -/
def timelineResponsePath (input : ProcessTimelineResponseInput) :
    ResumeTailPolicy × TimelinePathResult :=
  let payload := input.payload
  let timelineUnits := selectEntriesOwnedByTimelinePage payload
  let bootstrap := deriveBootstrapTailTimelinePolicy payload input.isInitializing
    input.hasActiveInitDeferred
  let resume := deriveResumeTailPolicy payload input.currentCursor bootstrap.replace
  (resume,
    if resume = .discard then TimelinePathResult.unchanged input.currentCursor
    else if payload.mergeWindow then mergeTimelineWindow payload input.currentCursor
    else if bootstrap.replace ∨ resume = .replace then
      applyTimelineReplacePath payload
        (if resume = .replace then none else bootstrap.catchUpCursor)
    else
      applyTimelineIncrementalPath
        (match resume, input.currentCursor with
          | .append, some cursor => timelineUnits.filter (cursor.endSeq < ·.seqEnd)
          | _, _ => timelineUnits)
        payload input.currentCursor)

def processTimelineResponse (input : ProcessTimelineResponseInput) :
    ProcessTimelineResponseOutput :=
  if truthy input.payload.error then
    { TimelinePathResult.unchanged input.currentCursor with
      discarded := false
      initResolution := if input.hasActiveInitDeferred then some .reject else none
      clearInitializing := input.isInitializing
      error := input.payload.error }
  else
    let (resume, result) := timelineResponsePath input
    let shouldResolveDeferredInit := shouldResolveTimelineInit input
    let timelineResponseComplete := input.payload.direction ≠ .after ∨ !input.payload.hasNewer
    { result with
      sideEffects := result.sideEffects ++ [.flushPendingUpdates]
      discarded := resume == .discard
      initResolution := if shouldResolveDeferredInit then some .resolve else none
      clearInitializing :=
        (shouldResolveDeferredInit ||
          (input.isInitializing && !input.hasActiveInitDeferred)) && timelineResponseComplete
      error := none }

/-- The cursor that is stored after a response. -/
def storedCursor (input : ProcessTimelineResponseInput) : Option TimelineCursor :=
  let output := processTimelineResponse input
  if output.cursorChanged then output.cursor else input.currentCursor

end Orqara.Session
