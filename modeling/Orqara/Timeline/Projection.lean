import Orqara.Timeline.Item

/-!
# The projected timeline

The daemon does not send its rows one by one: it collapses the updates of a
tool call or plugin item into one entry, joins consecutive assistant and
reasoning chunks, and serves pages of the entries that result.
-/

namespace Orqara.Timeline

structure TimelineSeqRange where
  startSeq : ℤ
  endSeq : ℤ
  deriving DecidableEq, Repr

inductive TimelineProjectionMode
  | canonical | projected
  deriving DecidableEq, Repr

inductive TimelineProjectionKind
  | assistantMerge | reasoningMerge | toolLifecycle | identity
  deriving DecidableEq, Repr

inductive TimelineLimitDirection
  | tail | before | after
  deriving DecidableEq, Repr

structure TimelineProjectionEntry where
  item : AgentTimelineItem
  turnId : Option String
  timestamp : String
  seqStart : ℤ
  seqEnd : ℤ
  sourceSeqRanges : List TimelineSeqRange
  collapsed : List TimelineProjectionKind
  deriving DecidableEq

/-- The source extends the last range object in place. The entries that share
that object have left the output by then, so a copy is the same. -/
def appendSeqToRanges (ranges : List TimelineSeqRange) (seq : ℤ) : List TimelineSeqRange :=
  match ranges.getLast? with
  | none => [⟨seq, seq⟩]
  | some last =>
    if seq ≤ last.endSeq + 1 then
      ranges.dropLast ++ [{ last with endSeq := max last.endSeq seq }]
    else
      ranges ++ [⟨seq, seq⟩]

/-- The values of `seq` in `for (seq = startSeq; seq <= endSeq; seq += 1)`. -/
def TimelineSeqRange.seqs (range : TimelineSeqRange) : List ℤ :=
  (List.range (range.endSeq + 1 - range.startSeq).toNat).map fun k : ℕ => range.startSeq + k

def mergeSeqRanges (existing incoming : List TimelineSeqRange) : List TimelineSeqRange :=
  incoming.foldl (fun merged range => range.seqs.foldl appendSeqToRanges merged) existing

/-! ## Collapsing updates of one item -/

def mergeToolCallDetail (existing incoming : ToolCallDetail) : ToolCallDetail :=
  if existing.type = .unknown ∧ incoming.type ≠ .unknown then incoming
  else if incoming.type = .unknown ∧ existing.type ≠ .unknown then existing
  else incoming

def mergeToolCallItems (existing incoming : ToolCallTimelineItem) : ToolCallTimelineItem where
  callId := incoming.callId
  name := incoming.name
  status := incoming.status
  error :=
    match incoming.status with
    | .failed => incoming.error
    | .completed | .canceled => some .null
    | .running => incoming.error <|> existing.error
  detail := mergeToolCallDetail existing.detail incoming.detail
  metadata :=
    if existing.metadata.isSome ∨ incoming.metadata.isSome then
      some (Record.spread (existing.metadata.getD []) (incoming.metadata.getD []))
    else none
  extra := Record.spread existing.extra incoming.extra

/-- An empty turn id is dropped, as the truthiness test of the source does. -/
def makeCanonicalEntries (rows : List AgentTimelineRow) : List TimelineProjectionEntry :=
  rows.map fun row =>
    { item := row.item
      turnId := row.turnId.filter (· ≠ "")
      timestamp := row.timestamp
      seqStart := row.seq
      seqEnd := row.seq
      sourceSeqRanges := [⟨row.seq, row.seq⟩]
      collapsed := [] }

/-- The collapse kinds of `existing` with `collapseKind`, which is added once. -/
def addCollapseKind (existing : List TimelineProjectionKind)
    (collapseKind : TimelineProjectionKind) : List TimelineProjectionKind :=
  if collapseKind ∈ existing then existing else existing ++ [collapseKind]

def mergeIdentityEntries (existing entry : TimelineProjectionEntry) :
    Option TimelineProjectionEntry :=
  match entry.item, existing.item with
  | .toolCall incoming, .toolCall current =>
    if existing.turnId ≠ entry.turnId then none
    else some { existing with
      item := .toolCall (mergeToolCallItems current incoming)
      timestamp := entry.timestamp
      seqEnd := max existing.seqEnd entry.seqEnd
      sourceSeqRanges := mergeSeqRanges existing.sourceSeqRanges entry.sourceSeqRanges
      collapsed := addCollapseKind existing.collapsed .toolLifecycle }
  | .plugin _, .plugin _ =>
    some { entry with
      seqStart := existing.seqStart
      sourceSeqRanges := mergeSeqRanges existing.sourceSeqRanges entry.sourceSeqRanges
      collapsed := addCollapseKind existing.collapsed .identity }
  | _, _ => none

/-- The two locals of the loop in `collapseByIdentity`. The newest binding of
an identity comes first. -/
structure CollapseState where
  output : List TimelineProjectionEntry
  indexByIdentity : List (String × ℕ)

def CollapseState.push (state : CollapseState) (identity : String)
    (entry : TimelineProjectionEntry) : CollapseState where
  output := state.output ++ [entry]
  indexByIdentity := (identity, state.output.length) :: state.indexByIdentity

def collapseStep (state : CollapseState) (entry : TimelineProjectionEntry) : CollapseState :=
  match timelineItemIdentity entry.item with
  | none => { state with output := state.output ++ [entry] }
  | some identity =>
    match state.indexByIdentity.lookup identity with
    | none => state.push identity entry
    | some existingIndex =>
      match state.output[existingIndex]?.bind (mergeIdentityEntries · entry) with
      | none => state.push identity entry
      | some merged => { state with output := state.output.set existingIndex merged }

def collapseByIdentity (entries : List TimelineProjectionEntry) : List TimelineProjectionEntry :=
  (entries.foldl collapseStep ⟨[], []⟩).output

/-! ## Joining consecutive chunks -/

/-- The test both chunk merges make before they look at the items. -/
def isNextChunk (previous entry : TimelineProjectionEntry) : Bool :=
  previous.seqEnd + 1 = entry.seqStart ∧ previous.turnId = entry.turnId

/-- The entry both chunk merges write over the last one of the output. -/
def joinChunk (previous entry : TimelineProjectionEntry) (item : AgentTimelineItem)
    (kind : TimelineProjectionKind) : TimelineProjectionEntry :=
  { previous with
    item := item
    timestamp := entry.timestamp
    seqEnd := entry.seqEnd
    sourceSeqRanges := mergeSeqRanges previous.sourceSeqRanges entry.sourceSeqRanges
    collapsed := (previous.collapsed ++ entry.collapsed ++ [kind]).eraseDups }

def joinReasoning (previous entry : TimelineProjectionEntry) : Option TimelineProjectionEntry :=
  match previous.item, entry.item with
  | .reasoning previousText, .reasoning entryText =>
    if isNextChunk previous entry then
      some (joinChunk previous entry (.reasoning (previousText ++ entryText)) .reasoningMerge)
    else none
  | _, _ => none

def joinAssistant (previous entry : TimelineProjectionEntry) : Option TimelineProjectionEntry :=
  match previous.item, entry.item with
  | .assistantMessage previousText previousId, .assistantMessage entryText entryId =>
    if isNextChunk previous entry then
      -- A chunk without a message id continues whatever message is open.
      if entryId.isSome ∧ previousId ≠ entryId then none
      else some (joinChunk previous entry
        (.assistantMessage (previousText ++ entryText) (previousId.filter (· ≠ "")))
        .assistantMerge)
    else none
  | _, _ => none

/-- One pass over the entries: `previous` is the last entry of the output, which
the next one either joins or follows. -/
def mergeChunksFrom
    (join : TimelineProjectionEntry → TimelineProjectionEntry → Option TimelineProjectionEntry) :
    TimelineProjectionEntry → List TimelineProjectionEntry → List TimelineProjectionEntry
  | previous, [] => [previous]
  | previous, entry :: entries =>
    match join previous entry with
    | some joined => mergeChunksFrom join joined entries
    | none => previous :: mergeChunksFrom join entry entries

def mergeChunks
    (join : TimelineProjectionEntry → TimelineProjectionEntry → Option TimelineProjectionEntry) :
    List TimelineProjectionEntry → List TimelineProjectionEntry
  | [] => []
  | entry :: entries => mergeChunksFrom join entry entries

def mergeReasoningChunks : List TimelineProjectionEntry → List TimelineProjectionEntry :=
  mergeChunks joinReasoning

def mergeAssistantChunks : List TimelineProjectionEntry → List TimelineProjectionEntry :=
  mergeChunks joinAssistant

def projectTimelineRows (rows : List AgentTimelineRow) (mode : TimelineProjectionMode) :
    List TimelineProjectionEntry :=
  match mode with
  | .canonical => makeCanonicalEntries rows
  | .projected =>
    mergeReasoningChunks (mergeAssistantChunks (collapseByIdentity (makeCanonicalEntries rows)))

/-! ## Selecting a page -/

/-- `Math.max(0, Math.floor(limit))`. -/
def floorLimit (limit : ℚ) : ℕ := ⌊limit⌋.toNat

structure TimelineBounds where
  minSeq : ℤ
  maxSeq : ℤ
  deriving DecidableEq, Repr

/-- The least `seqStart` and the greatest `seqEnd`; `none` stands for the
infinities that the source starts from. -/
def computeWindowBounds (entries : List TimelineProjectionEntry) : Option TimelineBounds :=
  entries.foldl
    (fun bounds entry =>
      match bounds with
      | none => some ⟨entry.seqStart, entry.seqEnd⟩
      | some bounds => some
        { minSeq := if entry.seqStart < bounds.minSeq then entry.seqStart else bounds.minSeq
          maxSeq := if bounds.maxSeq < entry.seqEnd then entry.seqEnd else bounds.maxSeq })
    none

/-- The entries whose span meets the window. -/
def overlappingEntries (projectedAll : List TimelineProjectionEntry)
    (bounds : Option TimelineBounds) : List TimelineProjectionEntry :=
  projectedAll.filter fun entry =>
    bounds.any fun bounds => entry.seqStart ≤ bounds.maxSeq ∧ bounds.minSeq ≤ entry.seqEnd

/-- The expansion loop of `selectTimelineWindowByProjectedLimit`, with the
number of iterations it may still make. -/
def expandWindow (projectedAll : List TimelineProjectionEntry) :
    ℕ → List TimelineProjectionEntry → Option TimelineBounds →
      List TimelineProjectionEntry × Option TimelineBounds
  | 0, expandedEntries, bounds => (expandedEntries, bounds)
  | iterations + 1, expandedEntries, bounds =>
    let overlapping := overlappingEntries projectedAll bounds
    let nextBounds := computeWindowBounds overlapping
    if overlapping.length = expandedEntries.length ∧ nextBounds = bounds then
      (overlapping, bounds)
    else
      expandWindow projectedAll iterations overlapping nextBounds

structure ProjectedWindowSelection where
  projectedEntries : List TimelineProjectionEntry
  selectedRows : List AgentTimelineRow
  minSeq : Option ℤ
  maxSeq : Option ℤ

def selectTimelineWindowByProjectedLimit (rows : List AgentTimelineRow)
    (direction : TimelineLimitDirection) (limit : ℚ) : ProjectedWindowSelection :=
  let limit := floorLimit limit
  let projectedAll := projectTimelineRows rows .projected
  if projectedAll.length = 0 then ⟨[], [], none, none⟩
  else
    let projectedEntries :=
      if limit = 0 ∨ projectedAll.length ≤ limit then projectedAll
      else if direction = .after then projectedAll.take limit
      else projectedAll.drop (projectedAll.length - limit)
    if projectedEntries.length = 0 then ⟨[], [], none, none⟩
    else
      let (expandedEntries, bounds) :=
        expandWindow projectedAll (projectedAll.length + 1) projectedEntries
          (computeWindowBounds projectedEntries)
      { projectedEntries := expandedEntries
        selectedRows := rows.filter fun row =>
          bounds.any fun bounds => bounds.minSeq ≤ row.seq ∧ row.seq ≤ bounds.maxSeq
        minSeq := bounds.map (·.minSeq)
        maxSeq := bounds.map (·.maxSeq) }

def getTimelineBounds (rows : List AgentTimelineRow) : Option TimelineBounds :=
  match rows.head?, rows.getLast? with
  | some first, some last => some ⟨first.seq, last.seq⟩
  | _, _ => none

/-- The first source seq of the entry that lies in `[startSeq, endSeq]`. -/
def firstSourceSeqInRange (entry : TimelineProjectionEntry) (startSeq endSeq : ℤ) : Option ℤ :=
  entry.sourceSeqRanges.findSome? fun range =>
    let firstSeq := max range.startSeq startSeq
    if firstSeq ≤ min range.endSeq endSeq then some firstSeq else none

structure ProjectedEntryCandidate where
  entry : TimelineProjectionEntry
  index : ℕ
  firstSourceSeq : ℤ

/-- The entries with a source seq in `[startSeq, maxSeq]`, with their display index. -/
def eligibleAfter (entries : List TimelineProjectionEntry) (startSeq maxSeq : ℤ) :
    List ProjectedEntryCandidate :=
  entries.zipIdx.filterMap fun (entry, index) =>
    (firstSourceSeqInRange entry startSeq maxSeq).map fun firstSourceSeq =>
      ⟨entry, index, firstSourceSeq⟩

def ProjectedEntryCandidate.bySource (left right : ProjectedEntryCandidate) : Prop :=
  left.firstSourceSeq < right.firstSourceSeq ∨
    left.firstSourceSeq = right.firstSourceSeq ∧ left.index ≤ right.index

instance : DecidableRel ProjectedEntryCandidate.bySource := fun _ _ =>
  inferInstanceAs (Decidable (_ ∨ _ ∧ _))

def ProjectedEntryCandidate.byIndex (left right : ProjectedEntryCandidate) : Prop :=
  left.index ≤ right.index

instance : DecidableRel ProjectedEntryCandidate.byIndex := fun _ _ =>
  inferInstanceAs (Decidable (_ ≤ _))

def TimelineSeqRange.byStart (left right : TimelineSeqRange) : Prop :=
  left.startSeq < right.startSeq ∨
    left.startSeq = right.startSeq ∧ left.endSeq ≤ right.endSeq

instance : DecidableRel TimelineSeqRange.byStart := fun _ _ =>
  inferInstanceAs (Decidable (_ ∨ _ ∧ _))

/-- The loop that moves the page cursor over rows covered without a gap.
`ranges` is `selectedRanges` from `rangeIndex` on. -/
def advanceCoveredRows (startSeq maxSeq : ℤ) :
    List AgentTimelineRow → ℤ → List TimelineSeqRange → ℤ
  | [], endSeq, _ => endSeq
  | row :: rows, endSeq, ranges =>
    if row.seq < startSeq then advanceCoveredRows startSeq maxSeq rows endSeq ranges
    else if maxSeq < row.seq ∨ row.seq ≠ endSeq + 1 then endSeq
    else
      let ranges := ranges.dropWhile fun range => range.endSeq < row.seq
      match ranges.head? with
      | none => endSeq
      | some range =>
        if row.seq < range.startSeq ∨ range.endSeq < row.seq then endSeq
        else advanceCoveredRows startSeq maxSeq rows row.seq ranges

def selectProjectedEntriesAfter (entries : List TimelineProjectionEntry)
    (rows : List AgentTimelineRow) (startSeq maxSeq : ℤ) (limit : ℕ) :
    List TimelineProjectionEntry × Option ℤ :=
  let eligible := (eligibleAfter entries startSeq maxSeq).insertionSort
    ProjectedEntryCandidate.bySource
  let selected := if limit = 0 then eligible else eligible.take limit
  let selectedEntries :=
    (selected.insertionSort ProjectedEntryCandidate.byIndex).map (·.entry)
  if selectedEntries.length = 0 then ([], none)
  else
    let selectedRanges :=
      (selectedEntries.flatMap (·.sourceSeqRanges)).insertionSort TimelineSeqRange.byStart
    let endSeq := advanceCoveredRows startSeq maxSeq rows (startSeq - 1) selectedRanges
    (selectedEntries, if startSeq ≤ endSeq then some endSeq else none)

structure SelectedBefore where
  entries : List TimelineProjectionEntry
  startSeq : Option ℤ
  hasOlder : Bool

/-- Older history follows display order: an entry is on the page its `seqStart`
falls on, wherever its last update lies. -/
def selectProjectedEntriesBefore (entries : List TimelineProjectionEntry) (endSeq : ℤ)
    (limit : ℕ) : SelectedBefore :=
  let eligible := entries.filter fun entry => entry.seqStart ≤ endSeq
  let selected :=
    if limit = 0 ∨ eligible.length ≤ limit then eligible
    else eligible.drop (eligible.length - limit)
  { entries := selected
    startSeq := selected.head?.map (·.seqStart)
    hasOlder := selected.length < eligible.length }

structure ProjectedTimelinePageSelection where
  entries : List TimelineProjectionEntry
  startSeq : Option ℤ
  endSeq : Option ℤ
  hasOlder : Bool
  hasNewer : Bool
  deriving DecidableEq

structure TimelinePageInput where
  rows : List AgentTimelineRow
  bounds : Option TimelineBounds
  direction : TimelineLimitDirection
  cursorSeq : Option ℤ
  limit : Option ℚ

def selectProjectedTimelinePage (input : TimelinePageInput) : ProjectedTimelinePageSelection :=
  let limit := (input.limit.map floorLimit).getD 0
  let projectedAll := projectTimelineRows input.rows .projected
  match input.bounds <|> getTimelineBounds input.rows with
  | none => ⟨[], none, none, false, false⟩
  | some bounds =>
    if projectedAll.length = 0 then
      match input.direction with
      | .after =>
        let cursorSeq := input.cursorSeq.getD (bounds.minSeq - 1)
        ⟨[], none, none, bounds.minSeq ≤ cursorSeq, cursorSeq < bounds.maxSeq⟩
      | .before =>
        let cursorSeq := input.cursorSeq.getD (bounds.maxSeq + 1)
        ⟨[], none, none, bounds.minSeq < cursorSeq, cursorSeq ≤ bounds.maxSeq⟩
      | .tail => ⟨[], none, none, false, false⟩
    else
      match input.direction with
      | .tail =>
        let selected := selectTimelineWindowByProjectedLimit input.rows .tail limit
        { entries := selected.projectedEntries
          startSeq := selected.minSeq
          endSeq := selected.maxSeq
          hasOlder := selected.minSeq.any fun minSeq => bounds.minSeq < minSeq
          hasNewer := false }
      | .after =>
        let cursorSeq := input.cursorSeq.getD (bounds.minSeq - 1)
        let startSeq := max bounds.minSeq (cursorSeq + 1)
        let selected :=
          selectProjectedEntriesAfter projectedAll input.rows startSeq bounds.maxSeq limit
        { entries := selected.1
          startSeq := selected.2.map fun _ => startSeq
          endSeq := selected.2
          hasOlder := bounds.minSeq < startSeq
          hasNewer := selected.2.any fun endSeq => endSeq < bounds.maxSeq }
      | .before =>
        let cursorSeq := input.cursorSeq.getD (bounds.maxSeq + 1)
        let endSeq := min bounds.maxSeq (cursorSeq - 1)
        if endSeq < bounds.minSeq then
          ⟨[], none, none, false, endSeq < bounds.maxSeq⟩
        else
          let selected := selectProjectedEntriesBefore projectedAll endSeq limit
          { entries := selected.entries
            startSeq := selected.startSeq
            endSeq := some endSeq
            hasOlder := selected.hasOlder
            hasNewer := endSeq < bounds.maxSeq }

end Orqara.Timeline
