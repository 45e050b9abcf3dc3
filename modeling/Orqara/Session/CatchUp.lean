import Orqara.Session.TimelineCursor
import Orqara.Timeline.ForwardPaging

/-!
# Catching up

The app asks for the rows after its cursor, page by page, and takes each page of the
daemon over into the cursor it asks with next.
-/

namespace Orqara.Session

open Orqara.Timeline

/-- The state of the app's initialization, which pages do not wait for. -/
structure InitState where
  isInitializing : Bool
  hasActiveInitDeferred : Bool
  initRequestDirection : InitRequestDirection

/-- A timeline of the daemon, and how a client pages through it. -/
structure CatchUp where
  epoch : String
  rows : List AgentTimelineRow
  limit : ℚ
  /-- The state that each page meets. -/
  initState : TimelineCursor → InitState

def responseEntry (entry : TimelineProjectionEntry) : TimelineResponseEntry where
  seqStart := entry.seqStart
  seqEnd := entry.seqEnd

/-- The daemon's answer to `direction: "after"`. -/
def CatchUp.payload (sync : CatchUp) (cursorSeq : ℤ) : TimelinePayload :=
  let page := pageAfter sync.rows sync.limit cursorSeq
  let bounds := (getTimelineBounds sync.rows).getD { minSeq := 0, maxSeq := 0 }
  { direction := .after
    projection := .projected
    reset := false
    epoch := sync.epoch
    windowMaxSeq := bounds.maxSeq
    startCursor := page.startSeq
    endCursor := page.endSeq
    entries := page.entries.map responseEntry
    error := none
    hasNewer := page.hasNewer
    hasOlder := page.hasOlder || page.startSeq.any (bounds.minSeq < ·)
    mergeWindow := false }

def CatchUp.input (sync : CatchUp) (cursor : TimelineCursor) : ProcessTimelineResponseInput where
  payload := sync.payload cursor.endSeq
  currentCursor := some cursor
  isInitializing := (sync.initState cursor).isInitializing
  hasActiveInitDeferred := (sync.initState cursor).hasActiveInitDeferred
  initRequestDirection := (sync.initState cursor).initRequestDirection

def CatchUp.next (sync : CatchUp) (cursor : TimelineCursor) : TimelineCursor :=
  (storedCursor (sync.input cursor)).getD cursor

/-- The cursor after a number of pages. -/
def CatchUp.after (sync : CatchUp) (cursor : TimelineCursor) (pages : ℕ) : TimelineCursor :=
  sync.next^[pages] cursor

/-- The page is taken over whole, and one of its entries holds the seq. -/
def CatchUp.Accepts (sync : CatchUp) (cursor : TimelineCursor) (seq : ℤ) : Prop :=
  (acceptIncrementalTimelineUnits (sync.payload cursor.endSeq).entries
      (sync.payload cursor.endSeq) (some cursor)).acceptedUnits =
    (sync.payload cursor.endSeq).entries ∧
  ∃ entry ∈ (pageAfter sync.rows sync.limit cursor.endSeq).entries,
    responseEntry entry ∈ (sync.payload cursor.endSeq).entries ∧ entry.Owns seq

/-- Rows with the seqs 1, 2, ... -/
def CatchUp.Numbered (sync : CatchUp) (maxSeq : ℕ) : Prop :=
  sync.rows.map (·.seq) = (List.range maxSeq).map fun (i : ℕ) => (i : ℤ) + 1

instance (sync : CatchUp) (maxSeq : ℕ) : Decidable (sync.Numbered maxSeq) :=
  inferInstanceAs (Decidable (_ = _))

/-! ## The numbered timeline -/

variable {sync : CatchUp} {cursor : TimelineCursor} {maxSeq : ℕ}

theorem Numbered.consecutive (h : sync.Numbered maxSeq) :
    ConsecutiveRows sync.rows := by
  unfold ConsecutiveRows
  rw [List.isChain_iff_getElem]
  intro i hi
  have hget (k : ℕ) (hk : k < sync.rows.length) : sync.rows[k].seq = (k : ℤ) + 1 := by
    have hmap := congrArg (fun seqs => seqs[k]?) h
    have hlen : k < maxSeq := by
      have := congrArg List.length h
      simp only [List.length_map, List.length_range] at this
      omega
    simpa [hk, hlen] using hmap
  rw [hget i (by omega), hget (i + 1) hi]
  push_cast
  ring

theorem Numbered.bounds (h : sync.Numbered maxSeq) (hpos : 0 < maxSeq) :
    getTimelineBounds sync.rows = some { minSeq := 1, maxSeq := maxSeq } := by
  unfold CatchUp.Numbered at h
  have hhead : sync.rows.head?.map (·.seq) = some 1 := by
    rw [← List.head?_map, h]
    obtain ⟨n, rfl⟩ := Nat.exists_eq_succ_of_ne_zero hpos.ne'
    simp [List.range_succ_eq_map]
  have hlast : sync.rows.getLast?.map (·.seq) = some (maxSeq : ℤ) := by
    rw [← List.getLast?_map, h]
    obtain ⟨n, rfl⟩ := Nat.exists_eq_succ_of_ne_zero hpos.ne'
    simp [List.range_succ]
  obtain ⟨first, hfirst, hmin⟩ := Option.map_eq_some_iff.mp hhead
  obtain ⟨last, hlast, hmax⟩ := Option.map_eq_some_iff.mp hlast
  rw [getTimelineBounds, hfirst, hlast]
  simp [hmin, hmax]

/-! ## One page -/

/-- A page after the cursor goes through the incremental path. -/
theorem processTimelineResponse_after (sync : CatchUp) (cursor : TimelineCursor) :
    (processTimelineResponse (sync.input cursor)).toTimelinePathResult =
      { applyTimelineIncrementalPath (sync.payload cursor.endSeq).entries
          (sync.payload cursor.endSeq) (some cursor) with
        sideEffects := (applyTimelineIncrementalPath (sync.payload cursor.endSeq).entries
          (sync.payload cursor.endSeq) (some cursor)).sideEffects ++ [.flushPendingUpdates] } := by
  simp [processTimelineResponse, timelineResponsePath, CatchUp.input, CatchUp.payload, Stream.truthy,
    deriveBootstrapTailTimelinePolicy, deriveResumeTailPolicy, selectEntriesOwnedByTimelinePage]

/-- A page without cursors and entries changes nothing. -/
theorem next_empty (h : (sync.payload cursor.endSeq).entries = []) :
    sync.next cursor = cursor ∧
      (processTimelineResponse (sync.input cursor)).sideEffects = [.flushPendingUpdates] := by
  have hpath := processTimelineResponse_after sync cursor
  have hsame : applyTimelineIncrementalPath (sync.payload cursor.endSeq).entries
      (sync.payload cursor.endSeq) (some cursor) = TimelinePathResult.unchanged (some cursor) := by
    rw [applyTimelineIncrementalPath, if_pos ⟨h, by simp [CatchUp.payload]⟩]
  rw [hsame] at hpath
  constructor
  · unfold CatchUp.next storedCursor
    simp only [hpath, TimelinePathResult.unchanged]
    rfl
  · simp [hpath, TimelinePathResult.unchanged]

/-- A page that starts right after the cursor extends it to the page's end. -/
theorem next_extended {endSeq : ℤ} (hepoch : cursor.epoch = sync.epoch)
    (hstart : (sync.payload cursor.endSeq).startCursor = some (cursor.endSeq + 1))
    (hend : (sync.payload cursor.endSeq).endCursor = some endSeq) (hlt : cursor.endSeq < endSeq)
    (hentries : (sync.payload cursor.endSeq).entries ≠ []) :
    sync.next cursor = { cursor with endSeq } ∧
      (processTimelineResponse (sync.input cursor)).sideEffects = [.flushPendingUpdates] ∧
      (acceptIncrementalTimelineUnits (sync.payload cursor.endSeq).entries
        (sync.payload cursor.endSeq) (some cursor)).acceptedUnits =
          (sync.payload cursor.endSeq).entries := by
  have haccept : acceptIncrementalTimelineUnits (sync.payload cursor.endSeq).entries
      (sync.payload cursor.endSeq) (some cursor) =
        { acceptedUnits := (sync.payload cursor.endSeq).entries
          cursor := some { cursor with endSeq }, gapCursor := none } := by
    have hsame : cursor.epoch = (sync.payload cursor.endSeq).epoch := hepoch
    have hnotBehind : ¬ endSeq ≤ cursor.endSeq := by omega
    simp [acceptIncrementalTimelineUnits, responseRange, hstart, hend, hsame, hnotBehind]
  have hdirection : (sync.payload cursor.endSeq).direction = .after := rfl
  have hchanged : some { cursor with endSeq } ≠ some cursor := by
    intro heq
    have := congrArg TimelineCursor.endSeq (Option.some.inj heq)
    simp only at this
    omega
  have hpath := processTimelineResponse_after sync cursor
  have happlied : applyTimelineIncrementalPath (sync.payload cursor.endSeq).entries
      (sync.payload cursor.endSeq) (some cursor) =
        { cursor := some { cursor with endSeq }, cursorChanged := true
          older := .unchanged, sideEffects := [] } := by
    rw [applyTimelineIncrementalPath, if_neg (by simp [hentries])]
    simp [hdirection, haccept, hchanged, resolveOlderTimelineAvailability]
  rw [happlied] at hpath
  refine ⟨?_, by simp [hpath], by rw [haccept]⟩
  unfold CatchUp.next storedCursor
  simp only [hpath]
  rfl

/-- What one page does to a cursor of the timeline. -/
structure CaughtUpBy (sync : CatchUp) (maxSeq : ℕ) (cursor : TimelineCursor) : Prop where
  quiet : (processTimelineResponse (sync.input cursor)).sideEffects = [.flushPendingUpdates]
  kept : sync.next cursor = { cursor with endSeq := (sync.next cursor).endSeq }
  atMost : (sync.next cursor).endSeq ≤ maxSeq
  rises : cursor.endSeq < maxSeq → cursor.endSeq < (sync.next cursor).endSeq
  stays : cursor.endSeq = maxSeq → sync.next cursor = cursor
  contained : ∀ seq, cursor.endSeq < seq → seq ≤ (sync.next cursor).endSeq →
    sync.Accepts cursor seq

theorem caughtUpBy_page (hrows : sync.Numbered maxSeq) (hlimit : 1 ≤ sync.limit)
    (hepoch : cursor.epoch = sync.epoch) (hmin : 0 ≤ cursor.endSeq) (hmax : cursor.endSeq ≤ maxSeq) :
    CaughtUpBy sync maxSeq cursor := by
  have hconsecutive := Numbered.consecutive hrows
  by_cases hlt : cursor.endSeq < maxSeq
  · -- rows are left: the page starts right after the cursor
    have hbounds := Numbered.bounds hrows (by omega)
    obtain ⟨endSeq, hstart, hend, _, hgt, hle, hall⟩ :=
      pageAfter_spec hconsecutive hbounds hlimit (show 1 - 1 ≤ cursor.endSeq by omega) hlt
    obtain ⟨entry, hentry, _⟩ := hall (cursor.endSeq + 1) (by omega) (by omega)
    have hentries : (sync.payload cursor.endSeq).entries ≠ [] := by
      have : responseEntry entry ∈ (sync.payload cursor.endSeq).entries :=
        List.mem_map_of_mem hentry
      exact List.ne_nil_of_mem this
    obtain ⟨hnext, hquiet, haccepted⟩ := next_extended hepoch hstart hend hgt hentries
    refine
      { quiet := hquiet
        kept := by rw [hnext]
        atMost := by rw [hnext]; exact hle
        rises := fun _ => by rw [hnext]; exact hgt
        stays := fun h => absurd h hlt.ne
        contained := ?_ }
    intro seq hlo hhi
    rw [hnext] at hhi
    obtain ⟨owner, howner, howns⟩ := hall seq hlo hhi
    exact ⟨haccepted, owner, howner, List.mem_map_of_mem howner, howns⟩
  · -- the app has every row: the page is empty
    have heq : cursor.endSeq = maxSeq := by omega
    have hempty : (sync.payload cursor.endSeq).entries = [] := by
      by_cases hpos : 0 < maxSeq
      · have hpage := pageAfter_maxSeq hconsecutive (Numbered.bounds hrows hpos) sync.limit
        rw [CatchUp.payload, heq, hpage]
        rfl
      · obtain rfl : maxSeq = 0 := by omega
        have hnil : sync.rows = [] := by simpa [CatchUp.Numbered] using hrows
        simp [CatchUp.payload, pageAfter, selectProjectedTimelinePage, hnil, getTimelineBounds]
    obtain ⟨hnext, hquiet⟩ := next_empty hempty
    refine
      { quiet := hquiet
        kept := by rw [hnext]
        atMost := by rw [hnext]; exact hmax
        rises := fun h => absurd h hlt
        stays := fun _ => hnext
        contained := ?_ }
    intro seq hlo hhi
    rw [hnext] at hhi
    omega

/-! ## All pages -/

/-- What the pages after a cursor come to. -/
structure CatchesUp (sync : CatchUp) (maxSeq : ℕ) (cursor : TimelineCursor) : Prop where
  quiet : ∀ n target,
    .catchUp target ∉ (processTimelineResponse (sync.input (sync.after cursor n))).sideEffects
  kept : ∀ n, sync.after cursor n = { cursor with endSeq := (sync.after cursor n).endSeq }
  rises : ∀ n, (sync.after cursor n).endSeq < maxSeq →
    (sync.after cursor n).endSeq < (sync.after cursor (n + 1)).endSeq
  ends : ∀ n : ℕ, maxSeq - cursor.endSeq ≤ n → (sync.after cursor n).endSeq = maxSeq
  contained : ∀ n seq, cursor.endSeq < seq → seq ≤ (sync.after cursor n).endSeq →
    ∃ page < n, sync.Accepts (sync.after cursor page) seq

theorem CatchUp.after_succ (sync : CatchUp) (cursor : TimelineCursor) (n : ℕ) :
    sync.after cursor (n + 1) = sync.next (sync.after cursor n) :=
  Function.iterate_succ_apply' ..

/-- The cursor after any number of pages is one of the timeline, and no page was wasted. -/
theorem after_spec (hrows : sync.Numbered maxSeq) (hlimit : 1 ≤ sync.limit)
    (hepoch : cursor.epoch = sync.epoch) (hmin : 0 ≤ cursor.endSeq) (hmax : cursor.endSeq ≤ maxSeq)
    (n : ℕ) :
    sync.after cursor n = { cursor with endSeq := (sync.after cursor n).endSeq } ∧
      min (maxSeq : ℤ) (cursor.endSeq + n) ≤ (sync.after cursor n).endSeq ∧
      (sync.after cursor n).endSeq ≤ maxSeq ∧
      ∀ seq, cursor.endSeq < seq → seq ≤ (sync.after cursor n).endSeq →
        ∃ page < n, sync.Accepts (sync.after cursor page) seq := by
  induction n with
  | zero =>
    have hzero : sync.after cursor 0 = cursor := rfl
    rw [hzero]
    refine ⟨rfl, ?_, hmax, ?_⟩
    · simp
    · intro seq hlo hhi
      omega
  | succ n ih =>
    obtain ⟨hkept, hlow, hhigh, hcontained⟩ := ih
    have hpage : CaughtUpBy sync maxSeq (sync.after cursor n) := by
      apply caughtUpBy_page hrows hlimit
      · rw [hkept]
        exact hepoch
      · omega
      · exact hhigh
    rw [CatchUp.after_succ]
    refine ⟨?_, ?_, hpage.atMost, ?_⟩
    · have hsame : (sync.after cursor n).epoch = cursor.epoch := by rw [hkept]
      have hstart : (sync.after cursor n).startSeq = cursor.startSeq := by rw [hkept]
      have hretained : (sync.after cursor n).retainedRanges = cursor.retainedRanges := by
        rw [hkept]
      have hnext := hpage.kept
      rwa [hsame, hstart, hretained] at hnext
    · rcases hhigh.lt_or_eq with hlt | heq
      · have := hpage.rises hlt
        push_cast
        omega
      · rw [hpage.stays heq, heq]
        exact min_le_left _ _
    · intro seq hlo hhi
      by_cases hseq : seq ≤ (sync.after cursor n).endSeq
      · obtain ⟨page, hlt, haccepts⟩ := hcontained seq hlo hseq
        exact ⟨page, by omega, haccepts⟩
      · exact ⟨n, by omega, hpage.contained seq (by omega) hhi⟩

/-- From any cursor of the timeline the pages come to its end, and miss no seq. -/
theorem catchUp_closesGap (sync : CatchUp) (maxSeq : ℕ) (cursor : TimelineCursor)
    (hrows : sync.Numbered maxSeq) (hlimit : 1 ≤ sync.limit) (hepoch : cursor.epoch = sync.epoch)
    (hmin : 0 ≤ cursor.endSeq) (hmax : cursor.endSeq ≤ maxSeq) :
    CatchesUp sync maxSeq cursor := by
  have hafter := after_spec hrows hlimit hepoch hmin hmax
  have hpage (n : ℕ) : CaughtUpBy sync maxSeq (sync.after cursor n) := by
    obtain ⟨hkept, hlow, hhigh, _⟩ := hafter n
    apply caughtUpBy_page hrows hlimit
    · rw [hkept]
      exact hepoch
    · omega
    · exact hhigh
  refine
    { quiet := ?_
      kept := fun n => (hafter n).1
      rises := ?_
      ends := ?_
      contained := fun n => (hafter n).2.2.2 }
  · intro n target
    rw [(hpage n).quiet]
    simp
  · intro n hlt
    rw [CatchUp.after_succ]
    exact (hpage n).rises hlt
  · intro n hn
    obtain ⟨_, hlow, hhigh, _⟩ := hafter n
    omega

/-- The rows of a turn with a tool call around its reasoning, one row a page. -/
def interleavedSync : CatchUp where
  epoch := "e"
  rows := interleavedRows
  limit := 1
  initState _ :=
    { isInitializing := true, hasActiveInitDeferred := true, initRequestDirection := .after }

theorem catchUp_closesGap_interleaved :
    CatchesUp interleavedSync 5
      { epoch := "e", startSeq := 1, endSeq := 1
        retainedRanges := [{ startSeq := 3, endSeq := 4, hasOlder := none }] } :=
  catchUp_closesGap interleavedSync 5 _ (by decide) (by decide) rfl (by decide) (by decide)

end Orqara.Session
