import Orqara.Session.StreamEvents

/-!
# What a cursor covers

Every call has an effect on the cursor: it leaves it, replaces it, merges a range
into it or extends its contiguous range. The ranges accepted since the last
replacement are the ledger that the cursor's claims are compared with.
-/

namespace Orqara.Session

open Orqara.Timeline Orqara.Stream TimelineLoadedRange

abbrev NormalLoaded : List TimelineLoadedRange → Prop :=
  Ranges.Normal TimelineLoadedRange.startSeq TimelineLoadedRange.endSeq

abbrev LoadedCover : List TimelineLoadedRange → ℤ → Prop :=
  Ranges.Covers TimelineLoadedRange.startSeq TimelineLoadedRange.endSeq

/-! ## Merging a range -/

theorem before_total (left right : TimelineLoadedRange) :
    left.before right ∨ right.before left := by
  unfold before
  omega

theorem before_trans (a b c : TimelineLoadedRange) (hab : a.before b) (hbc : b.before c) :
    a.before c := by
  unfold before at *
  omega

/-- The seqs that a cursor claims to have loaded. -/
def TimelineCursor.Claims (cursor : TimelineCursor) (seq : ℤ) : Prop :=
  (cursor.startSeq ≤ seq ∧ seq ≤ cursor.endSeq) ∨ LoadedCover cursor.retainedRanges seq

/-- Sorted ranges with gaps between them and around the contiguous one. -/
structure TimelineCursor.Apart (cursor : TimelineCursor) : Prop where
  nonempty : cursor.startSeq ≤ cursor.endSeq
  retained : NormalLoaded cursor.retainedRanges
  apart : ∀ range ∈ cursor.retainedRanges,
    range.endSeq + 1 < cursor.startSeq ∨ cursor.endSeq + 1 < range.startSeq

variable {cursor : TimelineCursor} {payload : TimelinePayload} {added range : TimelineLoadedRange}
  {ledger : List TimelineLoadedRange} {input : ProcessTimelineResponseInput}

theorem mergedRanges_spec (h : cursor.Apart) (hadded : added.startSeq ≤ added.endSeq) :
    NormalLoaded (mergedRanges cursor added) ∧
      ∀ seq, LoadedCover (mergedRanges cursor added) seq ↔
        cursor.Claims seq ∨ (added.startSeq ≤ seq ∧ seq ≤ added.endSeq) := by
  have hperm := List.perm_insertionSort before
    (cursor.contiguous :: cursor.retainedRanges ++ [added])
  have hne : ∀ range ∈ (cursor.contiguous :: cursor.retainedRanges ++ [added]).insertionSort
      before, range.startSeq ≤ range.endSeq := by
    intro range hrange
    have hmem := hperm.mem_iff.mp hrange
    rw [List.cons_append, List.mem_cons, List.mem_append, List.mem_singleton] at hmem
    rcases hmem with rfl | hretained | rfl
    · exact h.nonempty
    · exact h.retained.nonempty range hretained
    · exact hadded
  have hsorted : ((cursor.contiguous :: cursor.retainedRanges ++ [added]).insertionSort
      before).Pairwise fun a b => a.startSeq ≤ b.startSeq := by
    have : Std.Total before := ⟨before_total⟩
    have : IsTrans TimelineLoadedRange before := ⟨before_trans⟩
    apply (List.pairwise_insertionSort before _).imp
    intro a b hab
    unfold before at hab
    omega
  have hstart : ∀ a b, (joinRange a b).startSeq = a.startSeq := fun _ _ => rfl
  have hend : ∀ a b, (joinRange a b).endSeq = max a.endSeq b.endSeq := fun _ _ => rfl
  obtain ⟨hnormal, hcovers⟩ := Ranges.mergeSorted_spec hstart hend hne hsorted
  refine ⟨hnormal, ?_⟩
  intro seq
  have hall : LoadedCover ((cursor.contiguous :: cursor.retainedRanges ++ [added]).insertionSort
      before) seq ↔
      LoadedCover (cursor.contiguous :: cursor.retainedRanges ++ [added]) seq := by
    simp only [LoadedCover, Ranges.Covers, hperm.mem_iff]
  apply (hcovers seq).trans (hall.trans ?_)
  rw [LoadedCover, Ranges.covers_append, Ranges.covers_singleton, ← List.singleton_append,
    Ranges.covers_append, Ranges.covers_singleton]
  rfl

/-- Merging a range into a cursor keeps its ranges apart and adds the range to its claims. -/
theorem mergeTimelineCoverage_spec (h : cursor.Apart) (hadded : added.startSeq ≤ added.endSeq) :
    (mergeTimelineCoverage cursor added).Apart ∧
      (∀ seq, (mergeTimelineCoverage cursor added).Claims seq ↔
        cursor.Claims seq ∨ (added.startSeq ≤ seq ∧ seq ≤ added.endSeq)) := by
  obtain ⟨hnormal, hcovers⟩ := mergedRanges_spec h hadded
  unfold mergeTimelineCoverage
  simp only []
  split
  · next hnone =>
    -- the contiguous range is among those merged
    have hend : LoadedCover (mergedRanges cursor added) cursor.endSeq :=
      (hcovers cursor.endSeq).mpr (.inl (.inl ⟨h.nonempty, le_rfl⟩))
    obtain ⟨range, hrange, hlo, hhi⟩ := hend
    have hnot := List.findIdx?_eq_none_iff.mp hnone range hrange
    simp [hlo, hhi] at hnot
  · next index hindex =>
    obtain ⟨hlt, hfound, _⟩ := List.findIdx?_eq_some_iff_getElem.mp hindex
    have hget : (mergedRanges cursor added)[index]? = some (mergedRanges cursor added)[index] :=
      List.getElem?_eq_getElem hlt
    rw [hget]
    refine ⟨⟨hnormal.nonempty _ (List.mem_of_getElem? hget), hnormal.eraseIdx index, ?_⟩, ?_⟩
    · intro range hrange
      exact hnormal.apart hget hrange
    · intro seq
      rw [← hcovers seq, LoadedCover, Ranges.covers_eraseIdx hget]
      rfl

/-! ## Extending the contiguous range -/

def TimelineCursor.extend (cursor : TimelineCursor) (endSeq : ℤ) : TimelineCursor :=
  { cursor with endSeq }

/-- The contiguous range may grow over a range that starts in it and ends behind it, when
no retained range is reached. -/
structure CleanExtension (cursor : TimelineCursor) (range : TimelineLoadedRange) : Prop where
  inside : cursor.startSeq ≤ range.startSeq
  clear : ∀ retained ∈ cursor.retainedRanges, cursor.endSeq < retained.startSeq →
    range.endSeq + 1 < retained.startSeq

instance (cursor : TimelineCursor) (range : TimelineLoadedRange) :
    Decidable (CleanExtension cursor range) :=
  decidable_of_iff (_ ∧ _) ⟨fun h => ⟨h.1, h.2⟩, fun h => ⟨h.inside, h.clear⟩⟩

/-- Growing by a range keeps the ranges apart and adds exactly that range to the claims if,
and only if, the extension is clean. -/
theorem extend_spec (h : cursor.Apart) (hstart : range.startSeq ≤ cursor.endSeq + 1)
    (hend : cursor.endSeq < range.endSeq) :
    ((cursor.extend range.endSeq).Apart ∧
      ∀ seq, (cursor.extend range.endSeq).Claims seq ↔
        cursor.Claims seq ∨ (range.startSeq ≤ seq ∧ seq ≤ range.endSeq)) ↔
      CleanExtension cursor range := by
  have hnonempty := h.nonempty
  constructor
  · rintro ⟨hapart, hclaims⟩
    constructor
    · -- the seq below the contiguous range is claimed by nobody
      by_contra hinside
      have hbelow := (hclaims (cursor.startSeq - 1)).mpr (.inr ⟨by omega, by omega⟩)
      rcases hbelow with ⟨hge, _⟩ | ⟨retained, hretained, hlo, hhi⟩
      · have : cursor.startSeq ≤ cursor.startSeq - 1 := hge
        omega
      · rcases h.apart retained hretained with hleft | hright <;> omega
    · intro retained hretained hafter
      rcases hapart.apart retained hretained with hleft | hright
      · have hleft' : retained.endSeq + 1 < cursor.startSeq := hleft
        have := h.retained.nonempty retained hretained
        omega
      · exact hright
  · intro hclean
    refine ⟨⟨?_, h.retained, ?_⟩, ?_⟩
    · exact show cursor.startSeq ≤ range.endSeq by omega
    · intro retained hretained
      rcases h.apart retained hretained with hleft | hright
      · exact .inl hleft
      · exact .inr (hclean.clear retained hretained (by omega))
    · intro seq
      have hinside := hclean.inside
      unfold TimelineCursor.Claims TimelineCursor.extend
      simp only []
      rw [or_right_comm]
      apply or_congr_left
      omega

/-! ## Effects -/

inductive CoverageEffect
  | keep
  | replace (epoch : String) (range : Option TimelineLoadedRange)
  | merge (range : TimelineLoadedRange)
  | extend (range : TimelineLoadedRange)
  deriving DecidableEq

def startCursor (epoch : String) (range : TimelineLoadedRange) : TimelineCursor where
  epoch := epoch
  startSeq := range.startSeq
  endSeq := range.endSeq
  retainedRanges := []

def CoverageEffect.apply (cursor : Option TimelineCursor) : CoverageEffect → Option TimelineCursor
  | .keep => cursor
  | .replace epoch range => range.map (startCursor epoch)
  | .merge range => cursor.map (mergeTimelineCoverage · range)
  | .extend range => cursor.map (·.extend range.endSeq)

/-- The ranges accepted since the last replacement. -/
def CoverageEffect.record (ledger : List TimelineLoadedRange) :
    CoverageEffect → List TimelineLoadedRange
  | .keep => ledger
  | .replace _ range => range.toList
  | .merge range | .extend range => ledger ++ [range]

/-- What an effect of the code always satisfies, given pages that start before they end. -/
def CoverageEffect.Valid (cursor : Option TimelineCursor) : CoverageEffect → Prop
  | .keep => True
  | .replace _ range => ∀ r ∈ range, r.startSeq ≤ r.endSeq
  | .merge range => cursor ≠ none ∧ range.startSeq ≤ range.endSeq
  | .extend range => ∃ current, cursor = some current ∧ range.startSeq ≤ current.endSeq + 1 ∧
      current.endSeq < range.endSeq

def CoverageEffect.Clean (cursor : Option TimelineCursor) : CoverageEffect → Prop
  | .extend range => ∀ current ∈ cursor, CleanExtension current range
  | _ => True

instance (cursor : Option TimelineCursor) (effect : CoverageEffect) :
    Decidable (effect.Clean cursor) :=
  match effect with
  | .extend range => inferInstanceAs (Decidable (∀ current ∈ cursor, CleanExtension current range))
  | .keep | .replace .. | .merge _ => isTrue trivial

/-- The cursor's ranges are apart and cover exactly the ledger. -/
structure Represents (cursor : Option TimelineCursor) (ledger : List TimelineLoadedRange) :
    Prop where
  apart : ∀ current ∈ cursor, current.Apart
  claims : ∀ seq, (∃ current ∈ cursor, current.Claims seq) ↔ LoadedCover ledger seq

theorem Represents.none : Represents none [] := ⟨by simp, by simp⟩

theorem represents_some_iff :
    Represents (some cursor) ledger ↔
      cursor.Apart ∧ ∀ seq, cursor.Claims seq ↔ LoadedCover ledger seq := by
  constructor
  · intro h
    exact ⟨h.apart cursor rfl, fun seq => by simpa using h.claims seq⟩
  · rintro ⟨hapart, hclaims⟩
    exact ⟨by simpa using hapart, by simpa using hclaims⟩

theorem Represents.start (epoch : String) (h : range.startSeq ≤ range.endSeq) :
    Represents (some (startCursor epoch range)) [range] := by
  apply represents_some_iff.mpr
  refine ⟨⟨h, Ranges.Normal.nil, by simp [startCursor]⟩, ?_⟩
  intro seq
  simp [TimelineCursor.Claims, startCursor, LoadedCover]

/-- One clean effect. -/
theorem Represents.apply {cursor : Option TimelineCursor} (h : Represents cursor ledger)
    {effect : CoverageEffect} (hvalid : effect.Valid cursor) (hclean : effect.Clean cursor) :
    Represents (effect.apply cursor) (effect.record ledger) := by
  cases effect with
  | keep => exact h
  | replace epoch range =>
    cases range with
    | none => exact Represents.none
    | some range => exact Represents.start epoch (hvalid range rfl)
  | merge range =>
    obtain ⟨hcursor, hrange⟩ := hvalid
    obtain ⟨current, rfl⟩ := Option.ne_none_iff_exists'.mp hcursor
    obtain ⟨hapart, hclaims⟩ := represents_some_iff.mp h
    obtain ⟨hapart', hclaims'⟩ := mergeTimelineCoverage_spec hapart hrange
    apply represents_some_iff.mpr
    refine ⟨hapart', ?_⟩
    intro seq
    rw [hclaims' seq, hclaims seq, CoverageEffect.record, LoadedCover, Ranges.covers_append,
      Ranges.covers_singleton]
  | extend range =>
    obtain ⟨current, rfl, hstart, hend⟩ := hvalid
    obtain ⟨hapart, hclaims⟩ := represents_some_iff.mp h
    obtain ⟨hapart', hclaims'⟩ := (extend_spec hapart hstart hend).mpr (hclean current rfl)
    apply represents_some_iff.mpr
    refine ⟨hapart', ?_⟩
    intro seq
    rw [hclaims' seq, hclaims seq, CoverageEffect.record, LoadedCover, Ranges.covers_append,
      Ranges.covers_singleton]

/-! ## The effect of a page -/

def windowEffect (payload : TimelinePayload) (currentCursor : Option TimelineCursor) :
    CoverageEffect :=
  match payload.range, currentCursor.filter (·.epoch = payload.epoch) with
  | some page, some _ => .merge page
  | _, _ => .keep

def olderEffect (page : TimelineLoadedRange) (cursor : TimelineCursor) : CoverageEffect :=
  if page.endSeq = cursor.startSeq - 1 then .merge page else .keep

/-- A forward page of the cursor's epoch is accepted when it starts behind no gap and ends
behind the cursor, unless it has no cursors of its own and overlaps. -/
def forwardEffect (payload : TimelinePayload) (page : TimelineLoadedRange)
    (cursor : TimelineCursor) : CoverageEffect :=
  if cursor.epoch = payload.epoch ∧ page.startSeq ≤ cursor.endSeq + 1 ∧
      cursor.endSeq < page.endSeq ∧
      (payload.range.isSome ∨ page.startSeq = cursor.endSeq + 1) then .extend page
  else .keep

def incrementalEffect (timelineUnits : List TimelineResponseEntry) (payload : TimelinePayload)
    (currentCursor : Option TimelineCursor) : CoverageEffect :=
  if payload.direction = .before then
    match currentCursor.filter (·.epoch = payload.epoch), responseRange payload timelineUnits with
    | some cursor, some page => olderEffect page cursor
    | _, _ => .keep
  else if timelineUnits = [] then .keep
  else
    match responseRange payload timelineUnits, currentCursor with
    | some page, none => .replace payload.epoch (some page)
    | some page, some cursor => forwardEffect payload page cursor
    | none, _ => .keep

/-- The entries a response hands to the incremental path. -/
def incrementalUnits (input : ProcessTimelineResponseInput) (resume : ResumeTailPolicy) :
    List TimelineResponseEntry :=
  match resume, input.currentCursor with
  | .append, some cursor =>
    (selectEntriesOwnedByTimelinePage input.payload).filter (cursor.endSeq < ·.seqEnd)
  | _, _ => selectEntriesOwnedByTimelinePage input.payload

def pageEffect (input : ProcessTimelineResponseInput) : CoverageEffect :=
  let payload := input.payload
  let bootstrap := deriveBootstrapTailTimelinePolicy payload input.isInitializing
    input.hasActiveInitDeferred
  let resume := deriveResumeTailPolicy payload input.currentCursor bootstrap.replace
  if truthy payload.error ∨ resume = .discard then .keep
  else if payload.mergeWindow then windowEffect payload input.currentCursor
  else if bootstrap.replace ∨ resume = .replace then .replace payload.epoch payload.range
  else incrementalEffect (incrementalUnits input resume) payload input.currentCursor

/-- The cursor stored after one of the paths. -/
def TimelinePathResult.stored (result : TimelinePathResult)
    (currentCursor : Option TimelineCursor) : Option TimelineCursor :=
  if result.cursorChanged then result.cursor else currentCursor

theorem stored_unchanged (currentCursor : Option TimelineCursor) :
    (TimelinePathResult.unchanged currentCursor).stored currentCursor = currentCursor := rfl

theorem stored_mergeTimelineWindow (payload : TimelinePayload)
    (currentCursor : Option TimelineCursor) :
    (mergeTimelineWindow payload currentCursor).stored currentCursor =
      (windowEffect payload currentCursor).apply currentCursor := by
  unfold mergeTimelineWindow windowEffect
  cases hpage : payload.range with
  | none => rfl
  | some page =>
    cases hcurrent : currentCursor.filter (·.epoch = payload.epoch) with
    | none => rfl
    | some current =>
      obtain ⟨rfl, _⟩ := Option.filter_eq_some_iff.mp hcurrent
      by_cases h : current = mergeTimelineCoverage current page
      · simp [TimelinePathResult.stored, CoverageEffect.apply, ← h]
      · simp [TimelinePathResult.stored, CoverageEffect.apply, h]

section

variable (timelineUnits : List TimelineResponseEntry)

theorem acceptOlder_cursor (payload : TimelinePayload) (hdirection : payload.direction = .before)
    (currentCursor : Option TimelineCursor) :
    (acceptOlderTimelineUnits timelineUnits payload currentCursor).cursor =
      (incrementalEffect timelineUnits payload currentCursor).apply currentCursor := by
  unfold acceptOlderTimelineUnits incrementalEffect
  rw [if_pos hdirection]
  cases hcurrent : currentCursor.filter (·.epoch = payload.epoch) with
  | none => rfl
  | some cursor =>
    obtain ⟨rfl, _⟩ := Option.filter_eq_some_iff.mp hcurrent
    cases hpage : responseRange payload timelineUnits with
    | none => rfl
    | some page =>
      simp only [olderEffect]
      by_cases h : page.endSeq = cursor.startSeq - 1
      · rw [if_neg (not_not.mpr h), if_pos h]
        rfl
      · rw [if_pos h, if_neg h]
        rfl

theorem range_isSome_iff (payload : TimelinePayload) :
    payload.range.isSome ↔ ¬ (payload.startCursor = none ∨ payload.endCursor = none) := by
  unfold TimelinePayload.range
  cases payload.startCursor <;> cases payload.endCursor <;> simp

theorem acceptIncremental_cursor {timelineUnits : List TimelineResponseEntry}
    (hunits : timelineUnits ≠ []) (hdirection : payload.direction ≠ .before)
    (currentCursor : Option TimelineCursor) :
    (acceptIncrementalTimelineUnits timelineUnits payload currentCursor).cursor =
      (incrementalEffect timelineUnits payload currentCursor).apply currentCursor := by
  unfold acceptIncrementalTimelineUnits incrementalEffect
  rw [if_neg hdirection, if_neg hunits]
  cases hpage : responseRange payload timelineUnits with
  | none => rfl
  | some page =>
    cases currentCursor with
    | none => rfl
    | some cursor =>
      simp only [forwardEffect, range_isSome_iff]
      split_ifs <;> first | rfl | (exfalso; grind)

/-- The incremental path replaces only a cursor that is missing, and moves only one that is
there. -/
theorem incrementalEffect_cases (payload : TimelinePayload) (currentCursor : Option TimelineCursor) :
    incrementalEffect timelineUnits payload currentCursor = .keep ∨
      ∃ page, responseRange payload timelineUnits = some page ∧
        ((currentCursor = none ∧ incrementalEffect timelineUnits payload currentCursor =
            .replace payload.epoch (some page)) ∨
          ∃ cursor, currentCursor = some cursor ∧
            ((payload.direction = .before ∧
                incrementalEffect timelineUnits payload currentCursor = .merge page) ∨
              (incrementalEffect timelineUnits payload currentCursor = .extend page ∧
                page.startSeq ≤ cursor.endSeq + 1 ∧ cursor.endSeq < page.endSeq))) := by
  unfold incrementalEffect
  by_cases hdirection : payload.direction = .before
  · rw [if_pos hdirection]
    cases hcurrent : currentCursor.filter (·.epoch = payload.epoch) with
    | none => exact .inl rfl
    | some cursor =>
      obtain ⟨rfl, _⟩ := Option.filter_eq_some_iff.mp hcurrent
      cases hpage : responseRange payload timelineUnits with
      | none => exact .inl rfl
      | some page =>
        simp only [olderEffect]
        by_cases h : page.endSeq = cursor.startSeq - 1
        · rw [if_pos h]
          exact .inr ⟨page, rfl, .inr ⟨cursor, rfl, .inl ⟨hdirection, rfl⟩⟩⟩
        · rw [if_neg h]
          exact .inl rfl
  · rw [if_neg hdirection]
    by_cases hempty : timelineUnits = []
    · rw [if_pos hempty]
      exact .inl rfl
    · rw [if_neg hempty]
      cases hpage : responseRange payload timelineUnits with
      | none => exact .inl rfl
      | some page =>
        cases currentCursor with
        | none => exact .inr ⟨page, rfl, .inl ⟨rfl, rfl⟩⟩
        | some cursor =>
          simp only [forwardEffect]
          split
          · next h => exact .inr ⟨page, rfl, .inr ⟨cursor, rfl, .inr ⟨rfl, h.2.1, h.2.2.1⟩⟩⟩
          · exact .inl rfl

theorem incrementalEffect_apply_none {timelineUnits : List TimelineResponseEntry}
    {currentCursor : Option TimelineCursor}
    (h : (incrementalEffect timelineUnits payload currentCursor).apply currentCursor = none) :
    currentCursor = none := by
  rcases incrementalEffect_cases timelineUnits payload currentCursor with
    hkeep | ⟨page, _, ⟨hnone, _⟩ | ⟨cursor, rfl, ⟨_, hmerge⟩ | ⟨hextend, _⟩⟩⟩
  · rwa [hkeep] at h
  · exact hnone
  · rw [hmerge] at h
    cases h
  · rw [hextend] at h
    cases h

theorem stored_applyTimelineIncrementalPath (payload : TimelinePayload)
    (currentCursor : Option TimelineCursor) :
    (applyTimelineIncrementalPath timelineUnits payload currentCursor).stored currentCursor =
      (incrementalEffect timelineUnits payload currentCursor).apply currentCursor := by
  unfold applyTimelineIncrementalPath
  by_cases hempty : timelineUnits = [] ∧ payload.direction ≠ .before
  · have hkeep : incrementalEffect timelineUnits payload currentCursor = .keep := by
      unfold incrementalEffect
      rw [if_neg hempty.2]
      exact if_pos hempty.1
    rw [if_pos hempty, stored_unchanged, hkeep]
    rfl
  · rw [if_neg hempty]
    have haccepted : (if payload.direction = .before then
          acceptOlderTimelineUnits timelineUnits payload currentCursor
        else acceptIncrementalTimelineUnits timelineUnits payload currentCursor).cursor =
        (incrementalEffect timelineUnits payload currentCursor).apply currentCursor := by
      by_cases hdirection : payload.direction = .before
      · rw [if_pos hdirection]
        exact acceptOlder_cursor timelineUnits payload hdirection currentCursor
      · rw [if_neg hdirection]
        exact acceptIncremental_cursor (fun h => hempty ⟨h, hdirection⟩) hdirection currentCursor
    simp only [TimelinePathResult.stored, haccepted]
    by_cases hnone : (incrementalEffect timelineUnits payload currentCursor).apply currentCursor = none
    · rw [hnone]
      simp [incrementalEffect_apply_none hnone]
    · by_cases hsame : (incrementalEffect timelineUnits payload currentCursor).apply currentCursor =
          currentCursor
      · simp [hsame]
      · simp [hnone, hsame]

end

/-- The cursor stored after a response is the page's effect on the one before. -/
theorem storedCursor_eq (input : ProcessTimelineResponseInput) :
    storedCursor input = (pageEffect input).apply input.currentCursor := by
  have hpath : (timelineResponsePath input).2.stored input.currentCursor =
      (if (timelineResponsePath input).1 = .discard then CoverageEffect.keep
        else if input.payload.mergeWindow then windowEffect input.payload input.currentCursor
        else if (deriveBootstrapTailTimelinePolicy input.payload input.isInitializing
            input.hasActiveInitDeferred).replace ∨ (timelineResponsePath input).1 = .replace then
          .replace input.payload.epoch input.payload.range
        else incrementalEffect (incrementalUnits input (timelineResponsePath input).1) input.payload
          input.currentCursor).apply input.currentCursor := by
    unfold timelineResponsePath
    simp only []
    split
    · rfl
    split
    · exact stored_mergeTimelineWindow ..
    split
    · rfl
    · exact stored_applyTimelineIncrementalPath ..
  unfold storedCursor processTimelineResponse pageEffect
  by_cases herror : truthy input.payload.error = true
  · simp only [herror, if_true, true_or]
    rfl
  · rw [if_neg herror]
    simp only [herror, Bool.false_eq_true, false_or]
    exact hpath

/-- Whatever range a page is taken to have, it starts before it ends. -/
def TimelinePayload.Ordered (payload : TimelinePayload) : Prop :=
  ∀ page, responseRange payload payload.entries = some page → page.startSeq ≤ page.endSeq

theorem responseRange_of_range {page : TimelineLoadedRange} (h : payload.range = some page)
    (entries : List TimelineResponseEntry) :
    responseRange payload entries = some page := by
  unfold TimelinePayload.range at h
  unfold responseRange
  cases hstart : payload.startCursor <;> cases hend : payload.endCursor <;> simp_all

theorem responseRange_owned (payload : TimelinePayload) :
    responseRange payload (selectEntriesOwnedByTimelinePage payload) =
      responseRange payload payload.entries := by
  unfold selectEntriesOwnedByTimelinePage
  split
  · rfl
  · cases hrange : payload.range with
    | none => rfl
    | some page => rw [responseRange_of_range hrange, responseRange_of_range hrange]

/-- Only a resumed tail page hands over fewer entries than it owns. -/
theorem incrementalUnits_of_not_append {resume : ResumeTailPolicy}
    (h : input.currentCursor = none ∨ resume ≠ .append) :
    incrementalUnits input resume = selectEntriesOwnedByTimelinePage input.payload := by
  unfold incrementalUnits
  split
  · next cursor hcursor =>
    rcases h with hnone | hnot
    · rw [hcursor] at hnone
      cases hnone
    · exact absurd rfl hnot
  · rfl

theorem resume_ne_append (h : payload.direction ≠ .tail) (currentCursor : Option TimelineCursor)
    (bootstrapReplace : Bool) :
    deriveResumeTailPolicy payload currentCursor bootstrapReplace ≠ .append := by
  unfold deriveResumeTailPolicy
  split
  · simp
  · simp [h]

theorem pageEffect_valid (h : input.payload.Ordered) :
    (pageEffect input).Valid input.currentCursor := by
  unfold pageEffect
  simp only []
  split
  · trivial
  split
  · unfold windowEffect
    cases hpage : input.payload.range with
    | none => trivial
    | some page =>
      cases hcurrent : input.currentCursor.filter (·.epoch = input.payload.epoch) with
      | none => trivial
      | some current =>
        refine ⟨?_, h page (responseRange_of_range hpage _)⟩
        rw [(Option.filter_eq_some_iff.mp hcurrent).1]
        exact Option.some_ne_none current
  split
  · intro page hpage
    exact h page (responseRange_of_range hpage _)
  · generalize hresume : deriveResumeTailPolicy input.payload input.currentCursor
      (deriveBootstrapTailTimelinePolicy input.payload input.isInitializing
        input.hasActiveInitDeferred).replace = resume
    rcases incrementalEffect_cases (incrementalUnits input resume) input.payload
      input.currentCursor with
      hkeep | ⟨page, hpage, ⟨hnone, hreplace⟩ | ⟨cursor, hcursor, ⟨hbefore, hmerge⟩ |
        ⟨hextend, hstart, hend⟩⟩⟩
    · rw [hkeep]
      trivial
    · rw [hreplace]
      rw [incrementalUnits_of_not_append (.inl hnone), responseRange_owned] at hpage
      intro page' hpage'
      obtain rfl := Option.mem_some_iff.mp hpage'
      exact h page hpage
    · rw [hmerge]
      have hnot : resume ≠ .append := by
        rw [← hresume]
        exact resume_ne_append (by rw [hbefore]; decide) _ _
      rw [incrementalUnits_of_not_append (.inr hnot), responseRange_owned] at hpage
      refine ⟨?_, h page hpage⟩
      rw [hcursor]
      exact Option.some_ne_none cursor
    · rw [hextend]
      exact ⟨cursor, hcursor, hstart, hend⟩

/-! ## The effects of a batch -/

def TimelinePosition.loadedRange (position : TimelinePosition) : TimelineLoadedRange where
  startSeq := position.seq
  endSeq := position.seq
  hasOlder := none

def positionEffect (position : TimelinePosition) (currentCursor : Option TimelineCursor) :
    CoverageEffect :=
  match classifySessionTimelineSeq currentCursor position with
  | .init => .replace position.epoch (some (TimelinePosition.loadedRange position))
  | .accept => .extend (TimelinePosition.loadedRange position)
  | .dropEpoch =>
    if position.seq = 1 then .replace position.epoch (some (TimelinePosition.loadedRange position))
    else .keep
  | .gap | .dropStale => .keep

def eventEffect (e : AgentStreamReducerEvent) (currentCursor : Option TimelineCursor)
    (hasAuthoritativeBaseline : Bool) : CoverageEffect :=
  match e.position with
  | none => .keep
  | some position =>
    if hasAuthoritativeBaseline then positionEffect position currentCursor else .keep

/-- The effects of the events of a batch, each on the cursor that those before it left. -/
def eventEffects (hasAuthoritativeBaseline : Bool) :
    Option TimelineCursor → List AgentStreamReducerEvent → List CoverageEffect
  | _, [] => []
  | cursor, e :: events =>
    let effect := eventEffect e cursor hasAuthoritativeBaseline
    effect :: eventEffects hasAuthoritativeBaseline (effect.apply cursor) events

theorem stored_gateAt (currentCursor : Option TimelineCursor) (position : TimelinePosition) :
    (gateAt currentCursor position).stored currentCursor =
      (positionEffect position currentCursor).apply currentCursor := by
  have hspec := classifySessionTimelineSeq_spec currentCursor position
  unfold gateAt positionEffect
  cases hdecision : classifySessionTimelineSeq currentCursor position with
  | init => rfl
  | dropStale => rfl
  | gap => rfl
  | accept =>
    rw [hdecision] at hspec
    obtain ⟨current, rfl, hepoch, _⟩ := hspec
    simp only [← hepoch]
    rfl
  | dropEpoch =>
    by_cases hfirst : position.seq = 1
    · simp only [if_pos hfirst]
      rfl
    · simp only [if_neg hfirst]
      rfl

theorem stored_gate (e : AgentStreamReducerEvent) (currentCursor : Option TimelineCursor)
    (hasAuthoritativeBaseline : Bool) :
    (processTimelineSequencingGate e currentCursor hasAuthoritativeBaseline).stored currentCursor =
      (eventEffect e currentCursor hasAuthoritativeBaseline).apply currentCursor := by
  unfold processTimelineSequencingGate eventEffect
  cases e.position with
  | none => rfl
  | some position =>
    cases hasAuthoritativeBaseline with
    | false => rfl
    | true => exact stored_gateAt currentCursor position

theorem positionEffect_valid (position : TimelinePosition) (currentCursor : Option TimelineCursor) :
    (positionEffect position currentCursor).Valid currentCursor := by
  have hspec := classifySessionTimelineSeq_spec currentCursor position
  have hsingle : (CoverageEffect.replace position.epoch
      (some (TimelinePosition.loadedRange position))).Valid currentCursor := by
    simp [CoverageEffect.Valid, TimelinePosition.loadedRange]
  unfold positionEffect
  cases hdecision : classifySessionTimelineSeq currentCursor position with
  | init => exact hsingle
  | dropStale => trivial
  | gap => trivial
  | accept =>
    rw [hdecision] at hspec
    obtain ⟨current, rfl, _, hnext⟩ := hspec
    exact ⟨current, rfl, hnext.le, show current.endSeq < position.seq by omega⟩
  | dropEpoch =>
    by_cases hfirst : position.seq = 1
    · simp only [if_pos hfirst]
      exact hsingle
    · simp only [if_neg hfirst]
      trivial

theorem eventEffect_valid (e : AgentStreamReducerEvent) (currentCursor : Option TimelineCursor)
    (hasAuthoritativeBaseline : Bool) :
    (eventEffect e currentCursor hasAuthoritativeBaseline).Valid currentCursor := by
  unfold eventEffect
  cases e.position with
  | none => trivial
  | some position =>
    cases hasAuthoritativeBaseline with
    | false => trivial
    | true => exact positionEffect_valid position currentCursor

end Orqara.Session
