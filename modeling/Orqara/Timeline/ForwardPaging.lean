import Orqara.Library.Walk
import Orqara.Timeline.Partition

/-!
# Paging forward

Pages after a cursor are chosen by first source seq and ordered by display
position; the cursor they return moves over the rows that the chosen entries
cover without a gap.
-/

namespace Orqara.Timeline

open Ranges ProjectedEntryCandidate List Option

/-- Rows whose seqs follow one another without a gap. -/
def ConsecutiveRows (rows : List AgentTimelineRow) : Prop :=
  rows.IsChain fun a b => b.seq = a.seq + 1

instance (rows : List AgentTimelineRow) : Decidable (ConsecutiveRows rows) :=
  inferInstanceAs (Decidable (rows.IsChain _))

variable {rows : List AgentTimelineRow} {entry : TimelineProjectionEntry} {startSeq : ℤ}
  {entries : List TimelineProjectionEntry} {maxSeq : ℤ}

theorem ConsecutiveRows.increasing (h : ConsecutiveRows rows) :
    rows.Pairwise fun a b => a.seq < b.seq := by
  have hchain : rows.IsChain fun a b => a.seq < b.seq :=
    h.imp fun a b hab => by omega
  exact hchain.pairwise

/-- Every seq between two rows is the seq of a row. -/
theorem ConsecutiveRows.exists_row (h : ConsecutiveRows rows) :
    ∀ {first last : AgentTimelineRow}, rows.head? = some first → last ∈ rows →
      ∀ {seq : ℤ}, first.seq ≤ seq → seq ≤ last.seq → ∃ row ∈ rows, row.seq = seq := by
  induction rows with
  | nil => simp
  | cons row rest ih =>
    intro first last hfirst hlast seq hlo hhi
    obtain rfl : row = first := by simpa using hfirst
    by_cases heq : row.seq = seq
    · exact ⟨row, by simp, heq⟩
    · have hrest : last ∈ rest := by
        rcases mem_cons.mp hlast with rfl | hrest
        · omega
        · exact hrest
      obtain ⟨next, rest', rfl⟩ := exists_cons_of_ne_nil (ne_nil_of_mem hrest)
      obtain ⟨hnext, htail⟩ := isChain_cons_cons.mp h
      obtain ⟨found, hfound, hseq⟩ := ih htail rfl hrest (by omega) hhi
      exact ⟨found, mem_cons_of_mem _ hfound, hseq⟩

/-! ## The first source seq of an entry -/

theorem firstSourceSeqInRange_some {endSeq seq : ℤ}
    (h : firstSourceSeqInRange entry startSeq endSeq = some seq) :
    startSeq ≤ seq ∧ entry.Owns seq := by
  obtain ⟨range, hrange, hif⟩ := exists_of_findSome?_eq_some h
  simp only [ite_none_right_eq_some, Option.some.injEq] at hif
  obtain ⟨hle, rfl⟩ := hif
  exact ⟨le_max_right _ _, range, hrange, le_max_left _ _, by omega⟩

/-- An entry that owns the start of the interval has it as its first source seq
there: the ranges before the one that holds it end too early. -/
theorem firstSourceSeqInRange_of_owns {endSeq : ℤ} (hnormal : NormalRanges entry.sourceSeqRanges)
    (ho : entry.Owns startSeq) (hle : startSeq ≤ endSeq) :
    firstSourceSeqInRange entry startSeq endSeq = some startSeq := by
  unfold TimelineProjectionEntry.Owns at ho
  unfold firstSourceSeqInRange
  generalize entry.sourceSeqRanges = ranges at hnormal ho
  induction ranges with
  | nil => exact absurd ho not_covers_nil
  | cons range ranges ih =>
    have hgap := (pairwise_cons.mp hnormal.gaps).1
    have htail : NormalRanges ranges :=
      ⟨fun r hr => hnormal.nonempty r (mem_cons_of_mem _ hr),
        (pairwise_cons.mp hnormal.gaps).2⟩
    obtain ⟨owner, howner, hlo, hhi⟩ := ho
    rw [findSome?_cons]
    rcases mem_cons.mp howner with rfl | hrest
    · rw [if_pos (by omega)]
      simp [max_eq_right hlo]
    · have := hgap owner hrest
      rw [if_neg (by omega)]
      exact ih htail ⟨owner, hrest, hlo, hhi⟩

/-! ## The selected entries -/

theorem mem_eligibleAfter {candidate : ProjectedEntryCandidate}
    (h : candidate ∈ eligibleAfter entries startSeq maxSeq) :
    candidate.entry ∈ entries ∧ startSeq ≤ candidate.firstSourceSeq ∧
      candidate.entry.Owns candidate.firstSourceSeq := by
  obtain ⟨⟨entry, index⟩, hmem, hmap⟩ := mem_filterMap.mp h
  obtain ⟨seq, hseq, rfl⟩ := map_eq_some_iff.mp hmap
  exact ⟨fst_mem_of_mem_zipIdx hmem, firstSourceSeqInRange_some hseq⟩

theorem exists_mem_eligibleAfter (hentry : entry ∈ entries) (hnormal : NormalRanges entry.sourceSeqRanges)
    (ho : entry.Owns startSeq) (hle : startSeq ≤ maxSeq) :
    ∃ candidate ∈ eligibleAfter entries startSeq maxSeq, candidate.firstSourceSeq = startSeq := by
  obtain ⟨index, hindex⟩ := mem_iff_getElem?.mp hentry
  have hmem : (entry, index) ∈ entries.zipIdx := mk_mem_zipIdx_iff_getElem?.mpr hindex
  refine ⟨⟨entry, index, startSeq⟩, mem_filterMap.mpr ⟨(entry, index), hmem, ?_⟩, rfl⟩
  simp [firstSourceSeqInRange_of_owns hnormal ho hle]

instance : Std.Total ProjectedEntryCandidate.bySource where
  total left right := by
    unfold ProjectedEntryCandidate.bySource
    omega

instance : IsTrans ProjectedEntryCandidate ProjectedEntryCandidate.bySource where
  trans a b c hab hbc := by
    unfold ProjectedEntryCandidate.bySource at *
    omega

instance : Std.Total TimelineSeqRange.byStart where
  total left right := by
    unfold TimelineSeqRange.byStart
    omega

instance : IsTrans TimelineSeqRange TimelineSeqRange.byStart where
  trans a b c hab hbc := by
    unfold TimelineSeqRange.byStart at *
    omega

/-- The first candidate by source seq is one that starts the page. -/
theorem head_insertionSort_bySource (candidates : List ProjectedEntryCandidate)
    (hge : ∀ c ∈ candidates, startSeq ≤ c.firstSourceSeq)
    (hex : ∃ c ∈ candidates, c.firstSourceSeq = startSeq) :
    ∃ first rest, candidates.insertionSort bySource = first :: rest ∧
      first ∈ candidates ∧ first.firstSourceSeq = startSeq := by
  obtain ⟨c, hc, hstart⟩ := hex
  have hsorted := pairwise_insertionSort bySource candidates
  have hmem : ∀ x, x ∈ candidates.insertionSort bySource ↔
      x ∈ candidates := fun x => mem_insertionSort _
  cases hsort : candidates.insertionSort bySource with
  | nil =>
    have := (hmem c).mpr hc
    simp [hsort] at this
  | cons first rest =>
    rw [hsort] at hsorted
    have hfirst : first ∈ candidates := (hmem first).mp (by simp [hsort])
    refine ⟨first, rest, rfl, hfirst, le_antisymm ?_ (hge first hfirst)⟩
    have hc' := (hmem c).mpr hc
    rw [hsort] at hc'
    rcases mem_cons.mp hc' with rfl | hrest
    · exact hstart.le
    · have := (pairwise_cons.mp hsorted).1 c hrest
      unfold bySource at this
      omega

/-! ## The covered rows -/

theorem mem_of_mem_dropWhile {α : Type*} {p : α → Bool} {xs : List α} {x : α}
    (h : x ∈ xs.dropWhile p) : x ∈ xs := (List.dropWhile_suffix p).subset h

theorem mem_dropWhile_of_not {α : Type*} {p : α → Bool} {xs : List α} {x : α} (h : x ∈ xs)
    (hp : ¬ p x) : x ∈ xs.dropWhile p := by
  rw [← takeWhile_append_dropWhile (p := p) (l := xs)] at h
  rcases mem_append.mp h with htake | hdrop
  · exact absurd (mem_takeWhile_imp htake) hp
  · exact hdrop

/-- The cursor moves only over seqs that some range covers, and never past the
newest seq. -/
theorem advanceCoveredRows_covered (startSeq : ℤ) (rows : List AgentTimelineRow) :
    ∀ (endSeq : ℤ) (ranges : List TimelineSeqRange), endSeq ≤ maxSeq →
      endSeq ≤ advanceCoveredRows startSeq maxSeq rows endSeq ranges ∧
      advanceCoveredRows startSeq maxSeq rows endSeq ranges ≤ maxSeq ∧
      ∀ seq, endSeq < seq → seq ≤ advanceCoveredRows startSeq maxSeq rows endSeq ranges →
        RangesCover ranges seq := by
  induction rows with
  | nil =>
    intro endSeq ranges hmax
    exact ⟨le_rfl, hmax, fun seq hlt hle => absurd hle (not_le.mpr hlt)⟩
  | cons row rows ih =>
    intro endSeq ranges hmax
    have hstop : endSeq ≤ endSeq ∧ endSeq ≤ maxSeq ∧
        ∀ seq, endSeq < seq → seq ≤ endSeq → RangesCover ranges seq :=
      ⟨le_rfl, hmax, fun seq hlt hle => absurd hle (not_le.mpr hlt)⟩
    unfold advanceCoveredRows
    split_ifs with hbefore hbreak
    · exact ih endSeq ranges hmax
    · exact hstop
    · dsimp only
      split
      · exact hstop
      · rename_i range hhead
        split_ifs with hgap
        · exact hstop
        · obtain ⟨hle, hle', hcovers⟩ := ih row.seq
            (ranges.dropWhile fun range => range.endSeq < row.seq) (by omega)
          refine ⟨by omega, hle', fun seq hlt hseq => ?_⟩
          by_cases hrow : seq ≤ row.seq
          · exact ⟨range, mem_of_mem_dropWhile (mem_of_mem_head? hhead), by omega⟩
          · obtain ⟨r, hr, h⟩ := hcovers seq (by omega) hseq
            exact ⟨r, mem_of_mem_dropWhile hr, h⟩

/-- The cursor reaches the start of the page when a range holds it: the rows
before the start are skipped, and the sort puts no range past the start first. -/
theorem le_advanceCoveredRows {ranges : List TimelineSeqRange} (hmax : startSeq ≤ maxSeq)
    (hsorted : ranges.Pairwise TimelineSeqRange.byStart) (hcover : RangesCover ranges startSeq)
    (hrows : ConsecutiveRows rows) (hrow : ∃ row ∈ rows, row.seq = startSeq) :
    startSeq ≤ advanceCoveredRows startSeq maxSeq rows (startSeq - 1) ranges := by
  induction rows with
  | nil => simp at hrow
  | cons row rows ih =>
    obtain ⟨found, hfound, hseq⟩ := hrow
    unfold advanceCoveredRows
    split_ifs with hbefore hbreak
    · refine ih hrows.of_cons ⟨found, ?_, hseq⟩
      rcases mem_cons.mp hfound with rfl | hrest
      · omega
      · exact hrest
    · exfalso
      rcases mem_cons.mp hfound with rfl | hrest
      · omega
      · have := (pairwise_cons.mp hrows.increasing).1 found hrest
        omega
    · have hstart : row.seq = startSeq := by omega
      obtain ⟨owner, howner, hlo, hhi⟩ := hcover
      have hkept : owner ∈ ranges.dropWhile fun range => decide (range.endSeq < row.seq) :=
        mem_dropWhile_of_not howner (by simp; omega)
      obtain ⟨first, rest, hdrop⟩ := exists_cons_of_ne_nil (ne_nil_of_mem hkept)
      have hfirst : first.startSeq ≤ startSeq := by
        have hsorted' := hsorted.sublist
          (dropWhile_sublist fun range => decide (range.endSeq < row.seq))
        rw [hdrop] at hsorted' hkept
        rcases mem_cons.mp hkept with rfl | hrest
        · exact hlo
        · have := (pairwise_cons.mp hsorted').1 owner hrest
          unfold TimelineSeqRange.byStart at this
          omega
      have hlast : ¬ first.endSeq < row.seq := by
        have := head?_dropWhile_not (fun range => decide (range.endSeq < row.seq)) ranges
        simpa [hdrop] using this
      simp only [hdrop, head?_cons]
      rw [if_neg (by omega)]
      have := (advanceCoveredRows_covered startSeq rows row.seq (first :: rest)
        (show row.seq ≤ maxSeq by omega)).1
      omega

/-! ## The page -/

/-- The page a client with a cursor asks for. -/
def pageAfter (rows : List AgentTimelineRow) (limit : ℚ) (cursorSeq : ℤ) :
    ProjectedTimelinePageSelection :=
  selectProjectedTimelinePage ⟨rows, none, .after, some cursorSeq, some limit⟩

theorem one_le_floorLimit {limit : ℚ} (h : 1 ≤ limit) : 1 ≤ floorLimit limit := by
  have : (1 : ℤ) ≤ ⌊limit⌋ := Int.le_floor.mpr (by exact_mod_cast h)
  unfold floorLimit
  omega

theorem exists_of_getTimelineBounds {minSeq : ℤ} (h : getTimelineBounds rows = some ⟨minSeq, maxSeq⟩) :
    ∃ first last, rows.head? = some first ∧ rows.getLast? = some last ∧
      first.seq = minSeq ∧ last.seq = maxSeq := by
  unfold getTimelineBounds at h
  split at h
  · rename_i first last hfirst hlast
    obtain ⟨hmin, hmax⟩ := TimelineBounds.mk.inj (some.inj h)
    exact ⟨first, last, hfirst, hlast, hmin, hmax⟩
  · simp at h

section Page

variable {rows : List AgentTimelineRow} {minSeq maxSeq : ℤ} (hrows : ConsecutiveRows rows)
  (hbounds : getTimelineBounds rows = some ⟨minSeq, maxSeq⟩)

include hrows hbounds

theorem exists_row_iff {seq : ℤ} :
    (∃ row ∈ rows, row.seq = seq) ↔ minSeq ≤ seq ∧ seq ≤ maxSeq := by
  obtain ⟨first, last, hfirst, hlast, rfl, rfl⟩ := exists_of_getTimelineBounds hbounds
  constructor
  · rintro ⟨row, hrow, rfl⟩
    obtain ⟨rest, rfl⟩ := head?_eq_some_iff.mp hfirst
    obtain ⟨front, hfront⟩ := getLast?_eq_some_iff.mp hlast
    have hsorted := hrows.increasing
    constructor
    · rcases mem_cons.mp hrow with rfl | hrest
      · exact le_rfl
      · exact ((pairwise_cons.mp hsorted).1 row hrest).le
    · rw [hfront] at hsorted hrow
      rcases mem_append.mp hrow with hin | hin
      · exact ((pairwise_append.mp hsorted).2.2 row hin last (by simp)).le
      · rw [mem_singleton.mp hin]
  · intro h
    exact hrows.exists_row hfirst (mem_of_mem_getLast? hlast) h.1 h.2

theorem minSeq_le_maxSeq : minSeq ≤ maxSeq := by
  obtain ⟨first, last, -, hlast, -, hmax⟩ := exists_of_getTimelineBounds hbounds
  exact ((exists_row_iff hrows hbounds).mp ⟨last, mem_of_mem_getLast? hlast, hmax⟩).1

theorem projected_length_ne_zero : (projectTimelineRows rows .projected).length ≠ 0 := by
  obtain ⟨row, hrow, -⟩ := (exists_row_iff hrows hbounds).mpr
    ⟨le_rfl, minSeq_le_maxSeq hrows hbounds⟩
  obtain ⟨e, he, -⟩ := projected_exists_owner hrows.increasing hrow
  exact fun h => by simp [length_eq_zero_iff.mp h] at he

/-- The entries of a page are entries of the projection; one of them owns the
seq right after the cursor. -/
theorem selectProjectedEntriesAfter_spec {startSeq : ℤ} {limit : ℕ} (hlimit : 1 ≤ limit)
    (hmin : minSeq ≤ startSeq) (hmax : startSeq ≤ maxSeq) :
    ∃ entries endSeq,
      selectProjectedEntriesAfter (projectTimelineRows rows .projected) rows startSeq maxSeq limit =
        (entries, some endSeq) ∧
      startSeq ≤ endSeq ∧ endSeq ≤ maxSeq ∧
      ∀ seq, startSeq ≤ seq → seq ≤ endSeq → ∃ e ∈ entries, e.Owns seq := by
  set projected := projectTimelineRows rows .projected with hprojected
  obtain ⟨row, hrow, hseq⟩ := (exists_row_iff hrows hbounds).mpr ⟨hmin, hmax⟩
  obtain ⟨owner, howner, howns⟩ := projected_exists_owner hrows.increasing hrow
  rw [hseq] at howns
  have hnormal := (projected_group hrows.increasing howner).normal
  obtain ⟨first, rest, hsort, hfirst, hstart⟩ :=
    head_insertionSort_bySource (eligibleAfter projected startSeq maxSeq)
      (fun c hc => (mem_eligibleAfter hc).2.1)
      (exists_mem_eligibleAfter howner hnormal howns hmax)
  obtain ⟨take, hlimit'⟩ : ∃ take, limit = take + 1 := ⟨limit - 1, by omega⟩
  have hselected : (if limit = 0 then first :: rest else (first :: rest).take limit) =
      first :: rest.take take := by
    rw [if_neg (by omega), hlimit', take_succ_cons]
  set entries := ((first :: rest.take take).insertionSort byIndex).map
    (·.entry) with hentries
  have hmem : first.entry ∈ entries :=
    List.mem_map_of_mem ((mem_insertionSort _).mpr (by simp))
  set ranges := (entries.flatMap (·.sourceSeqRanges)).insertionSort TimelineSeqRange.byStart
    with hranges
  have hcovers : ∀ seq, RangesCover ranges seq → ∃ e ∈ entries, e.Owns seq := by
    rintro seq ⟨range, hrange, h⟩
    obtain ⟨e, he, hr⟩ := mem_flatMap.mp ((mem_insertionSort _).mp hrange)
    exact ⟨e, he, range, hr, h⟩
  have hcover : RangesCover ranges startSeq := by
    obtain ⟨range, hrange, h⟩ := (mem_eligibleAfter hfirst).2.2
    rw [hstart] at h
    exact ⟨range, (mem_insertionSort _).mpr (mem_flatMap.mpr ⟨_, hmem, hrange⟩), h⟩
  obtain ⟨-, hle, hall⟩ := advanceCoveredRows_covered startSeq rows (startSeq - 1) ranges
    (show startSeq - 1 ≤ maxSeq by omega)
  have hge := le_advanceCoveredRows hmax (pairwise_insertionSort _ _) hcover hrows
    ⟨row, hrow, hseq⟩
  refine ⟨entries, _, ?_, hge, hle, fun seq hlo hhi => hcovers seq (hall seq (by omega) hhi)⟩
  unfold selectProjectedEntriesAfter
  simp only [hsort, hselected]
  rw [if_neg (mt length_eq_zero_iff.mp (ne_nil_of_mem hmem)), if_pos hge]

/-- A page after a cursor that rows follow. -/
theorem pageAfter_spec {limit : ℚ} (hlimit : 1 ≤ limit) {cursorSeq : ℤ}
    (hmin : minSeq - 1 ≤ cursorSeq) (hmax : cursorSeq < maxSeq) :
    ∃ endSeq, (pageAfter rows limit cursorSeq).startSeq = some (cursorSeq + 1) ∧
      (pageAfter rows limit cursorSeq).endSeq = some endSeq ∧
      (pageAfter rows limit cursorSeq).hasNewer = decide (endSeq < maxSeq) ∧
      cursorSeq < endSeq ∧ endSeq ≤ maxSeq ∧
      ∀ seq, cursorSeq < seq → seq ≤ endSeq →
        ∃ e ∈ (pageAfter rows limit cursorSeq).entries, e.Owns seq := by
  have hstart : max minSeq (cursorSeq + 1) = cursorSeq + 1 := by omega
  obtain ⟨entries, endSeq, hsel, hlo, hhi, hall⟩ :=
    selectProjectedEntriesAfter_spec hrows hbounds (one_le_floorLimit hlimit)
      (show minSeq ≤ cursorSeq + 1 by omega) (by omega)
  have hpage : pageAfter rows limit cursorSeq =
      ⟨entries, some (cursorSeq + 1), some endSeq, decide (minSeq < cursorSeq + 1),
        decide (endSeq < maxSeq)⟩ := by
    simp only [pageAfter, selectProjectedTimelinePage, orElse_eq_orElse,
      orElse_none, hbounds, if_neg (projected_length_ne_zero hrows hbounds),
      getD_some, map_some, hstart, hsel, any_some]
  refine ⟨endSeq, ?_, ?_, ?_, by omega, hhi, fun seq h1 h2 => ?_⟩
  · rw [hpage]
  · rw [hpage]
  · rw [hpage]
  · rw [hpage]
    exact hall seq (by omega) h2

/-- A client that has every row gets an empty page. -/
theorem pageAfter_maxSeq (limit : ℚ) :
    pageAfter rows limit maxSeq = ⟨[], none, none, true, false⟩ := by
  have hle := minSeq_le_maxSeq hrows hbounds
  have hstart : max minSeq (maxSeq + 1) = maxSeq + 1 := by omega
  have heligible : eligibleAfter (projectTimelineRows rows .projected) (maxSeq + 1) maxSeq = [] := by
    refine filterMap_eq_nil_iff.mpr fun p _ => ?_
    rw [map_eq_none_iff]
    refine findSome?_eq_none_iff.mpr fun range _ => ?_
    rw [if_neg (by omega)]
  simp [pageAfter, selectProjectedTimelinePage, hbounds, selectProjectedEntriesAfter, hstart,
    heligible, projected_length_ne_zero hrows hbounds]
  omega

end Page

/-! ## The walk -/

/-- The pages a client fetches from a cursor on while there are newer rows,
each with its cursor. `fuel` bounds their number. -/
def forwardPages (rows : List AgentTimelineRow) (limit : ℚ) (fuel : ℕ) (cursorSeq : ℤ) :
    List (ℤ × ProjectedTimelinePageSelection) :=
  Walk.pages (pageAfter rows limit) (fun page => if page.hasNewer then page.endSeq else none)
    fuel cursorSeq

/-- The page is about the seq. -/
def ProjectedTimelinePageSelection.Spans (page : ProjectedTimelinePageSelection) (seq : ℤ) :
    Prop :=
  ∃ startSeq endSeq, page.startSeq = some startSeq ∧ page.endSeq = some endSeq ∧
    startSeq ≤ seq ∧ seq ≤ endSeq

/-- What a client that wants the rows after `cursorSeq` relies on. -/
structure CompleteWalk (maxSeq cursorSeq : ℤ)
    (pages : List (ℤ × ProjectedTimelinePageSelection)) : Prop where
  progress : ∀ p ∈ pages, p.1 < maxSeq → ∃ endSeq, p.2.endSeq = some endSeq ∧ p.1 < endSeq
  stops : ∃ last, pages.getLast? = some last ∧ last.2.hasNewer = false ∧
    (cursorSeq < maxSeq → last.2.endSeq = some maxSeq)
  short : cursorSeq < maxSeq → (pages.length : ℤ) ≤ maxSeq - cursorSeq
  caughtUp : cursorSeq = maxSeq → ∃ page, pages = [(cursorSeq, page)] ∧ page.entries = []
  reached : ∀ seq, cursorSeq < seq → seq ≤ maxSeq → ∃ p ∈ pages, p.2.Spans seq
  covered : ∀ p ∈ pages, ∀ seq, p.2.Spans seq → ∃ e ∈ p.2.entries, e.Owns seq

section Walk

variable {rows : List AgentTimelineRow} {minSeq maxSeq : ℤ} (hrows : ConsecutiveRows rows)
  (hbounds : getTimelineBounds rows = some ⟨minSeq, maxSeq⟩) {limit : ℚ} (hlimit : 1 ≤ limit)

include hrows hbounds hlimit

theorem completeWalk_stop {cursorSeq : ℤ} (hmin : minSeq - 1 ≤ cursorSeq)
    (hmax : cursorSeq ≤ maxSeq)
    (hstop : (if (pageAfter rows limit cursorSeq).hasNewer then
      (pageAfter rows limit cursorSeq).endSeq else none) = none) :
    CompleteWalk maxSeq cursorSeq [(cursorSeq, pageAfter rows limit cursorSeq)] := by
  rcases hmax.lt_or_eq with hlt | rfl
  · obtain ⟨endSeq, hstart, hend, hnewer, hgt, hle, hall⟩ :=
      pageAfter_spec hrows hbounds hlimit hmin hlt
    obtain rfl : endSeq = maxSeq := by
      by_contra hne
      simp [hend, hnewer] at hstop
      omega
    refine ⟨?_, ⟨_, rfl, by simp [hnewer], fun _ => hend⟩, ?_, ?_, ?_, ?_⟩
    · simp [hend, hgt]
    · simp
      omega
    · omega
    · intro seq hlo hhi
      exact ⟨_, mem_singleton_self _, _, _, hstart, hend, by omega, hhi⟩
    · rintro p hp seq ⟨a, b, ha, hb, hlo, hhi⟩
      obtain rfl := mem_singleton.mp hp
      rw [hstart] at ha
      rw [hend] at hb
      obtain rfl := some.inj ha
      obtain rfl := some.inj hb
      exact hall seq (by omega) hhi
  · have hpage := pageAfter_maxSeq hrows hbounds limit
    rw [hpage]
    refine ⟨by simp, ⟨_, rfl, rfl, by simp⟩, by simp, fun _ => ⟨_, rfl, rfl⟩, ?_, ?_⟩
    · intro seq hlo hhi
      omega
    · rintro p hp seq ⟨a, b, ha, -⟩
      obtain rfl := mem_singleton.mp hp
      simp at ha

theorem completeWalk_step {cursorSeq cursorSeq' : ℤ} (hmin : minSeq - 1 ≤ cursorSeq)
    (hmax : cursorSeq ≤ maxSeq)
    (hnext : (if (pageAfter rows limit cursorSeq).hasNewer then
      (pageAfter rows limit cursorSeq).endSeq else none) = some cursorSeq') :
    cursorSeq < cursorSeq' ∧ cursorSeq' < maxSeq ∧
    ∀ pages, CompleteWalk maxSeq cursorSeq' pages →
      CompleteWalk maxSeq cursorSeq ((cursorSeq, pageAfter rows limit cursorSeq) :: pages) := by
  rcases hmax.lt_or_eq with hlt | rfl
  · obtain ⟨endSeq, hstart, hend, hnewer, hgt, hle, hall⟩ :=
      pageAfter_spec hrows hbounds hlimit hmin hlt
    have hend' : endSeq < maxSeq ∧ endSeq = cursorSeq' := by
      simpa [hend, hnewer] using hnext
    obtain ⟨hlt', rfl⟩ := hend'
    refine ⟨hgt, hlt', fun pages h => ⟨?_, ?_, ?_, ?_, ?_, ?_⟩⟩
    · intro p hp hp'
      rcases mem_cons.mp hp with rfl | hp
      · exact ⟨endSeq, hend, hgt⟩
      · exact h.progress p hp hp'
    · obtain ⟨last, hlast, hdone, hmaxSeq⟩ := h.stops
      refine ⟨last, ?_, hdone, fun _ => hmaxSeq hlt'⟩
      rw [getLast?_cons, hlast]
      rfl
    · intro _
      have := h.short hlt'
      push_cast [length_cons]
      omega
    · omega
    · intro seq hlo hhi
      by_cases hseq : seq ≤ endSeq
      · exact ⟨_, mem_cons_self .., _, _, hstart, hend, by omega, hseq⟩
      · obtain ⟨p, hp, hspan⟩ := h.reached seq (by omega) hhi
        exact ⟨p, mem_cons_of_mem _ hp, hspan⟩
    · intro p hp seq hspan
      rcases mem_cons.mp hp with rfl | hp
      · obtain ⟨a, b, ha, hb, hlo, hhi⟩ := hspan
        rw [hstart] at ha
        rw [hend] at hb
        obtain rfl := some.inj ha
        obtain rfl := some.inj hb
        exact hall seq (by omega) hhi
      · exact h.covered p hp seq hspan
  · simp [pageAfter_maxSeq hrows hbounds limit] at hnext

end Walk

/-- A client that pages forward with any limit gets every row, and comes to the
newest one. -/
theorem forwardPages_complete {rows : List AgentTimelineRow} {minSeq maxSeq : ℤ}
    (hrows : ConsecutiveRows rows) (hbounds : getTimelineBounds rows = some ⟨minSeq, maxSeq⟩)
    {limit : ℚ} (hlimit : 1 ≤ limit) {cursorSeq : ℤ} (hmin : minSeq - 1 ≤ cursorSeq)
    (hmax : cursorSeq ≤ maxSeq) {fuel : ℕ} (hfuel : (maxSeq - cursorSeq).toNat < fuel) :
    CompleteWalk maxSeq cursorSeq (forwardPages rows limit fuel cursorSeq) := by
  refine Walk.pages_spec (fun c => minSeq - 1 ≤ c ∧ c ≤ maxSeq)
    (CompleteWalk maxSeq) (fun c => (maxSeq - c).toNat) ?_ ?_ ?_ fuel cursorSeq
    ⟨hmin, hmax⟩ hfuel
  · intro c hc hstop
    exact completeWalk_stop hrows hbounds hlimit hc.1 hc.2 hstop
  · intro c c' pages hc hnext h
    exact (completeWalk_step hrows hbounds hlimit hc.1 hc.2 hnext).2.2 pages h
  · intro c c' hc hnext
    obtain ⟨hgt, hlt, -⟩ := completeWalk_step hrows hbounds hlimit hc.1 hc.2 hnext
    exact ⟨by omega, by omega⟩

theorem forwardPages_complete_interleaved :
    CompleteWalk 5 0 (forwardPages interleavedRows 1 6 0) :=
  forwardPages_complete (by decide)
    (show getTimelineBounds interleavedRows = some ⟨1, 5⟩ by decide) le_rfl (by decide)
    (by decide) (by decide)

/-- A cursor at the newest seq still costs a page, which has no `endSeq`. -/
theorem forwardPages_caughtUp :
    ConsecutiveRows interleavedRows ∧ getTimelineBounds interleavedRows = some ⟨1, 5⟩ ∧
      ¬ ((forwardPages interleavedRows 1 6 5).length : ℤ) ≤ 5 - 5 ∧
      (forwardPages interleavedRows 1 6 5).map (·.2.endSeq) = [none] := by
  decide

end Orqara.Timeline
