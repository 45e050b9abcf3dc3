import Orqara.Timeline.BackwardPaging

/-!
# The window is closed

The window of a selection grows until the entries that meet it lie in it. The rows of the window are
then the rows of the selected entries, each of one entry.
-/

namespace Orqara.Timeline

variable {entries : List TimelineProjectionEntry}

theorem computeWindowBounds_maxSeq {bounds : TimelineBounds}
    (h : computeWindowBounds entries = some bounds) :
    ∃ e ∈ entries, bounds.maxSeq = e.seqEnd := by
  induction entries using List.reverseRecOn generalizing bounds with
  | nil => contradiction
  | append_singleton entries entry ih =>
    rw [computeWindowBounds_concat] at h
    cases hbefore : computeWindowBounds entries with
    | none =>
      rw [hbefore] at h
      exact ⟨entry, by simp, by rw [← Option.some.inj h]⟩
    | some before =>
      rw [hbefore] at h
      obtain ⟨last, hlast, hmax⟩ := ih hbefore
      rw [← Option.some.inj h]
      by_cases hle : before.maxSeq ≤ entry.seqEnd
      · exact ⟨entry, by simp, max_eq_right hle⟩
      · refine ⟨last, List.mem_append_left _ hlast, ?_⟩
        simp only
        omega

/-- The seqs that the source ranges of entries list. -/
def sourceSeqs (entries : List TimelineProjectionEntry) : List ℤ :=
  entries.flatMap fun entry => entry.sourceSeqRanges.flatMap (·.seqs)

theorem mem_sourceSeqs {seq : ℤ} :
    seq ∈ sourceSeqs entries ↔ ∃ e ∈ entries, e.Owns seq := by
  simp [sourceSeqs, TimelineProjectionEntry.Owns, Ranges.Covers, TimelineSeqRange.mem_seqs]

/-- A selection that is the part of the timeline between two seqs. -/
structure ClosedWindow (rows : List AgentTimelineRow) (selection : ProjectedWindowSelection)
    (minSeq maxSeq : ℤ) : Prop where
  bounds : selection.minSeq = some minSeq ∧ selection.maxSeq = some maxSeq ∧ minSeq ≤ maxSeq
  /-- an entry whose span meets the window lies in it -/
  closed : ∀ e ∈ projectTimelineRows rows .projected, e.seqStart ≤ maxSeq → minSeq ≤ e.seqEnd →
    minSeq ≤ e.seqStart ∧ e.seqEnd ≤ maxSeq
  entries : selection.projectedEntries = (projectTimelineRows rows .projected).filter
    fun e => e.seqStart ≤ maxSeq ∧ minSeq ≤ e.seqEnd
  rows : selection.selectedRows = rows.filter fun row => minSeq ≤ row.seq ∧ row.seq ≤ maxSeq
  /-- each seq of the window is listed once -/
  covered : (sourceSeqs selection.projectedEntries).Perm (TimelineSeqRange.seqs ⟨minSeq, maxSeq⟩)

section Rows

variable {rows : List AgentTimelineRow}

/-- No two entries list a seq, and no entry lists one twice. -/
theorem nodup_sourceSeqs (hrows : rows.Pairwise fun a b => a.seq < b.seq)
    {entries : List TimelineProjectionEntry}
    (hentries : entries.Sublist (projectTimelineRows rows .projected)) :
    (sourceSeqs entries).Nodup := by
  unfold sourceSeqs
  rw [List.nodup_flatMap]
  constructor
  · intro e he
    have hnormal := (projected_group hrows (hentries.subset he)).normal
    exact (normalRanges_seqs_sorted hnormal).imp fun hlt => hlt.ne
  · have hsorted := (projected_seqStart_increasing hrows).sublist hentries
    refine hsorted.imp_of_mem ?_
    intro a b ha hb hlt seq hseq hseq'
    have howns : a.Owns seq := by
      have hmem : seq ∈ sourceSeqs [a] := by simpa [sourceSeqs] using hseq
      simpa using mem_sourceSeqs.mp hmem
    have howns' : b.Owns seq := by
      have hmem : seq ∈ sourceSeqs [b] := by simpa [sourceSeqs] using hseq'
      simpa using mem_sourceSeqs.mp hmem
    have heq := projected_owner_unique hrows (hentries.subset ha) (hentries.subset hb) howns howns'
    rw [heq] at hlt
    exact lt_irrefl _ hlt

/-- The seqs of the entries that meet a closed window are those of the window. -/
theorem sourceSeqs_window (hrows : ConsecutiveRows rows) {minSeq maxSeq : ℤ}
    {first last : TimelineProjectionEntry} (hfirst : first ∈ projectTimelineRows rows .projected)
    (hmin : minSeq = first.seqStart) (hlast : last ∈ projectTimelineRows rows .projected)
    (hmax : maxSeq = last.seqEnd)
    (hclosed : ∀ e ∈ projectTimelineRows rows .projected, e.seqStart ≤ maxSeq → minSeq ≤ e.seqEnd →
      minSeq ≤ e.seqStart ∧ e.seqEnd ≤ maxSeq) :
    (sourceSeqs ((projectTimelineRows rows .projected).filter
      fun e => e.seqStart ≤ maxSeq ∧ minSeq ≤ e.seqEnd)).Perm
        (TimelineSeqRange.seqs ⟨minSeq, maxSeq⟩) := by
  have hincreasing := hrows.increasing
  have hnodup : (TimelineSeqRange.seqs ⟨minSeq, maxSeq⟩).Nodup :=
    (TimelineSeqRange.seqs_sorted _).imp fun hlt => hlt.ne
  apply (List.perm_ext_iff_of_nodup (nodup_sourceSeqs hincreasing List.filter_sublist) hnodup).mpr
  intro seq
  rw [mem_sourceSeqs, TimelineSeqRange.mem_seqs]
  constructor
  · rintro ⟨e, he, howns⟩
    obtain ⟨hmem, hmeets⟩ := List.mem_filter.mp he
    have hinside := hclosed e hmem (of_decide_eq_true hmeets).1 (of_decide_eq_true hmeets).2
    have hlow := (projected_seqStart_isLeast hincreasing hmem).2 howns
    have hhigh := (projected_seqEnd_isGreatest hincreasing hmem).2 howns
    simp only
    omega
  · rintro ⟨hlow, hhigh⟩
    -- the ends of the window are seqs of rows, and the rows between them have every seq
    obtain ⟨lowRow, hlowRow, hlowSeq⟩ := projected_owned_row hincreasing hfirst
      (projected_seqStart_isLeast hincreasing hfirst).1
    obtain ⟨highRow, hhighRow, hhighSeq⟩ := projected_owned_row hincreasing hlast
      (projected_seqEnd_isGreatest hincreasing hlast).1
    obtain ⟨head, rest, rfl⟩ := List.exists_cons_of_ne_nil (List.ne_nil_of_mem hlowRow)
    have hhead : head.seq ≤ lowRow.seq := by
      rcases List.mem_cons.mp hlowRow with rfl | hmem
      · exact le_rfl
      · exact ((List.pairwise_cons.mp hincreasing).1 lowRow hmem).le
    simp only at hlow hhigh
    have hbetween : head.seq ≤ seq ∧ seq ≤ highRow.seq := by omega
    obtain ⟨row, hrow, rfl⟩ := hrows.exists_row rfl hhighRow hbetween.1 hbetween.2
    obtain ⟨e, he, howns⟩ := projected_exists_owner hincreasing hrow
    have hstart := (projected_seqStart_isLeast hincreasing he).2 howns
    have hend := (projected_seqEnd_isGreatest hincreasing he).2 howns
    refine ⟨e, List.mem_filter.mpr ⟨he, decide_eq_true ?_⟩, howns⟩
    omega

/-- The entries that a selection starts from. -/
def firstSelected (projectedAll : List TimelineProjectionEntry) (direction : TimelineLimitDirection)
    (limit : ℕ) : List TimelineProjectionEntry :=
  if limit = 0 ∨ projectedAll.length ≤ limit then projectedAll
  else if direction = .after then projectedAll.take limit
  else projectedAll.drop (projectedAll.length - limit)

theorem length_firstSelected {projectedAll : List TimelineProjectionEntry} {limit : ℕ}
    (hlimit : 1 ≤ limit) (direction : TimelineLimitDirection) :
    (firstSelected projectedAll direction limit).length = min limit projectedAll.length := by
  unfold firstSelected
  split_ifs with hall hafter
  · omega
  · rw [List.length_take]
  · rw [List.length_drop]
    omega

theorem firstSelected_sublist (projectedAll : List TimelineProjectionEntry)
    (direction : TimelineLimitDirection) (limit : ℕ) :
    (firstSelected projectedAll direction limit).Sublist projectedAll := by
  unfold firstSelected
  split_ifs with hall hafter
  · exact .refl _
  · exact List.take_sublist ..
  · exact List.drop_sublist ..

/-- A selection is a part of the timeline between two seqs that no entry outside meets, with each of
its seqs in one entry once, and has the entries that were asked for. Without rows it is empty. -/
theorem selectTimelineWindow_closed (hrows : ConsecutiveRows rows)
    (direction : TimelineLimitDirection) {limit : ℚ} (hlimit : 1 ≤ limit) :
    ((rows = [] ∧ selectTimelineWindowByProjectedLimit rows direction limit = ⟨[], [], none, none⟩) ∨
      ∃ minSeq maxSeq, ClosedWindow rows (selectTimelineWindowByProjectedLimit rows direction limit)
        minSeq maxSeq) ∧
    ∀ count : ℕ, count ≤ limit → min count (projectTimelineRows rows .projected).length ≤
      (selectTimelineWindowByProjectedLimit rows direction limit).projectedEntries.length := by
  have hincreasing := hrows.increasing
  have hspan : ∀ e ∈ projectTimelineRows rows .projected, e.seqStart ≤ e.seqEnd := fun e he =>
    projected_seqStart_le_seqEnd hincreasing he
  have hfloor := one_le_floorLimit hlimit
  by_cases hnone : (projectTimelineRows rows .projected).length = 0
  · have hselection : selectTimelineWindowByProjectedLimit rows direction limit =
        ⟨[], [], none, none⟩ := by
      simp only [selectTimelineWindowByProjectedLimit, hnone, if_true]
    refine ⟨.inl ⟨?_, hselection⟩, ?_⟩
    · by_contra hne
      obtain ⟨row, rest, rfl⟩ := List.exists_cons_of_ne_nil hne
      have hrow : row ∈ row :: rest := List.mem_cons_self
      obtain ⟨e, he, -⟩ := projected_exists_owner hincreasing hrow
      rw [List.length_eq_zero_iff.mp hnone] at he
      exact List.not_mem_nil he
    · intro count _
      rw [hnone, Nat.min_zero]
      exact Nat.zero_le _
  · set projected := projectTimelineRows rows .projected with hprojected
    have hlength : (firstSelected projected direction (floorLimit limit)).length =
        min (floorLimit limit) projected.length := length_firstSelected hfloor direction
    have hsublist := firstSelected_sublist projected direction (floorLimit limit)
    have hstart : (firstSelected projected direction (floorLimit limit)).length ≠ 0 := by omega
    obtain ⟨final, hexpand, hgrow, hfix⟩ := expandWindow_spec hspan (projected.length + 1)
      (firstSelected projected direction (floorLimit limit)) hsublist (by omega)
    have hfinal : final ≠ [] := by
      intro hempty
      have hle := hgrow.length_le
      rw [hempty, List.length_nil] at hle
      omega
    obtain ⟨bounds, hbounds, hall, first, hfirst, hmin⟩ := computeWindowBounds_spec hfinal
    obtain ⟨last, hlast, hmax⟩ := computeWindowBounds_maxSeq hbounds
    have hselection : selectTimelineWindowByProjectedLimit rows direction limit =
        { projectedEntries := final
          selectedRows := rows.filter fun row => bounds.minSeq ≤ row.seq ∧ row.seq ≤ bounds.maxSeq
          minSeq := some bounds.minSeq
          maxSeq := some bounds.maxSeq } := by
      unfold firstSelected at hstart hexpand
      simp only [selectTimelineWindowByProjectedLimit, ← hprojected, if_neg hnone, if_neg hstart,
        hexpand, hbounds, Option.any_some, Option.map_some]
    rw [hbounds] at hfix
    have hentries : final = projected.filter
        fun e => e.seqStart ≤ bounds.maxSeq ∧ bounds.minSeq ≤ e.seqEnd := hfix
    have hmem : ∀ e ∈ final, e ∈ projected := fun e he => by
      rw [hentries] at he
      exact (List.mem_filter.mp he).1
    have hclosed : ∀ e ∈ projected, e.seqStart ≤ bounds.maxSeq → bounds.minSeq ≤ e.seqEnd →
        bounds.minSeq ≤ e.seqStart ∧ e.seqEnd ≤ bounds.maxSeq := by
      intro e he hlow hhigh
      apply hall
      rw [hentries]
      exact List.mem_filter.mpr ⟨he, decide_eq_true ⟨hlow, hhigh⟩⟩
    have hcovered := sourceSeqs_window hrows (hmem first hfirst) hmin (hmem last hlast) hmax hclosed
    rw [hselection]
    refine ⟨.inr ⟨bounds.minSeq, bounds.maxSeq, ?_⟩, ?_⟩
    · have hle := hall first hfirst
      have hfirstSpan := hspan first (hmem first hfirst)
      exact
        { bounds := ⟨rfl, rfl, by omega⟩
          closed := hclosed
          entries := hentries
          rows := rfl
          covered := by rwa [← hprojected, ← hentries] at hcovered }
    · intro count hcount
      have hle := hgrow.length_le
      have hcountFloor : count ≤ floorLimit limit := by
        have hint : (count : ℤ) ≤ ⌊limit⌋ := Int.le_floor.mpr (by exact_mod_cast hcount)
        unfold floorLimit
        omega
      simp only
      omega

end Rows

/-- Both entries are selected, as the tool call runs over the chunk's rows. -/
theorem selectTimelineWindow_closed_interleaved :
    ((interleavedRows = [] ∧ selectTimelineWindowByProjectedLimit interleavedRows .after 1 =
        ⟨[], [], none, none⟩) ∨
      ∃ minSeq maxSeq, ClosedWindow interleavedRows
        (selectTimelineWindowByProjectedLimit interleavedRows .after 1) minSeq maxSeq) ∧
    ∀ count : ℕ, count ≤ (1 : ℚ) → min count (projectTimelineRows interleavedRows .projected).length ≤
      (selectTimelineWindowByProjectedLimit interleavedRows .after 1).projectedEntries.length :=
  selectTimelineWindow_closed (by decide) .after le_rfl

end Orqara.Timeline
