import Orqara.Timeline.ForwardPaging

/-!
# Paging backward

The tail page grows until no entry outside it overlaps its span; the pages
before it are cut by `seqStart` alone. Both are suffixes of what is left of the
projection, which is why they fit together.
-/

namespace Orqara.Timeline

open List Option

/-! ## Entries in the order of `seqStart` -/

section Sorted

variable {entries front rest : List TimelineProjectionEntry} {entry : TimelineProjectionEntry}

/-- The entries before a given one are those with a smaller `seqStart`. -/
theorem filter_seqStart_lt (h : entries.Pairwise fun a b => a.seqStart < b.seqStart)
    (hsplit : entries = front ++ entry :: rest) :
    (entries.filter fun e => e.seqStart < entry.seqStart) = front := by
  subst hsplit
  obtain ⟨-, hrest, hcross⟩ := pairwise_append.mp h
  have hfront : (front.filter fun e => decide (e.seqStart < entry.seqStart)) = front := by
    refine filter_eq_self.mpr fun e he => ?_
    exact decide_eq_true (hcross e he entry (by simp))
  have hnone : ((entry :: rest).filter fun e => decide (e.seqStart < entry.seqStart)) = [] := by
    refine filter_eq_nil_iff.mpr fun e he => ?_
    rcases mem_cons.mp he with rfl | he
    · simp
    · have := (pairwise_cons.mp hrest).1 e he
      simp
      omega
  rw [filter_append, hfront, hnone, append_nil]

/-- A choice that keeps every later entry of a kept one is a suffix. -/
theorem filter_suffix {p : TimelineProjectionEntry → Bool} :
    ∀ {entries : List TimelineProjectionEntry},
      entries.Pairwise (fun a b => p a = true → p b = true) → entries.filter p <:+ entries := by
  intro entries
  induction entries with
  | nil => simp
  | cons entry entries ih =>
    intro h
    obtain ⟨hhead, htail⟩ := pairwise_cons.mp h
    by_cases hp : p entry
    · have hall : (entry :: entries).filter p = entry :: entries := by
        refine filter_eq_self.mpr fun e he => ?_
        rcases mem_cons.mp he with rfl | he
        · exact hp
        · exact hhead e he hp
      exact ⟨[], hall⟩
    · rw [filter_cons_of_neg hp]
      exact (ih htail).trans (suffix_cons ..)

end Sorted

/-! ## The window -/

theorem computeWindowBounds_concat (entries : List TimelineProjectionEntry)
    (entry : TimelineProjectionEntry) :
    computeWindowBounds (entries ++ [entry]) =
      match computeWindowBounds entries with
      | none => some ⟨entry.seqStart, entry.seqEnd⟩
      | some bounds => some ⟨min entry.seqStart bounds.minSeq, max bounds.maxSeq entry.seqEnd⟩ := by
  rw [computeWindowBounds, foldl_concat, ← computeWindowBounds]
  cases computeWindowBounds entries with
  | none => rfl
  | some bounds => simp only [min_def_lt, max_def_lt]

variable {entries : List TimelineProjectionEntry}

/-- The window of some entries starts with one of them and holds them all. -/
theorem computeWindowBounds_spec (h : entries ≠ []) :
    ∃ bounds, computeWindowBounds entries = some bounds ∧
      (∀ e ∈ entries, bounds.minSeq ≤ e.seqStart ∧ e.seqEnd ≤ bounds.maxSeq) ∧
      ∃ e ∈ entries, bounds.minSeq = e.seqStart := by
  induction entries using List.reverseRecOn with
  | nil => exact absurd rfl h
  | append_singleton entries entry ih =>
    rw [computeWindowBounds_concat]
    by_cases hnil : entries = []
    · subst hnil
      exact ⟨⟨entry.seqStart, entry.seqEnd⟩, rfl, by simp, entry, by simp, rfl⟩
    · obtain ⟨bounds, hbounds, hall, first, hfirst, hmin⟩ := ih hnil
      rw [hbounds]
      refine ⟨_, rfl, fun e he => ?_, ?_⟩
      · rcases mem_append.mp he with he | he
        · have := hall e he
          simp only
          omega
        · rw [mem_singleton.mp he]
          simp only
          omega
      · by_cases hlt : entry.seqStart ≤ bounds.minSeq
        · exact ⟨entry, by simp, min_eq_left hlt⟩
        · exact ⟨first, mem_append_left _ hfirst, by simp only; omega⟩

section Window

variable {projectedAll : List TimelineProjectionEntry}
  (hspan : ∀ e ∈ projectedAll, e.seqStart ≤ e.seqEnd)

include hspan

/-- The entries of a window overlap it. -/
theorem sublist_overlappingEntries {expanded : List TimelineProjectionEntry}
    (h : expanded.Sublist projectedAll) :
    expanded.Sublist (overlappingEntries projectedAll (computeWindowBounds expanded)) := by
  by_cases hnil : expanded = []
  · subst hnil
    exact nil_sublist _
  · obtain ⟨bounds, hbounds, hall, -⟩ := computeWindowBounds_spec hnil
    have hsub := h.filter fun e =>
      (computeWindowBounds expanded).any fun bounds =>
        e.seqStart ≤ bounds.maxSeq ∧ bounds.minSeq ≤ e.seqEnd
    rwa [filter_eq_self.mpr] at hsub
    intro e he
    rw [hbounds, any_some]
    have := hall e he
    have := hspan e (h.subset he)
    exact decide_eq_true (by omega)

/-- The loop ends at a window that no further entry overlaps: every iteration
before adds an entry. -/
theorem expandWindow_spec (iterations : ℕ) :
    ∀ expanded : List TimelineProjectionEntry, expanded.Sublist projectedAll →
      projectedAll.length < expanded.length + iterations →
      ∃ final, expandWindow projectedAll iterations expanded (computeWindowBounds expanded) =
          (final, computeWindowBounds final) ∧
        expanded.Sublist final ∧
        final = overlappingEntries projectedAll (computeWindowBounds final) := by
  induction iterations with
  | zero =>
    intro expanded h hlt
    exact absurd h.length_le (by omega)
  | succ iterations ih =>
    intro expanded h hlt
    have hgrow := sublist_overlappingEntries hspan h
    simp only [expandWindow]
    split_ifs with hdone
    · have heq := hgrow.eq_of_length hdone.1.symm
      rw [← heq]
      exact ⟨expanded, rfl, .refl _, heq⟩
    · have hlen : expanded.length <
          (overlappingEntries projectedAll (computeWindowBounds expanded)).length := by
        refine lt_of_le_of_ne hgrow.length_le fun heq => hdone ⟨heq.symm, ?_⟩
        rw [← hgrow.eq_of_length heq]
      obtain ⟨final, hfinal, hsub, hfix⟩ :=
        ih (overlappingEntries projectedAll (computeWindowBounds expanded))
          filter_sublist (by omega)
      exact ⟨final, hfinal, hgrow.trans hsub, hfix⟩

/-- A window that holds the last entry and that no further entry overlaps is a
suffix of the timeline. -/
theorem overlappingEntries_suffix
    (hsorted : projectedAll.Pairwise fun a b => a.seqStart < b.seqStart)
    {last : TimelineProjectionEntry} (hlast : projectedAll.getLast? = some last)
    {bounds : TimelineBounds} (hmem : last.seqEnd ≤ bounds.maxSeq)
    (hfix : ∀ e ∈ overlappingEntries projectedAll (some bounds), bounds.minSeq ≤ e.seqStart) :
    overlappingEntries projectedAll (some bounds) <:+ projectedAll := by
  apply filter_suffix
  apply hsorted.imp_of_mem
  intro a b ha hb hab hpa
  have hge := hfix a (mem_filter.mpr ⟨ha, hpa⟩)
  have hspan' := hspan b hb
  have hble : b.seqStart ≤ last.seqEnd := by
    have hl := hspan last (mem_of_mem_getLast? hlast)
    obtain ⟨front, rfl⟩ := getLast?_eq_some_iff.mp hlast
    rcases mem_append.mp hb with hb' | hb'
    · have := (pairwise_append.mp hsorted).2.2 b hb' last (by simp)
      omega
    · rw [mem_singleton.mp hb']
      exact hl
  rw [any_some]
  exact decide_eq_true (by omega)

end Window

theorem floorLimit_natCast (limit : ℕ) : floorLimit (limit : ℚ) = limit := by
  simp [floorLimit]

/-- Both selections take the last `limit` entries. -/
theorem take_last_eq_drop {limit : ℕ} (hlimit : 1 ≤ limit) :
    (if limit = 0 ∨ entries.length ≤ limit then entries
      else entries.drop (entries.length - limit)) = entries.drop (entries.length - limit) := by
  split_ifs with h
  · rw [show entries.length - limit = 0 by omega, drop_zero]
  · rfl

/-- The tail of the timeline, grown to a window, is a suffix that starts at its
first entry. -/
theorem selectTimelineWindow_tail {rows : List AgentTimelineRow} {limit : ℕ}
    (hspan : ∀ e ∈ projectTimelineRows rows .projected, e.seqStart ≤ e.seqEnd)
    (hsorted : (projectTimelineRows rows .projected).Pairwise fun a b => a.seqStart < b.seqStart)
    (hlength : (projectTimelineRows rows .projected).length ≠ 0) (hlimit : 1 ≤ limit) :
    ∃ final, (selectTimelineWindowByProjectedLimit rows .tail limit).projectedEntries = final ∧
      final <:+ projectTimelineRows rows .projected ∧ final ≠ [] ∧
      (selectTimelineWindowByProjectedLimit rows .tail limit).minSeq =
        final.head?.map (·.seqStart) := by
  simp only [selectTimelineWindowByProjectedLimit, floorLimit_natCast, if_neg hlength,
    reduceCtorEq, if_false, take_last_eq_drop hlimit]
  set projected := projectTimelineRows rows .projected
  set tail := projected.drop (projected.length - limit)
  have hprojected := ne_nil_of_length_pos (Nat.pos_of_ne_zero hlength)
  obtain ⟨last, hlast⟩ :=
    ne_none_iff_exists'.mp (mt getLast?_eq_none_iff.mp hprojected)
  have hmem : last ∈ tail := by
    refine mem_of_mem_getLast? ?_
    rw [getLast?_drop, if_neg (by omega)]
    exact hlast
  have htail0 : tail.length ≠ 0 := mt length_eq_zero_iff.mp (ne_nil_of_mem hmem)
  obtain ⟨final, hexpand, hgrow, hfix⟩ :=
    expandWindow_spec hspan (projected.length + 1) tail (drop_sublist ..) (by omega)
  rw [if_neg htail0, hexpand]
  have hne : final ≠ [] := ne_nil_of_mem (hgrow.subset hmem)
  obtain ⟨bounds, hbounds, hall, e, he, hmin⟩ := computeWindowBounds_spec hne
  have hsuffix : final <:+ projected := by
    rw [hbounds] at hfix
    rw [hfix]
    apply overlappingEntries_suffix hspan hsorted hlast (hall last (hgrow.subset hmem)).2
    intro e he
    rw [← hfix] at he
    exact (hall e he).1
  refine ⟨final, rfl, hsuffix, hne, ?_⟩
  obtain ⟨first, rest, rfl⟩ := exists_cons_of_ne_nil hne
  have hle := (hall first (by simp)).1
  have hfirst : first.seqStart ≤ e.seqStart := by
    rcases mem_cons.mp he with rfl | hrest
    · exact le_rfl
    · exact ((pairwise_cons.mp (hsorted.sublist hsuffix.sublist)).1 e hrest).le
  have heq : bounds.minSeq = first.seqStart := by omega
  rw [hbounds, map_some, heq]
  rfl

/-! ## The pages -/

/-- The tail page, then pages before a cursor. -/
def pageBack (rows : List AgentTimelineRow) (limit : ℚ)
    (request : TimelineLimitDirection × Option ℤ) : ProjectedTimelinePageSelection :=
  selectProjectedTimelinePage ⟨rows, none, request.1, request.2, some limit⟩

/-- The projected entries that the pages up to a request have not shown. -/
def olderEntries (rows : List AgentTimelineRow) :
    TimelineLimitDirection × Option ℤ → List TimelineProjectionEntry
  | (.before, some cursorSeq) =>
    (projectTimelineRows rows .projected).filter fun e => e.seqStart < cursorSeq
  | _ => projectTimelineRows rows .projected

/-- A page is the end of what was left, and says whether it leaves anything. -/
structure PageEnds (left : List TimelineProjectionEntry)
    (page : ProjectedTimelinePageSelection) : Prop where
  suffix : page.entries <:+ left
  startSeq : page.startSeq = page.entries.head?.map (·.seqStart)
  nonempty : page.entries ≠ []
  hasOlder : page.hasOlder = true ↔ page.entries ≠ left

section Pages

variable {rows : List AgentTimelineRow} {minSeq maxSeq : ℤ} (hrows : ConsecutiveRows rows)
  (hbounds : getTimelineBounds rows = some ⟨minSeq, maxSeq⟩) {limit : ℚ} (hlimit : 1 ≤ limit)

include hrows hbounds

theorem projected_seqStart_mem {e : TimelineProjectionEntry}
    (he : e ∈ projectTimelineRows rows .projected) : minSeq ≤ e.seqStart ∧ e.seqStart ≤ maxSeq :=
  (exists_row_iff hrows hbounds).mp
    (projected_owned_row hrows.increasing he (projected_seqStart_isLeast hrows.increasing he).1)

/-- The first entry of the projection starts at the first row. -/
theorem projected_head_seqStart {first : TimelineProjectionEntry}
    (hfirst : (projectTimelineRows rows .projected).head? = some first) :
    first.seqStart = minSeq := by
  have hsorted := projected_seqStart_increasing hrows.increasing
  have hmem := mem_of_mem_head? hfirst
  obtain ⟨row, hrow, hseq⟩ := (exists_row_iff hrows hbounds).mpr
    ⟨le_rfl, minSeq_le_maxSeq hrows hbounds⟩
  obtain ⟨e, he, ho⟩ := projected_exists_owner hrows.increasing hrow
  have hle : e.seqStart ≤ minSeq :=
    hseq ▸ (projected_seqStart_isLeast hrows.increasing he).2 ho
  have hge := (projected_seqStart_mem hrows hbounds hmem).1
  obtain ⟨rest, hrest⟩ := head?_eq_some_iff.mp hfirst
  rw [hrest] at hsorted he
  rcases mem_cons.mp he with rfl | hin
  · omega
  · have := (pairwise_cons.mp hsorted).1 e hin
    omega

include hlimit

theorem pageBack_before_ends {cursorSeq : ℤ}
    (hleft : olderEntries rows (.before, some cursorSeq) ≠ []) :
    PageEnds (olderEntries rows (.before, some cursorSeq))
      (pageBack rows limit (.before, some cursorSeq)) := by
  set projected := projectTimelineRows rows .projected with hprojected
  set left := olderEntries rows (.before, some cursorSeq) with hleftdef
  obtain ⟨e, he⟩ := exists_mem_of_ne_nil left hleft
  obtain ⟨hmem, hlt⟩ := mem_filter.mp he
  have hmin := (projected_seqStart_mem hrows hbounds hmem).1
  have hpast : minSeq ≤ min maxSeq (cursorSeq - 1) := by
    have := minSeq_le_maxSeq hrows hbounds
    have := of_decide_eq_true hlt
    omega
  have heligible : (projected.filter fun e => e.seqStart ≤ min maxSeq (cursorSeq - 1)) = left := by
    refine filter_congr fun e he => decide_eq_decide.mpr ?_
    have := (projected_seqStart_mem hrows hbounds he).2
    omega
  have hone := one_le_floorLimit hlimit
  have hpos : 0 < left.length := length_pos_iff.mpr hleft
  set selected := left.drop (left.length - floorLimit limit)
  have hsuffix : selected <:+ left := drop_suffix ..
  have hne : selected ≠ [] := by
    rw [ne_eq, drop_eq_nil_iff]
    omega
  have hlength : projected.length ≠ 0 := projected_length_ne_zero hrows hbounds
  have hpage : pageBack rows limit (.before, some cursorSeq) =
      ⟨selected, selected.head?.map (·.seqStart), some (min maxSeq (cursorSeq - 1)),
        decide (selected.length < left.length),
        decide (min maxSeq (cursorSeq - 1) < maxSeq)⟩ := by
    simp only [pageBack, selectProjectedTimelinePage, orElse_eq_orElse,
      orElse_none, hbounds, getD_some, map_some, if_neg (not_lt.mpr hpast),
      selectProjectedEntriesBefore, ← hprojected, if_neg hlength, heligible,
      take_last_eq_drop hone]
    rfl
  rw [hpage]
  refine ⟨hsuffix, rfl, hne, ?_⟩
  rw [decide_eq_true_eq]
  constructor
  · intro hlen heq
    simp only at heq
    rw [heq] at hlen
    exact lt_irrefl _ hlen
  · intro hneq
    exact lt_of_le_of_ne hsuffix.length_le fun hlen => hneq (hsuffix.eq_of_length hlen)

theorem pageBack_tail_ends :
    PageEnds (projectTimelineRows rows .projected) (pageBack rows limit (.tail, none)) := by
  set projected := projectTimelineRows rows .projected with hprojected
  have hspan : ∀ e ∈ projected, e.seqStart ≤ e.seqEnd := fun e he =>
    projected_seqStart_le_seqEnd hrows.increasing he
  have hsorted := projected_seqStart_increasing hrows.increasing
  have hlength : projected.length ≠ 0 := projected_length_ne_zero hrows hbounds
  obtain ⟨final, hselect, hsuffix, hne, hmin⟩ :=
    selectTimelineWindow_tail hspan hsorted hlength (one_le_floorLimit hlimit)
  obtain ⟨first, rest, rfl⟩ := exists_cons_of_ne_nil hne
  have hpage : pageBack rows limit (.tail, none) =
      ⟨first :: rest, some first.seqStart, (selectTimelineWindowByProjectedLimit rows .tail
        (floorLimit limit)).maxSeq, decide (minSeq < first.seqStart), false⟩ := by
    simp only [pageBack, selectProjectedTimelinePage, orElse_eq_orElse,
      orElse_none, hbounds, getD_some, map_some, ← hprojected,
      if_neg hlength, hselect, hmin, head?_cons, any_some]
  rw [hpage]
  refine ⟨hsuffix, rfl, hne, ?_⟩
  rw [decide_eq_true_eq]
  constructor
  · intro hlt heq
    simp only at heq
    have hfirst : projected.head? = some first := by rw [← heq, head?_cons]
    have := projected_head_seqStart hrows hbounds hfirst
    omega
  · intro hneq
    obtain ⟨front, hfront⟩ := hsuffix
    have hfront0 : front ≠ [] := by
      rintro rfl
      exact hneq hfront
    obtain ⟨e, he⟩ := exists_mem_of_ne_nil front hfront0
    rw [← hfront] at hsorted
    have hlt := (pairwise_append.mp hsorted).2.2 e he first (by simp)
    have he : e ∈ projected := by
      rw [hprojected, ← hfront]
      exact mem_append_left _ he
    have := (projected_seqStart_mem hrows hbounds he).1
    omega

end Pages

/-! ## The walk -/

/-- The pages a client fetches from the tail on while there are older entries. -/
def backwardPages (rows : List AgentTimelineRow) (limit : ℚ) (fuel : ℕ)
    (request : TimelineLimitDirection × Option ℤ) :
    List ((TimelineLimitDirection × Option ℤ) × ProjectedTimelinePageSelection) :=
  Walk.pages (pageBack rows limit)
    (fun page => if page.hasOlder then some (.before, page.startSeq) else none) fuel request

/-- What a client that scrolls back from the tail relies on; `left` is what it
has not seen. -/
structure PartitionWalk (projected left : List TimelineProjectionEntry)
    (pages : List ((TimelineLimitDirection × Option ℤ) × ProjectedTimelinePageSelection)) :
    Prop where
  concat : (pages.map (·.2.entries)).reverse.flatten = left
  stops : ∃ last, pages.getLast? = some last ∧ last.2.hasOlder = false
  hasOlder : ∀ p ∈ pages, p.2.hasOlder = true ↔
    ∃ startSeq, p.2.startSeq = some startSeq ∧ ∃ e ∈ projected, e.seqStart < startSeq

section Walk

variable {rows : List AgentTimelineRow} {minSeq maxSeq : ℤ} (hrows : ConsecutiveRows rows)
  (hbounds : getTimelineBounds rows = some ⟨minSeq, maxSeq⟩) {limit : ℚ} (hlimit : 1 ≤ limit)
  {request : TimelineLimitDirection × Option ℤ}

/-- The requests of a walk that is not over. -/
def IsBackwardRequest (rows : List AgentTimelineRow)
    (request : TimelineLimitDirection × Option ℤ) : Prop :=
  request = (.tail, none) ∨
    ∃ cursorSeq, request = (.before, some cursorSeq) ∧ olderEntries rows request ≠ []

include hrows hbounds hlimit

section

variable (h : IsBackwardRequest rows request)
include h

theorem pageBack_ends :
    PageEnds (olderEntries rows request) (pageBack rows limit request) := by
  rcases h with rfl | ⟨cursorSeq, rfl, hleft⟩
  · exact pageBack_tail_ends hrows hbounds hlimit
  · exact pageBack_before_ends hrows hbounds hlimit hleft

/-- A page cuts what is left at its own start. -/
theorem pageBack_split :
    ∃ startSeq, (pageBack rows limit request).startSeq = some startSeq ∧
      olderEntries rows request = olderEntries rows (.before, some startSeq) ++
        (pageBack rows limit request).entries ∧
      ((pageBack rows limit request).hasOlder = true ↔
        olderEntries rows (.before, some startSeq) ≠ []) := by
  have hpage := pageBack_ends hrows hbounds hlimit h
  have hsorted := projected_seqStart_increasing hrows.increasing
  obtain ⟨first, rest, hentries⟩ := exists_cons_of_ne_nil hpage.nonempty
  obtain ⟨front, hfront⟩ := hpage.suffix
  rw [hentries] at hfront
  have hstart : (pageBack rows limit request).startSeq = some first.seqStart := by
    rw [hpage.startSeq, hentries, head?_cons, map_some]
  have hsub : (olderEntries rows request).Sublist (projectTimelineRows rows .projected) := by
    rcases h with rfl | ⟨cursorSeq, rfl, -⟩
    · exact .refl _
    · exact filter_sublist
  have hcut := filter_seqStart_lt (hsorted.sublist hsub) hfront.symm
  have hleft : olderEntries rows (.before, some first.seqStart) = front := by
    rw [← hcut]
    rcases h with rfl | ⟨cursorSeq, rfl, -⟩
    · rfl
    · have hfirst : first ∈ olderEntries rows (.before, some cursorSeq) := by
        rw [← hfront]
        simp
      have hlt := of_decide_eq_true (mem_filter.mp hfirst).2
      simp only [olderEntries, List.filter_filter]
      refine filter_congr fun e _ => ?_
      rw [← Bool.decide_and]
      exact decide_eq_decide.mpr (by omega)
  refine ⟨first.seqStart, hstart, ?_, ?_⟩
  · rw [hleft, hentries, hfront]
  · rw [hpage.hasOlder, hleft, hentries, ← hfront]
    simp

theorem pageBack_hasOlder_iff :
    (pageBack rows limit request).hasOlder = true ↔
      ∃ startSeq, (pageBack rows limit request).startSeq = some startSeq ∧
        ∃ e ∈ projectTimelineRows rows .projected, e.seqStart < startSeq := by
  obtain ⟨startSeq, hstart, -, holder⟩ := pageBack_split hrows hbounds hlimit h
  rw [holder, hstart]
  simp [olderEntries, filter_eq_nil_iff]

theorem partitionWalk_stop (hstop : (pageBack rows limit request).hasOlder = false) :
    PartitionWalk (projectTimelineRows rows .projected) (olderEntries rows request)
      [(request, pageBack rows limit request)] := by
  obtain ⟨startSeq, hstart, hsplit, holder⟩ := pageBack_split hrows hbounds hlimit h
  refine ⟨?_, ⟨_, rfl, hstop⟩, ?_⟩
  · have hnil : olderEntries rows (.before, some startSeq) = [] := by
      by_contra hne
      exact absurd (holder.mpr hne) (by simp [hstop])
    simp [hsplit, hnil]
  · intro p hp
    obtain rfl := mem_singleton.mp hp
    exact pageBack_hasOlder_iff hrows hbounds hlimit h

theorem partitionWalk_step {request' : TimelineLimitDirection × Option ℤ}
    (hnext : (if (pageBack rows limit request).hasOlder then
      some (TimelineLimitDirection.before, (pageBack rows limit request).startSeq) else none) =
        some request') :
    IsBackwardRequest rows request' ∧
      (olderEntries rows request').length < (olderEntries rows request).length ∧
      ∀ pages, PartitionWalk (projectTimelineRows rows .projected) (olderEntries rows request') pages →
        PartitionWalk (projectTimelineRows rows .projected) (olderEntries rows request)
          ((request, pageBack rows limit request) :: pages) := by
  obtain ⟨startSeq, hstart, hsplit, holder⟩ := pageBack_split hrows hbounds hlimit h
  have hnonempty := (pageBack_ends hrows hbounds hlimit h).nonempty
  simp only [ite_none_right_eq_some, Option.some.injEq, hstart] at hnext
  obtain ⟨hmore, rfl⟩ := hnext
  refine ⟨.inr ⟨startSeq, rfl, holder.mp hmore⟩, ?_, fun pages hpages => ⟨?_, ?_, ?_⟩⟩
  · have := length_pos_iff.mpr hnonempty
    rw [hsplit, length_append]
    omega
  · rw [map_cons, reverse_cons, flatten_append, hpages.concat, hsplit]
    simp
  · obtain ⟨last, hlast, hdone⟩ := hpages.stops
    refine ⟨last, ?_, hdone⟩
    rw [getLast?_cons, hlast]
    rfl
  · intro p hp
    rcases mem_cons.mp hp with rfl | hp
    · exact pageBack_hasOlder_iff hrows hbounds hlimit h
    · exact hpages.hasOlder p hp

end

theorem partitionWalk_tail {fuel : ℕ}
    (hfuel : (projectTimelineRows rows .projected).length < fuel) :
    PartitionWalk (projectTimelineRows rows .projected) (projectTimelineRows rows .projected)
      (backwardPages rows limit fuel (.tail, none)) := by
  refine Walk.pages_spec (IsBackwardRequest rows)
    (fun request => PartitionWalk (projectTimelineRows rows .projected)
      (olderEntries rows request))
    (fun request => (olderEntries rows request).length) ?_ ?_ ?_ fuel (.tail, none) (.inl rfl) hfuel
  · intro request h hstop
    exact partitionWalk_stop hrows hbounds hlimit h (by simpa using hstop)
  · intro request request' pages h hnext hpages
    exact (partitionWalk_step hrows hbounds hlimit h hnext).2.2 pages hpages
  · intro request request' h hnext
    obtain ⟨h', hlt, -⟩ := partitionWalk_step hrows hbounds hlimit h hnext
    exact ⟨h', hlt⟩

end Walk

/-- A timeline without rows has one page, which is empty. -/
theorem partitionWalk_nil (limit : ℚ) (fuel : ℕ) :
    PartitionWalk [] [] (backwardPages [] limit (fuel + 1) (.tail, none)) := by
  have hpages : backwardPages [] limit (fuel + 1) (.tail, none) =
      [((.tail, none), ⟨[], none, none, false, false⟩)] := rfl
  rw [hpages]
  exact ⟨rfl, ⟨_, rfl, rfl⟩, by simp⟩

/-- Pages that make up a list without duplicates share no entry. -/
theorem PartitionWalk.disjoint {projected left : List TimelineProjectionEntry}
    {pages : List ((TimelineLimitDirection × Option ℤ) × ProjectedTimelinePageSelection)}
    (h : PartitionWalk projected left pages) (hnodup : left.Nodup) :
    (pages.map (·.2.entries)).Pairwise List.Disjoint := by
  rw [← h.concat, nodup_flatten, pairwise_reverse] at hnodup
  exact hnodup.2.imp fun hab => disjoint_symm hab

/-- Scrolling back from the tail with any limit shows every projected entry
exactly once, and ends. -/
theorem backwardPages_partition {rows : List AgentTimelineRow} (hrows : ConsecutiveRows rows)
    {limit : ℚ} (hlimit : 1 ≤ limit) {fuel : ℕ}
    (hfuel : (projectTimelineRows rows .projected).length < fuel) :
    PartitionWalk (projectTimelineRows rows .projected) (projectTimelineRows rows .projected)
        (backwardPages rows limit fuel (.tail, none)) ∧
      ((backwardPages rows limit fuel (.tail, none)).map (·.2.entries)).Pairwise
        List.Disjoint := by
  have hwalk : PartitionWalk (projectTimelineRows rows .projected)
      (projectTimelineRows rows .projected) (backwardPages rows limit fuel (.tail, none)) := by
    cases hbounds : getTimelineBounds rows with
    | none =>
      obtain rfl : rows = [] := by
        cases rows with
        | nil => rfl
        | cons row rows => simp [getTimelineBounds, List.getLast?_cons] at hbounds
      obtain ⟨fuel, rfl⟩ := Nat.exists_eq_add_one_of_ne_zero (Nat.ne_zero_of_lt hfuel)
      exact partitionWalk_nil limit fuel
    | some bounds => exact partitionWalk_tail hrows hbounds hlimit hfuel
  refine ⟨hwalk, hwalk.disjoint ?_⟩
  exact (projected_seqStart_increasing hrows.increasing).imp fun hab heq => by simp [heq] at hab

theorem backwardPages_partition_interleaved :
    PartitionWalk (projectTimelineRows interleavedRows .projected)
      (projectTimelineRows interleavedRows .projected)
      (backwardPages interleavedRows 1 6 (.tail, none)) :=
  (backwardPages_partition (by decide) le_rfl (by decide)).1

end Orqara.Timeline
