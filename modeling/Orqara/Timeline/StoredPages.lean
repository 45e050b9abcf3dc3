import Orqara.Timeline.StoredSequence

/-!
# Fetching the stored rows forward

A client that fetches after its cursor, and goes on from the last row while there
is a newer one.
-/

namespace Orqara.Timeline

open List Option

/-- A suffix that starts at the first row above a seq is what is above it. -/
theorem IncreasingSeqs.filter_eq_drop {rows : List AgentTimelineRow} (h : IncreasingSeqs rows)
    (seq : ℤ) :
    rows.filter (fun row => seq < row.seq) =
      match rows.findIdx? fun row => seq < row.seq with
      | none => []
      | some startIdx => rows.drop startIdx := by
  induction rows with
  | nil => rfl
  | cons row rows ih =>
    have habove := (pairwise_cons.mp h).1
    rw [findIdx?_cons]
    by_cases hrow : seq < row.seq
    · rw [if_pos (by simpa using hrow)]
      show _ = row :: rows
      apply filter_eq_self.mpr
      intro row' hrow'
      rcases mem_cons.mp hrow' with rfl | hrest
      · simpa using hrow
      · have := habove row' hrest
        simp only [decide_eq_true_eq]
        omega
    · rw [if_neg (by simpa using hrow), filter_cons_of_neg (by simpa using hrow),
        ih (pairwise_cons.mp h).2]
      cases rows.findIdx? fun row => seq < row.seq with
      | none => rfl
      | some startIdx => rfl

namespace AgentTimelineState

variable {state : AgentTimelineState} {row : AgentTimelineRow}

theorem minSeq_eq {first : AgentTimelineRow} (hfirst : state.rows.head? = some first) :
    state.minSeq = first.seq := by
  unfold minSeq
  rw [hfirst]
  rfl

theorem maxSeq_eq {last : AgentTimelineRow} (hlast : state.rows.getLast? = some last) :
    state.maxSeq = last.seq := by
  unfold maxSeq
  rw [hlast]
  rfl

section

variable (h : IncreasingSeqs state.rows)
include h

theorem minSeq_lt_iff (hrow : row ∈ state.rows) :
    state.minSeq < row.seq ↔ ∃ other ∈ state.rows, other.seq < row.seq := by
  cases hfirst : state.rows.head? with
  | none =>
    rw [head?_eq_none_iff.mp hfirst] at hrow
    exact absurd hrow not_mem_nil
  | some first =>
    rw [minSeq_eq hfirst]
    constructor
    · exact fun hlt => ⟨first, mem_of_head? hfirst, hlt⟩
    · rintro ⟨other, hother, hlt⟩
      exact (h.head_le hfirst hother).trans_lt hlt

theorem lt_maxSeq_iff (hrow : row ∈ state.rows) :
    row.seq < state.maxSeq ↔ ∃ other ∈ state.rows, row.seq < other.seq := by
  cases hlast : state.rows.getLast? with
  | none =>
    rw [getLast?_eq_none_iff.mp hlast] at hrow
    exact absurd hrow not_mem_nil
  | some last =>
    rw [maxSeq_eq hlast]
    constructor
    · exact fun hlt => ⟨last, mem_of_getLast? hlast, hlt⟩
    · rintro ⟨other, hother, hlt⟩
      exact hlt.trans_le (h.le_getLast hlast hother)

/-- The rows above a seq. -/
def above (state : AgentTimelineState) (seq : ℤ) : List AgentTimelineRow :=
  state.rows.filter fun row => seq < row.seq

omit h in
theorem mem_above {seq : ℤ} :
    row ∈ state.above seq ↔ row ∈ state.rows ∧ seq < row.seq := by
  unfold above
  rw [mem_filter, decide_eq_true_eq]

theorem increasing_above (seq : ℤ) :
    IncreasingSeqs (state.above seq) :=
  List.Pairwise.filter _ h

end

/-- The page a client asks for that has all rows up to its cursor. -/
def pageAfter (state : AgentTimelineState) (limit : ℚ) (cursor : AgentTimelineCursor) :
    AgentTimelineFetchResult :=
  state.fetch ⟨some .after, some cursor, some limit⟩

/-- Where the client goes on: at the last row, as long as there is a newer one. -/
def nextCursor (page : AgentTimelineFetchResult) : Option AgentTimelineCursor :=
  if page.hasNewer then page.rows.getLast?.map fun last => ⟨page.epoch, last.seq⟩ else none

/-- What a page tells the client is so. -/
structure Exact (state : AgentTimelineState) (page : AgentTimelineFetchResult) : Prop where
  noReset : page.reset = false
  hasNewer : ∀ last, page.rows.getLast? = some last →
    (page.hasNewer = true ↔ ∃ row ∈ state.rows, last.seq < row.seq)
  hasOlder : ∀ first, page.rows.head? = some first →
    (page.hasOlder = true ↔ ∃ row ∈ state.rows, row.seq < first.seq)
  emptyPage : page.rows = [] → page.hasNewer = false

variable {limit : ℚ} {cursor : AgentTimelineCursor}

theorem fetch_after (hepoch : cursor.epoch = state.epoch) (hmin : state.minSeq - 1 ≤ cursor.seq)
    (hrows : state.rows ≠ []) :
    state.pageAfter limit cursor =
      fetchAfter (state.fetchContext ⟨some .after, some cursor, some limit⟩) := by
  unfold pageAfter fetch
  rw [if_neg (by simp [hepoch])]
  have hctx : (state.fetchContext ⟨some .after, some cursor, some limit⟩).minSeq = state.minSeq :=
    rfl
  rw [if_neg, if_neg hrows]
  · rfl
  · rintro ⟨-, -, hlt⟩
    rw [hctx] at hlt
    have : cursor.seq < state.minSeq - 1 := by simpa using hlt
    omega

section

variable (h : IncreasingSeqs state.rows) {page : AgentTimelineFetchResult}
include h

/-- What the page after a cursor consists of. -/
theorem pageAfter_parts (hlimit : 1 ≤ limit) (hepoch : cursor.epoch = state.epoch)
    (hmin : state.minSeq - 1 ≤ cursor.seq) :
    (state.pageAfter limit cursor).reset = false ∧
      (state.pageAfter limit cursor).epoch = state.epoch ∧
      (state.pageAfter limit cursor).rows = (state.above cursor.seq).take (floorLimit limit) ∧
      (state.pageAfter limit cursor).hasNewer =
        (state.pageAfter limit cursor).rows.getLast?.any (fun last => last.seq < state.maxSeq) ∧
      ((state.pageAfter limit cursor).rows ≠ [] →
        (state.pageAfter limit cursor).hasOlder =
          startsAbove (state.pageAfter limit cursor).rows state.minSeq) := by
  by_cases hrows : state.rows = []
  · have habove : state.above cursor.seq = [] := by
      unfold above
      rw [hrows]
      rfl
    have hpage : state.pageAfter limit cursor =
        { epoch := state.epoch, direction := .after, reset := false, staleCursor := false
          gap := false, window := ⟨state.minSeq, state.maxSeq, state.nextSeq⟩
          hasOlder := false, hasNewer := false, rows := [] } := by
      unfold pageAfter fetch
      rw [if_neg (by simp [hepoch]), if_neg (by simp [hrows]), if_pos hrows]
      rfl
    rw [hpage, habove]
    exact ⟨rfl, rfl, take_nil.symm, rfl, fun hne => absurd rfl hne⟩
  · have hpos := one_le_floorLimit hlimit
    have hall : (state.fetchContext ⟨some .after, some cursor, some limit⟩).selectAll = false := by
      show decide (floorLimit limit = 0) = false
      rw [decide_eq_false_iff_not]
      omega
    have hdrop : state.above cursor.seq = _ := h.filter_eq_drop cursor.seq
    rw [fetch_after hepoch hmin hrows, hdrop]
    have hstate : (state.fetchContext ⟨some .after, some cursor, some limit⟩).state = state := rfl
    have hbase : ((state.fetchContext ⟨some .after, some cursor, some limit⟩).cursor.map
        (·.seq)).getD 0 = cursor.seq := rfl
    simp only [fetchAfter, hbase, hstate, hall]
    cases state.rows.findIdx? fun row => cursor.seq < row.seq with
    | none => exact ⟨rfl, rfl, take_nil.symm, rfl, fun hne => absurd rfl hne⟩
    | some startIdx => exact ⟨rfl, rfl, rfl, rfl, fun _ => rfl⟩

/-- The page holds the first `limit` rows above the cursor, and says truly what it
leaves out. -/
theorem exact_pageAfter (hlimit : 1 ≤ limit) (hepoch : cursor.epoch = state.epoch)
    (hmin : state.minSeq - 1 ≤ cursor.seq) :
    state.Exact (state.pageAfter limit cursor) := by
  obtain ⟨hreset, -, hrows, hnewer, holder⟩ := pageAfter_parts h hlimit hepoch hmin
  have hmem : ∀ row ∈ (state.pageAfter limit cursor).rows, row ∈ state.rows := by
    intro row hrow
    rw [hrows] at hrow
    exact (mem_above.mp (mem_of_mem_take hrow)).1
  refine ⟨hreset, ?_, ?_, ?_⟩
  · intro last hlast
    rw [hnewer, hlast, ← lt_maxSeq_iff h (hmem last (mem_of_getLast? hlast))]
    simp
  · intro first hfirst
    have hne : (state.pageAfter limit cursor).rows ≠ [] := by
      intro hnil
      rw [hnil] at hfirst
      contradiction
    rw [holder hne, startsAbove, hfirst,
      ← minSeq_lt_iff h (hmem first (mem_of_head? hfirst))]
    simp
  · intro hnil
    rw [hnewer, hnil]
    rfl

/-- What is above the last row of a page is what the page left out. -/
theorem above_last {seq : ℤ} {n : ℕ} {last : AgentTimelineRow}
    (hlast : ((state.above seq).take n).getLast? = some last) :
    seq < last.seq ∧ state.above last.seq = (state.above seq).drop n := by
  have hincreasing := increasing_above h seq
  have hmem : last ∈ state.above seq := mem_of_mem_take (mem_of_getLast? hlast)
  have hlt : seq < last.seq := (mem_above.mp hmem).2
  have hsame : state.above last.seq = (state.above seq).filter fun row => last.seq < row.seq := by
    unfold above
    rw [List.filter_filter]
    apply filter_congr
    intro row _
    rw [← Bool.decide_and, decide_eq_decide]
    omega
  refine ⟨hlt, ?_⟩
  rw [← take_append_drop n (state.above seq)] at hincreasing
  have hcross := (pairwise_append.mp hincreasing).2.2
  rw [hsame]
  conv_lhs => rw [← take_append_drop n (state.above seq)]
  rw [filter_append]
  have hfront : ((state.above seq).take n).filter (fun row => last.seq < row.seq) = [] := by
    apply filter_eq_nil_iff.mpr
    intro row hrow
    have := IncreasingSeqs.le_getLast (pairwise_append.mp hincreasing).1 hlast hrow
    simp only [decide_eq_true_eq]
    omega
  have hback : ((state.above seq).drop n).filter (fun row => last.seq < row.seq) =
      (state.above seq).drop n := by
    apply filter_eq_self.mpr
    intro row hrow
    simpa using hcross last (mem_of_getLast? hlast) row hrow
  rw [hfront, hback, nil_append]

/-! ## The walk -/

/-- The pages a client fetches from a cursor on. -/
def pagesAfter (state : AgentTimelineState) (limit : ℚ) (fuel : ℕ)
    (cursor : AgentTimelineCursor) : List (AgentTimelineCursor × AgentTimelineFetchResult) :=
  Walk.pages (state.pageAfter limit) nextCursor fuel cursor

/-- The walk comes to an end with every row above the cursor delivered once, in
order, and says on every page what is left on both sides. -/
structure DeliversAbove (state : AgentTimelineState) (cursor : AgentTimelineCursor)
    (pages : List (AgentTimelineCursor × AgentTimelineFetchResult)) : Prop where
  rows : pages.flatMap (fun page => page.2.rows) = state.above cursor.seq
  ended : pages.getLast?.map (fun page => page.2.hasNewer) = some false
  pagesExact : ∀ page ∈ pages, state.Exact page.2

omit h in
theorem nextCursor_eq_some {cursor' : AgentTimelineCursor} (h : nextCursor page = some cursor') :
    ∃ last, page.rows.getLast? = some last ∧ cursor' = ⟨page.epoch, last.seq⟩ := by
  unfold nextCursor at h
  by_cases hnewer : page.hasNewer = true
  · rw [if_pos hnewer] at h
    obtain ⟨last, hlast, heq⟩ := map_eq_some_iff.mp h
    exact ⟨last, hlast, heq.symm⟩
  · rw [if_neg hnewer] at h
    contradiction

omit h in
theorem hasNewer_of_nextCursor (hexact : state.Exact page) (h : nextCursor page = none) :
    page.hasNewer = false := by
  unfold nextCursor at h
  by_cases hnewer : page.hasNewer = true
  · rw [if_pos hnewer] at h
    exact hexact.emptyPage (getLast?_eq_none_iff.mp (map_eq_none_iff.mp h))
  · simpa using hnewer

/-- A page without a newer row brings all that is above the cursor. -/
theorem rows_of_not_hasNewer (hlimit : 1 ≤ limit) (hepoch : cursor.epoch = state.epoch)
    (hmin : state.minSeq - 1 ≤ cursor.seq) (hnewer : (state.pageAfter limit cursor).hasNewer = false) :
    (state.pageAfter limit cursor).rows = state.above cursor.seq := by
  have hrows := (pageAfter_parts h hlimit hepoch hmin).2.2.1
  have hexact := exact_pageAfter h hlimit hepoch hmin
  have hpos := one_le_floorLimit hlimit
  cases hlast : (state.pageAfter limit cursor).rows.getLast? with
  | none =>
    rw [getLast?_eq_none_iff] at hlast
    rw [hlast]
    rw [hrows, take_eq_nil_iff] at hlast
    rcases hlast with hzero | hnil
    · omega
    · exact hnil.symm
  | some last =>
    have hnone : ¬ ∃ row ∈ state.rows, last.seq < row.seq := by
      rw [← hexact.hasNewer last hlast, hnewer]
      exact Bool.false_ne_true
    rw [hrows] at hlast ⊢
    have hdrop : (state.above cursor.seq).drop (floorLimit limit) = [] := by
      rw [← (above_last h hlast).2]
      apply eq_nil_iff_forall_not_mem.mpr
      intro row hrow
      exact hnone ⟨row, mem_above.mp hrow⟩
    have hall := take_append_drop (floorLimit limit) (state.above cursor.seq)
    rwa [hdrop, append_nil] at hall

/-- Fetching forward from a lawful state delivers what is above the cursor. -/
theorem deliversAbove_pagesAfter (hlimit : 1 ≤ limit) (hepoch : cursor.epoch = state.epoch)
    (hmin : state.minSeq - 1 ≤ cursor.seq) {fuel : ℕ} (hfuel : state.rows.length < fuel) :
    state.DeliversAbove cursor (state.pagesAfter limit fuel cursor) := by
  refine Walk.pages_spec (fun c => c.epoch = state.epoch ∧ state.minSeq - 1 ≤ c.seq)
    (state.DeliversAbove) (fun c => (state.above c.seq).length) ?_ ?_ ?_ fuel cursor
    ⟨hepoch, hmin⟩ ?_
  · intro c hc hstop
    have hexact := exact_pageAfter h hlimit hc.1 hc.2
    have hnewer := hasNewer_of_nextCursor hexact hstop
    refine ⟨?_, ?_, ?_⟩
    · rw [flatMap_singleton]
      exact rows_of_not_hasNewer h hlimit hc.1 hc.2 hnewer
    · show some (state.pageAfter limit c).hasNewer = some false
      rw [hnewer]
    · intro page hpage
      rw [mem_singleton.mp hpage]
      exact hexact
  · intro c c' pages hc hnext hpages
    obtain ⟨last, hlast, rfl⟩ := nextCursor_eq_some hnext
    have hrows := (pageAfter_parts h hlimit hc.1 hc.2).2.2.1
    rw [hrows] at hlast
    refine ⟨?_, ?_, ?_⟩
    · rw [flatMap_cons, hpages.rows, hrows, (above_last h hlast).2,
        take_append_drop]
    · rw [getLast?_cons]
      cases hend : pages.getLast? with
      | none =>
        have := hpages.ended
        rw [hend] at this
        contradiction
      | some page =>
        have := hpages.ended
        rw [hend] at this
        exact this
    · intro page hpage
      rcases mem_cons.mp hpage with rfl | hrest
      · exact exact_pageAfter h hlimit hc.1 hc.2
      · exact hpages.pagesExact page hrest
  · intro c c' hc hnext
    obtain ⟨last, hlast, rfl⟩ := nextCursor_eq_some hnext
    obtain ⟨-, hpage, hrows, -⟩ := pageAfter_parts h hlimit hc.1 hc.2
    rw [hrows] at hlast
    obtain ⟨hlt, hdrop⟩ := above_last h hlast
    have hmem := mem_of_mem_take (mem_of_getLast? hlast)
    have hpos := one_le_floorLimit hlimit
    refine ⟨⟨hpage, ?_⟩, ?_⟩
    · have := hc.2
      show state.minSeq - 1 ≤ last.seq
      omega
    · show (state.above last.seq).length < (state.above c.seq).length
      have hlength := length_pos_of_mem hmem
      rw [hdrop, length_drop]
      omega
  · exact (length_filter_le _ _).trans_lt hfuel

end

end AgentTimelineState

namespace InMemoryAgentTimelineStore

/-- Two rows seeded as rows, a third one appended and the first one enriched. -/
def seededCalls : List TimelineCall :=
  [.initializeAgent
      ⟨none, some [⟨5, "t5", .userMessage "hi" none (some "m1"), none, none⟩,
        ⟨7, "t7", .assistantMessage "hello" none, none, none⟩], some "epoch", some 8, none⟩
      "now" "uuid",
    .append (.assistantMessage "again" none) ⟨some "t8", none, none⟩ "now",
    .enrichSubmittedUserMessage "m1" "provider-1"]

theorem seed_of_seededCalls {options : SeedAgentTimelineOptions} {now randomUUID : String}
    (hmem : TimelineCall.initializeAgent options now randomUUID ∈ seededCalls) :
    IncreasingSeqs (options.rows.getD []) ∧ options.NextSeqFits := by
  have hcall := mem_cons.mp hmem
  simp only [mem_cons, not_mem_nil, reduceCtorEq, or_false] at hcall
  rw [(TimelineCall.initializeAgent.inj hcall).1]
  refine ⟨by decide, ?_⟩
  apply (below_explicit_iff rfl "now").mp
  decide

end InMemoryAgentTimelineStore

end Orqara.Timeline
