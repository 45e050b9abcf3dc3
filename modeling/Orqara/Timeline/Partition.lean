import Orqara.Library.Grouping
import Orqara.Library.Ranges
import Orqara.Timeline.Projection

/-!
# The projection partitions the rows

Every entry of the projected timeline stands for a group of rows. The three
passes keep this correspondence: collapsing lets a row join an earlier group,
the chunk merges fuse two neighbouring groups.
-/

namespace Orqara.Timeline

open Ranges

/-- The seqs that an entry lists as its sources. -/
def TimelineProjectionEntry.Owns (entry : TimelineProjectionEntry) (seq : ℤ) : Prop :=
  Covers TimelineSeqRange.startSeq TimelineSeqRange.endSeq entry.sourceSeqRanges seq

instance (entry : TimelineProjectionEntry) (seq : ℤ) : Decidable (entry.Owns seq) :=
  inferInstanceAs (Decidable (∃ r ∈ entry.sourceSeqRanges, r.startSeq ≤ seq ∧ seq ≤ r.endSeq))

/-- Sorted, pairwise disjoint and non-adjacent source ranges. -/
abbrev NormalRanges : List TimelineSeqRange → Prop :=
  Normal TimelineSeqRange.startSeq TimelineSeqRange.endSeq

abbrev RangesCover : List TimelineSeqRange → ℤ → Prop :=
  Covers TimelineSeqRange.startSeq TimelineSeqRange.endSeq

/-! ## Merging source ranges -/

variable {ranges : List TimelineSeqRange}

theorem appendSeqToRanges_spec {seq : ℤ} (h : NormalRanges ranges)
    (hlt : ∀ n, RangesCover ranges n → n < seq) :
    NormalRanges (appendSeqToRanges ranges seq) ∧
      ∀ n, RangesCover (appendSeqToRanges ranges seq) n ↔ RangesCover ranges n ∨ n = seq := by
  rcases List.eq_nil_or_concat' ranges with rfl | ⟨front, last, rfl⟩
  · refine ⟨.singleton le_rfl, fun n => ?_⟩
    simp [appendSeqToRanges, RangesCover, le_antisymm_iff, and_comm]
  · have hlast := h.nonempty last (by simp)
    have hend := hlt last.endSeq (h.covers_hi (by simp))
    simp only [appendSeqToRanges, List.getLast?_concat, List.dropLast_concat]
    split
    · refine ⟨h.extend rfl (by simp only; omega), fun n => ?_⟩
      simp only [RangesCover, covers_append, covers_singleton]
      constructor
      · rintro (hf | hl)
        · exact .inl (.inl hf)
        · by_cases hn : n ≤ last.endSeq
          · exact .inl (.inr ⟨hl.1, hn⟩)
          · exact .inr (by omega)
      · rintro ((hf | hl) | rfl)
        · exact .inl hf
        · exact .inr (by omega)
        · exact .inr (by omega)
    · refine ⟨h.push le_rfl ?_, fun n => ?_⟩
      · intro a ha
        have := h.hi_le_last ha
        simp only
        omega
      · simp only [RangesCover, covers_append, covers_singleton]
        rw [show seq ≤ n ∧ n ≤ seq ↔ n = seq by omega]

/-- Appending an increasing run of seqs, all past the ranges. -/
theorem foldl_appendSeqToRanges_spec {seqs : List ℤ} :
    ∀ {ranges : List TimelineSeqRange}, NormalRanges ranges → seqs.Pairwise (· < ·) →
      (∀ n, RangesCover ranges n → ∀ seq ∈ seqs, n < seq) →
      NormalRanges (seqs.foldl appendSeqToRanges ranges) ∧
        ∀ n, RangesCover (seqs.foldl appendSeqToRanges ranges) n ↔
          RangesCover ranges n ∨ n ∈ seqs := by
  induction seqs with
  | nil =>
    intro ranges h _ _
    exact ⟨h, by simp⟩
  | cons seq seqs ih =>
    intro ranges h hsorted hlt
    obtain ⟨hhead, htail⟩ := List.pairwise_cons.mp hsorted
    obtain ⟨hnormal, hcovers⟩ :=
      appendSeqToRanges_spec h fun n hn => hlt n hn seq (List.mem_cons_self ..)
    obtain ⟨hnormal', hcovers'⟩ := ih hnormal htail (by
      intro n hn s hs
      rcases (hcovers n).mp hn with hn | rfl
      · exact hlt n hn s (List.mem_cons_of_mem _ hs)
      · exact hhead s hs)
    refine ⟨hnormal', fun n => ?_⟩
    rw [List.foldl_cons, hcovers', hcovers, List.mem_cons, or_assoc]

theorem TimelineSeqRange.mem_seqs {range : TimelineSeqRange} {n : ℤ} :
    n ∈ range.seqs ↔ range.startSeq ≤ n ∧ n ≤ range.endSeq := by
  simp only [TimelineSeqRange.seqs, List.mem_map, List.mem_range]
  constructor
  · rintro ⟨k, hk, rfl⟩
    omega
  · intro h
    exact ⟨(n - range.startSeq).toNat, by omega, by omega⟩

theorem TimelineSeqRange.seqs_sorted (range : TimelineSeqRange) :
    range.seqs.Pairwise (· < ·) := by
  refine List.Pairwise.map _ (fun a b hab => ?_) List.pairwise_lt_range
  simpa using hab

theorem mergeSeqRanges_eq_foldl (existing incoming : List TimelineSeqRange) :
    mergeSeqRanges existing incoming =
      (incoming.flatMap TimelineSeqRange.seqs).foldl appendSeqToRanges existing := by
  rw [mergeSeqRanges, List.foldl_flatMap]

theorem normalRanges_seqs_sorted (h : NormalRanges ranges) :
    (ranges.flatMap TimelineSeqRange.seqs).Pairwise (· < ·) := by
  rw [List.pairwise_flatMap]
  refine ⟨fun r _ => r.seqs_sorted, h.gaps.imp fun {a b} hab m hm n hn => ?_⟩
  rw [TimelineSeqRange.mem_seqs] at hm hn
  omega

/-- Merging ranges that lie past the existing ones keeps the list normal and
adds exactly the seqs of the incoming ranges. -/
theorem mergeSeqRanges_spec {existing incoming : List TimelineSeqRange}
    (hexisting : NormalRanges existing) (hincoming : NormalRanges incoming)
    (hlt : ∀ m, RangesCover existing m → ∀ n, RangesCover incoming n → m < n) :
    NormalRanges (mergeSeqRanges existing incoming) ∧
      ∀ n, RangesCover (mergeSeqRanges existing incoming) n ↔
        RangesCover existing n ∨ RangesCover incoming n := by
  have hmem : ∀ n, n ∈ incoming.flatMap TimelineSeqRange.seqs ↔ RangesCover incoming n := by
    simp [TimelineSeqRange.mem_seqs, RangesCover, Covers]
  rw [mergeSeqRanges_eq_foldl]
  simp only [← hmem]
  exact foldl_appendSeqToRanges_spec hexisting (normalRanges_seqs_sorted hincoming)
    fun m hm n hn => hlt m hm n ((hmem n).mp hn)

/-! ## Entries and the groups of rows they stand for -/

/-- The two items whose text arrives in chunks. -/
inductive ChunkKind
  | assistant | reasoning

/-- The text of an item, when it is a chunk of the kind. -/
def chunkText : ChunkKind → AgentTimelineItem → Option String
  | .assistant, .assistantMessage text _ => some text
  | .reasoning, .reasoning text => some text
  | _, _ => none

/-- The rows are all chunks of the kind, and `text` is their texts in order. -/
def ChunksSpell (kind : ChunkKind) (rows : List AgentTimelineRow) (text : String) : Prop :=
  ∃ texts, (rows.map fun row => chunkText kind row.item) = texts.map some ∧
    text = String.join texts

/-- `entry` stands for the rows of `group`, which are in seq order. -/
structure Represents (group : List AgentTimelineRow) (entry : TimelineProjectionEntry) :
    Prop where
  owns : ∀ seq, entry.Owns seq ↔ ∃ row ∈ group, row.seq = seq
  normal : NormalRanges entry.sourceSeqRanges
  first : group.head?.map (·.seq) = some entry.seqStart
  last : group.getLast?.map (·.seq) = some entry.seqEnd
  text : ∀ kind text, chunkText kind entry.item = some text → ChunksSpell kind group text

/-- The entries of an output, each with the group of rows it stands for. -/
structure Tracks (rows : List AgentTimelineRow)
    (output : List (TimelineProjectionEntry × List AgentTimelineRow)) : Prop where
  grouping : Grouping (·.seq) rows (output.map Prod.snd)
  represents : ∀ p ∈ output, Represents p.2 p.1

variable {row : AgentTimelineRow} {group rows : List AgentTimelineRow} {entry : TimelineProjectionEntry}
  {output : List (TimelineProjectionEntry × List AgentTimelineRow)} {group' : List AgentTimelineRow}
  {join : TimelineProjectionEntry → TimelineProjectionEntry → Option TimelineProjectionEntry}

theorem ChunksSpell.singleton {kind : ChunkKind} {text : String} (h : chunkText kind row.item = some text) :
    ChunksSpell kind [row] text :=
  ⟨[text], by simp [h], by simp [String.join]⟩

theorem ChunksSpell.append {kind : ChunkKind} {text text' : String} (h : ChunksSpell kind group text)
    (h' : ChunksSpell kind group' text') :
    ChunksSpell kind (group ++ group') (text ++ text') := by
  obtain ⟨texts, hmap, rfl⟩ := h
  obtain ⟨texts', hmap', rfl⟩ := h'
  exact ⟨texts ++ texts', by simp [hmap, hmap'], by simp⟩

section

variable (h : Represents group entry)
include h

/-- The seqs of a group lie between the ends of its entry. -/
theorem Represents.seqStart_le (hsorted : group.Pairwise fun a b => a.seq < b.seq) (hrow : row ∈ group) :
    entry.seqStart ≤ row.seq := by
  cases group with
  | nil => simp at hrow
  | cons first rest =>
    have hfirst := h.first
    simp only [List.head?_cons, Option.map_some, Option.some.injEq] at hfirst
    rcases List.mem_cons.mp hrow with rfl | hrest
    · omega
    · have := (List.pairwise_cons.mp hsorted).1 row hrest
      omega

theorem Represents.le_seqEnd (hsorted : group.Pairwise fun a b => a.seq < b.seq) (hrow : row ∈ group) :
    row.seq ≤ entry.seqEnd := by
  rcases List.eq_nil_or_concat' group with rfl | ⟨front, last, rfl⟩
  · simp at hrow
  · have hlast := h.last
    simp only [List.getLast?_concat, Option.map_some, Option.some.injEq] at hlast
    rcases List.mem_append.mp hrow with hfront | hl
    · have := (List.pairwise_append.mp hsorted).2.2 row hfront last (by simp)
      omega
    · rw [List.mem_singleton.mp hl]
      omega

theorem Represents.owns_seqStart :
    entry.Owns entry.seqStart := by
  obtain ⟨row, hrow, hseq⟩ := Option.map_eq_some_iff.mp h.first
  exact (h.owns _).mpr ⟨row, List.mem_of_mem_head? hrow, hseq⟩

theorem Represents.owns_seqEnd :
    entry.Owns entry.seqEnd := by
  obtain ⟨row, hrow, hseq⟩ := Option.map_eq_some_iff.mp h.last
  exact (h.owns _).mpr ⟨row, List.mem_of_mem_getLast? hrow, hseq⟩

end

/-- An entry that takes over the sources, the start and the end of two entries
represents both groups together. -/
theorem Represents.append {previous joined : TimelineProjectionEntry} (h : Represents group previous)
    (h' : Represents group' entry) (hlt : ∀ a ∈ group, ∀ b ∈ group', a.seq < b.seq)
    (hranges : joined.sourceSeqRanges =
      mergeSeqRanges previous.sourceSeqRanges entry.sourceSeqRanges)
    (hstart : joined.seqStart = previous.seqStart) (hend : joined.seqEnd = entry.seqEnd)
    (htext : ∀ kind text, chunkText kind joined.item = some text →
      ∃ t t', chunkText kind previous.item = some t ∧ chunkText kind entry.item = some t' ∧
        text = t ++ t') :
    Represents (group ++ group') joined := by
  obtain ⟨hnormal, hcovers⟩ := mergeSeqRanges_spec h.normal h'.normal (by
    intro m hm n hn
    obtain ⟨a, ha, rfl⟩ := (h.owns m).mp hm
    obtain ⟨b, hb, rfl⟩ := (h'.owns n).mp hn
    exact hlt a ha b hb)
  refine ⟨fun seq => ?_, hranges ▸ hnormal, ?_, ?_, ?_⟩
  · rw [TimelineProjectionEntry.Owns, hranges]
    refine (hcovers seq).trans ((or_congr (h.owns seq) (h'.owns seq)).trans ?_)
    simp only [List.mem_append, or_and_right, exists_or]
  · obtain ⟨row, hrow, hseq⟩ := Option.map_eq_some_iff.mp h.first
    rw [List.head?_append, hrow, hstart, ← hseq]
    rfl
  · obtain ⟨row, hrow, hseq⟩ := Option.map_eq_some_iff.mp h'.last
    rw [List.getLast?_append, hrow, hend, ← hseq]
    rfl
  · intro kind text hitem
    obtain ⟨t, t', ht, ht', rfl⟩ := htext kind text hitem
    exact (h.text kind t ht).append (h'.text kind t' ht')

/-! ## Collapsing -/

/-- The entry that `makeCanonicalEntries` builds for one row. -/
def canonicalEntry (row : AgentTimelineRow) : TimelineProjectionEntry where
  item := row.item
  turnId := row.turnId.filter (· ≠ "")
  timestamp := row.timestamp
  seqStart := row.seq
  seqEnd := row.seq
  sourceSeqRanges := [⟨row.seq, row.seq⟩]
  collapsed := []

theorem makeCanonicalEntries_eq_map (rows : List AgentTimelineRow) :
    makeCanonicalEntries rows = rows.map canonicalEntry := rfl

theorem represents_canonicalEntry (row : AgentTimelineRow) :
    Represents [row] (canonicalEntry row) := by
  refine ⟨fun seq => ?_, .singleton le_rfl, rfl, rfl, fun kind text h => .singleton h⟩
  simp [TimelineProjectionEntry.Owns, canonicalEntry, le_antisymm_iff]

/-- What merging two updates of one item keeps of each. -/
theorem mergeIdentityEntries_spec {existing merged : TimelineProjectionEntry}
    (h : mergeIdentityEntries existing entry = some merged) :
    merged.sourceSeqRanges = mergeSeqRanges existing.sourceSeqRanges entry.sourceSeqRanges ∧
      merged.seqStart = existing.seqStart ∧
      (merged.seqEnd = max existing.seqEnd entry.seqEnd ∨ merged.seqEnd = entry.seqEnd) ∧
      ∀ kind, chunkText kind merged.item = none := by
  unfold mergeIdentityEntries at h
  split at h
  · split at h
    · simp at h
    · obtain rfl := Option.some.inj h
      exact ⟨rfl, rfl, .inl rfl, fun kind => by cases kind <;> rfl⟩
  · rename_i _ _ hitem _
    obtain rfl := Option.some.inj h
    exact ⟨rfl, rfl, .inr rfl, fun kind => by cases kind <;> simp [hitem, chunkText]⟩
  · simp at h

/-- One step of the collapse either appends its entry or merges it into one
that is already in the output. -/
theorem collapseStep_cases (state : CollapseState) (entry : TimelineProjectionEntry) :
    (collapseStep state entry).output = state.output ++ [entry] ∨
      ∃ i existing merged, state.output[i]? = some existing ∧
        mergeIdentityEntries existing entry = some merged ∧
        (collapseStep state entry).output = state.output.set i merged := by
  unfold collapseStep
  split
  · exact .inl rfl
  · split
    · exact .inl rfl
    · rename_i i _
      split
      · exact .inl rfl
      · rename_i merged hmerged
        obtain ⟨existing, hexisting, hmerge⟩ := Option.bind_eq_some_iff.mp hmerged
        exact .inr ⟨i, existing, merged, hexisting, hmerge, rfl⟩

/-- The step keeps the correspondence, for a row past all earlier ones. -/
theorem Tracks.collapseStep {state : CollapseState} (h : Tracks rows output)
    (hout : state.output = output.map Prod.fst) (hlt : ∀ a ∈ rows, a.seq < row.seq) :
    ∃ output', (Timeline.collapseStep state (canonicalEntry row)).output = output'.map Prod.fst ∧
      Tracks (rows ++ [row]) output' := by
  rcases collapseStep_cases state (canonicalEntry row) with hpush | ⟨i, existing, merged, hi, hm, hset⟩
  · refine ⟨output ++ [(canonicalEntry row, [row])], by simp [hpush, hout], ?_, ?_⟩
    · simpa using h.grouping.push hlt
    · intro p hp
      rcases List.mem_append.mp hp with hp | hp
      · exact h.represents p hp
      · rw [List.mem_singleton.mp hp]
        exact represents_canonicalEntry row
  · rw [hout, List.getElem?_map] at hi
    obtain ⟨⟨existing', group⟩, hp, rfl⟩ := Option.map_eq_some_iff.mp hi
    have hgroup := h.represents _ (List.mem_of_getElem? hp)
    have hgi : (output.map Prod.snd)[i]? = some group := by simp [hp]
    have hmem : group ∈ output.map Prod.snd := List.mem_of_getElem? hgi
    have hlt' : ∀ a ∈ group, ∀ b ∈ [row], a.seq < b.seq := by
      intro a ha b hb
      rw [List.mem_singleton.mp hb]
      exact hlt a (h.grouping.mem_items hmem ha)
    obtain ⟨hranges, hstart, hend, hitem⟩ := mergeIdentityEntries_spec hm
    have hlast : existing'.seqEnd < row.seq := by
      obtain ⟨a, ha, hseq⟩ := (hgroup.owns _).mp hgroup.owns_seqEnd
      rw [← hseq]
      exact hlt' a ha row (by simp)
    refine ⟨output.set i (merged, group ++ [row]), by rw [hset, hout, List.map_set], ?_, ?_⟩
    · rw [List.map_set]
      exact h.grouping.extend hlt hgi
    · intro p hp
      rcases List.mem_or_eq_of_mem_set hp with hp | rfl
      · exact h.represents p hp
      · refine hgroup.append (represents_canonicalEntry row) hlt' hranges hstart ?_ ?_
        · rcases hend with hend | hend
          · rw [hend, max_eq_right]
            exact hlast.le
          · exact hend
        · intro kind text htext
          rw [hitem kind] at htext
          cases htext

/-- The loop keeps it: induction on the rows still to come. -/
theorem Tracks.foldl_collapseStep (rest : List AgentTimelineRow) :
    ∀ {rows : List AgentTimelineRow} {state : CollapseState}
      {output : List (TimelineProjectionEntry × List AgentTimelineRow)},
      Tracks rows output → state.output = output.map Prod.fst →
      (rows ++ rest).Pairwise (fun a b => a.seq < b.seq) →
      ∃ output', ((rest.map canonicalEntry).foldl Timeline.collapseStep state).output =
          output'.map Prod.fst ∧ Tracks (rows ++ rest) output' := by
  induction rest with
  | nil =>
    intro rows state output h hout _
    exact ⟨output, by simpa using hout, by simpa using h⟩
  | cons row rest ih =>
    intro rows state output h hout hsorted
    obtain ⟨output', hout', h'⟩ := h.collapseStep hout fun a ha =>
      (List.pairwise_append.mp hsorted).2.2 a ha row (by simp)
    have hassoc : rows ++ row :: rest = (rows ++ [row]) ++ rest := by simp
    rw [hassoc] at hsorted ⊢
    exact ih h' hout' hsorted

theorem tracks_collapseByIdentity (hrows : rows.Pairwise fun a b => a.seq < b.seq) :
    ∃ output, collapseByIdentity (makeCanonicalEntries rows) = output.map Prod.fst ∧
      Tracks rows output := by
  have h : Tracks [] [] := ⟨.nil, by simp⟩
  simpa [collapseByIdentity, makeCanonicalEntries_eq_map] using
    h.foldl_collapseStep rows (show (⟨[], []⟩ : CollapseState).output = _ from rfl)
      (by simpa using hrows)

/-! ## The chunk merges -/

/-- What a chunk merge does with two neighbouring entries it joins. -/
structure JoinSpec (previous entry joined : TimelineProjectionEntry) : Prop where
  adjacent : previous.seqEnd + 1 = entry.seqStart
  ranges : joined.sourceSeqRanges =
    mergeSeqRanges previous.sourceSeqRanges entry.sourceSeqRanges
  start : joined.seqStart = previous.seqStart
  last : joined.seqEnd = entry.seqEnd
  text : ∀ kind text, chunkText kind joined.item = some text →
    ∃ t t', chunkText kind previous.item = some t ∧ chunkText kind entry.item = some t' ∧
      text = t ++ t'

theorem joinReasoning_spec {previous joined : TimelineProjectionEntry}
    (h : joinReasoning previous entry = some joined) : JoinSpec previous entry joined := by
  unfold joinReasoning at h
  split at h
  · rename_i text text' hprevious hentry
    split at h
    · rename_i hnext
      obtain rfl := Option.some.inj h
      refine ⟨by simpa using (of_decide_eq_true hnext).1, rfl, rfl, rfl, ?_⟩
      intro kind t ht
      cases kind with
      | assistant => simp [joinChunk, chunkText] at ht
      | reasoning => exact ⟨text, text', by simp_all [joinChunk, chunkText]⟩
    · simp at h
  · simp at h

theorem joinAssistant_spec {previous joined : TimelineProjectionEntry}
    (h : joinAssistant previous entry = some joined) : JoinSpec previous entry joined := by
  unfold joinAssistant at h
  split at h
  · rename_i text _ text' _ hprevious hentry
    split at h
    · rename_i hnext
      split at h
      · simp at h
      · obtain rfl := Option.some.inj h
        refine ⟨by simpa using (of_decide_eq_true hnext).1, rfl, rfl, rfl, ?_⟩
        intro kind t ht
        cases kind with
        | assistant => exact ⟨text, text', by simp_all [joinChunk, chunkText]⟩
        | reasoning => simp [joinChunk, chunkText] at ht
    · simp at h
  · simp at h

/-- A pass that joins neighbours by `join` keeps the correspondence: induction
on the entries that follow `previous`, with the finished output in `front`. -/
theorem Tracks.mergeChunksFrom (hjoin : ∀ previous entry joined, join previous entry = some joined →
      JoinSpec previous entry joined) {rest : List (TimelineProjectionEntry × List AgentTimelineRow)} :
    ∀ {front : List (TimelineProjectionEntry × List AgentTimelineRow)}
      {previous : TimelineProjectionEntry} {group : List AgentTimelineRow},
      Tracks rows (front ++ (previous, group) :: rest) →
      ∃ output, Timeline.mergeChunksFrom join previous (rest.map Prod.fst) =
          output.map Prod.fst ∧ Tracks rows (front ++ output) := by
  induction rest with
  | nil =>
    intro front previous group h
    exact ⟨[(previous, group)], rfl, h⟩
  | cons next rest ih =>
    intro front previous group h
    obtain ⟨entry, group'⟩ := next
    simp only [List.map_cons, Timeline.mergeChunksFrom]
    cases hj : join previous entry with
    | none =>
      have hassoc : front ++ (previous, group) :: (entry, group') :: rest =
          (front ++ [(previous, group)]) ++ (entry, group') :: rest := by simp
      rw [hassoc] at h
      obtain ⟨output, hout, h'⟩ := ih h
      exact ⟨(previous, group) :: output, by simp [hout], by simpa using h'⟩
    | some joined =>
      have hspec := hjoin _ _ _ hj
      have hprevious : Represents group previous := h.represents (previous, group) (by simp)
      have hentry : Represents group' entry := h.represents (entry, group') (by simp)
      have hgroups := h.grouping
      simp only [List.map_append, List.map_cons] at hgroups
      have hlt : ∀ a ∈ group, ∀ b ∈ group', a.seq < b.seq := by
        intro a ha b hb
        have h1 := hprevious.le_seqEnd (hgroups.sorted group (by simp)) ha
        have h2 := hentry.seqStart_le (hgroups.sorted group' (by simp)) hb
        have h3 := hspec.adjacent
        omega
      refine @ih front joined (group ++ group') ⟨?_, ?_⟩
      · simpa using hgroups.fuse hlt
      · intro p hp
        rcases List.mem_append.mp hp with hp | hp
        · exact h.represents p (by simp [hp])
        rcases List.mem_cons.mp hp with rfl | hp
        · exact hprevious.append hentry hlt hspec.ranges hspec.start hspec.last hspec.text
        · exact h.represents p (by simp [hp])

theorem Tracks.mergeChunks (hjoin : ∀ previous entry joined, join previous entry = some joined →
      JoinSpec previous entry joined) (h : Tracks rows output) :
    ∃ output', Timeline.mergeChunks join (output.map Prod.fst) = output'.map Prod.fst ∧
      Tracks rows output' := by
  cases output with
  | nil => exact ⟨[], rfl, h⟩
  | cons p rest => exact Tracks.mergeChunksFrom hjoin (show Tracks rows ([] ++ p :: rest) from h)

/-- The projected timeline, with the rows each entry stands for. -/
theorem tracks_projectTimelineRows (hrows : rows.Pairwise fun a b => a.seq < b.seq) :
    ∃ output, projectTimelineRows rows .projected = output.map Prod.fst ∧
      Tracks rows output := by
  obtain ⟨output, hcollapse, h⟩ := tracks_collapseByIdentity hrows
  obtain ⟨output₁, hassistant, h₁⟩ := h.mergeChunks fun _ _ _ => joinAssistant_spec
  obtain ⟨output₂, hreasoning, h₂⟩ := h₁.mergeChunks fun _ _ _ => joinReasoning_spec
  refine ⟨output₂, ?_, h₂⟩
  rw [projectTimelineRows, hcollapse, mergeAssistantChunks, hassistant, mergeReasoningChunks,
    hreasoning]

/-! ## The partition -/

section

variable (h : Tracks rows output)
include h

/-- The rows an entry owns are exactly the rows of its group, in order. -/
theorem Tracks.filter_owns (hrows : rows.Pairwise fun a b => a.seq < b.seq)
    {p : TimelineProjectionEntry × List AgentTimelineRow} (hp : p ∈ output) :
    rows.filter (fun row => p.1.Owns row.seq) = p.2 := by
  have hgroup := h.represents p hp
  have hmem : p.2 ∈ output.map Prod.snd := List.mem_map_of_mem hp
  have hsorted := h.grouping.sorted p.2 hmem
  have hfiltered : (rows.filter fun row => p.1.Owns row.seq).Pairwise
      fun a b => a.seq < b.seq := hrows.sublist List.filter_sublist
  have hinj : ∀ a ∈ rows, ∀ b ∈ rows, a.seq = b.seq → a = b := by
    have hnd : (rows.map (·.seq)).Nodup :=
      (List.pairwise_map.mpr hrows).imp fun hab => hab.ne
    exact fun a ha b hb hab => List.inj_on_of_nodup_map hnd ha hb hab
  refine List.Perm.eq_of_pairwise ?_ hfiltered hsorted ?_
  · intro a b _ _ hab hba
    omega
  · refine (List.perm_ext_iff_of_nodup ?_ ?_).mpr fun row => ?_
    · exact hfiltered.imp fun hab heq => by simp [heq] at hab
    · exact hsorted.imp fun hab heq => by simp [heq] at hab
    · simp only [List.mem_filter, decide_eq_true_eq, hgroup.owns]
      constructor
      · rintro ⟨hrow, row', hrow', hseq⟩
        rwa [← hinj row' (h.grouping.mem_items hmem hrow') row hrow hseq]
      · intro hrow
        exact ⟨h.grouping.mem_items hmem hrow, row, hrow, rfl⟩

/-- Entries keep the order of their first rows. -/
theorem Tracks.seqStart_increasing :
    (output.map Prod.fst).Pairwise fun a b => a.seqStart < b.seqStart := by
  have hheads := h.grouping.heads
  rw [List.map_map, List.pairwise_map] at hheads
  rw [List.pairwise_map]
  refine hheads.imp_of_mem fun {p q} hp hq hpq => ?_
  obtain ⟨a, ha, hstart⟩ := Option.map_eq_some_iff.mp (h.represents p hp).first
  obtain ⟨b, hb, hstart'⟩ := Option.map_eq_some_iff.mp (h.represents q hq).first
  rw [← hstart, ← hstart']
  exact hpq a ha b hb

/-- Two entries that own one seq are the same entry. -/
theorem Tracks.owner_unique (hrows : rows.Pairwise fun a b => a.seq < b.seq)
    {e e' : TimelineProjectionEntry} (he : e ∈ output.map Prod.fst) (he' : e' ∈ output.map Prod.fst)
    {seq : ℤ} (ho : e.Owns seq) (ho' : e'.Owns seq) :
    e = e' := by
  have hnd : (rows.map (·.seq)).Nodup := (List.pairwise_map.mpr hrows).imp fun hab => hab.ne
  obtain ⟨p, hp, rfl⟩ := List.mem_map.mp he
  obtain ⟨q, hq, rfl⟩ := List.mem_map.mp he'
  obtain ⟨i, hi⟩ := List.mem_iff_getElem?.mp hp
  obtain ⟨j, hj⟩ := List.mem_iff_getElem?.mp hq
  obtain ⟨a, ha, haseq⟩ := ((h.represents p hp).owns seq).mp ho
  obtain ⟨b, hb, hbseq⟩ := ((h.represents q hq).owns seq).mp ho'
  have hgi : (output.map Prod.snd)[i]? = some p.2 := by simp [hi]
  have hgj : (output.map Prod.snd)[j]? = some q.2 := by simp [hj]
  obtain rfl := h.grouping.group_unique hnd hgi hgj ha hb (haseq.trans hbseq.symm)
  rw [Option.some.inj (hi.symm.trans hj)]

end

section Projected

variable {rows : List AgentTimelineRow} (hrows : rows.Pairwise fun a b => a.seq < b.seq)
  {e : TimelineProjectionEntry}

include hrows

theorem projected_seqStart_increasing :
    (projectTimelineRows rows .projected).Pairwise fun a b => a.seqStart < b.seqStart := by
  obtain ⟨output, hout, h⟩ := tracks_projectTimelineRows hrows
  exact hout ▸ h.seqStart_increasing

theorem projected_exists_owner {row : AgentTimelineRow} (hrow : row ∈ rows) :
    ∃ e ∈ projectTimelineRows rows .projected, e.Owns row.seq := by
  obtain ⟨output, hout, h⟩ := tracks_projectTimelineRows hrows
  obtain ⟨group, hgroup, hmem⟩ := h.grouping.exists_group hrow
  obtain ⟨p, hp, rfl⟩ := List.mem_map.mp hgroup
  exact ⟨p.1, hout ▸ List.mem_map_of_mem hp, ((h.represents p hp).owns _).mpr ⟨row, hmem, rfl⟩⟩

section

variable (he : e ∈ projectTimelineRows rows .projected)
include he

theorem projected_owner_unique {e' : TimelineProjectionEntry}
    (he' : e' ∈ projectTimelineRows rows .projected) {seq : ℤ} (ho : e.Owns seq) (ho' : e'.Owns seq) :
    e = e' := by
  obtain ⟨output, hout, h⟩ := tracks_projectTimelineRows hrows
  exact h.owner_unique hrows (hout ▸ he) (hout ▸ he') ho ho'

/-- An entry of the projection with the group of rows it stands for. -/
theorem projected_group :
    Represents (rows.filter fun row => e.Owns row.seq) e := by
  obtain ⟨output, hout, h⟩ := tracks_projectTimelineRows hrows
  obtain ⟨p, hp, rfl⟩ := List.mem_map.mp (hout ▸ he)
  rw [h.filter_owns hrows hp]
  exact h.represents p hp

theorem projected_owned_row {seq : ℤ} (ho : e.Owns seq) :
    ∃ row ∈ rows, row.seq = seq := by
  obtain ⟨row, hrow, hseq⟩ := ((projected_group hrows he).owns seq).mp ho
  exact ⟨row, (List.mem_filter.mp hrow).1, hseq⟩

theorem projected_seqStart_isLeast :
    IsLeast {seq | e.Owns seq} e.seqStart := by
  have hgroup := projected_group hrows he
  refine ⟨hgroup.owns_seqStart, fun seq ho => ?_⟩
  obtain ⟨row, hrow, rfl⟩ := (hgroup.owns seq).mp ho
  exact hgroup.seqStart_le (hrows.sublist List.filter_sublist) hrow

theorem projected_seqEnd_isGreatest :
    IsGreatest {seq | e.Owns seq} e.seqEnd := by
  have hgroup := projected_group hrows he
  refine ⟨hgroup.owns_seqEnd, fun seq ho => ?_⟩
  obtain ⟨row, hrow, rfl⟩ := (hgroup.owns seq).mp ho
  exact hgroup.le_seqEnd (hrows.sublist List.filter_sublist) hrow

theorem projected_seqStart_le_seqEnd :
    e.seqStart ≤ e.seqEnd :=
  (projected_seqStart_isLeast hrows he).2 (projected_seqEnd_isGreatest hrows he).1

end

end Projected

/-- Every row belongs to exactly one entry and nothing else does; the source
ranges are normal and bounded by `seqStart` and `seqEnd`; entries are in the
order of `seqStart`; and a chunk entry spells the texts of the rows it owns. -/
theorem projectTimelineRows_partition (rows : List AgentTimelineRow)
    (hrows : rows.Pairwise fun a b => a.seq < b.seq) :
    (∀ row ∈ rows, ∃! e, e ∈ projectTimelineRows rows .projected ∧ e.Owns row.seq) ∧
    (projectTimelineRows rows .projected).Pairwise (fun a b => a.seqStart < b.seqStart) ∧
    ∀ e ∈ projectTimelineRows rows .projected,
      (∀ seq, e.Owns seq → ∃ row ∈ rows, row.seq = seq) ∧
      NormalRanges e.sourceSeqRanges ∧
      IsLeast {seq | e.Owns seq} e.seqStart ∧ IsGreatest {seq | e.Owns seq} e.seqEnd ∧
      ∀ kind text, chunkText kind e.item = some text →
        ChunksSpell kind (rows.filter fun row => e.Owns row.seq) text := by
  refine ⟨fun row hrow => ?_, projected_seqStart_increasing hrows, fun e he => ?_⟩
  · obtain ⟨e, he, ho⟩ := projected_exists_owner hrows hrow
    exact ⟨e, ⟨he, ho⟩, fun e' he' => projected_owner_unique hrows he'.1 he he'.2 ho⟩
  · have hgroup := projected_group hrows he
    exact ⟨fun seq ho => projected_owned_row hrows he ho, hgroup.normal,
      projected_seqStart_isLeast hrows he, projected_seqEnd_isGreatest hrows he, hgroup.text⟩

/-- A tool call that runs while the assistant speaks, with a chunk on each side
of its last update. -/
def interleavedRows : List AgentTimelineRow :=
  let tool (status : ToolCallStatus) : AgentTimelineItem :=
    .toolCall ⟨"call", "bash", status, some .null, ⟨.shell, [("command", .str "ls")]⟩, none, []⟩
  [⟨1, "t1", tool .running, some "turn", none⟩,
    ⟨2, "t2", .assistantMessage "Listing" none, some "turn", none⟩,
    ⟨3, "t3", .assistantMessage " files" none, some "turn", none⟩,
    ⟨4, "t4", tool .completed, some "turn", none⟩,
    ⟨5, "t5", .assistantMessage "Done" none, some "turn", none⟩]

theorem projectTimelineRows_partition_interleaved :
    ∃! e, e ∈ projectTimelineRows interleavedRows .projected ∧ e.Owns 4 :=
  (projectTimelineRows_partition interleavedRows (by decide)).1
    (interleavedRows.get ⟨3, by decide⟩) (List.get_mem ..)

end Orqara.Timeline
