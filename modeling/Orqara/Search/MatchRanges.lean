import Orqara.Search.TextMatch

/-!
# What is highlighted

The ranges that are derived from a score are sorted, disjoint and inside the text, and spell the
query, where the text lower-cases piece by piece.
-/

namespace Orqara.Search

open JsonParse LowerCase List Option

variable {data : CaseData} {query text : Units} {best : Option MatchScore} {score : MatchScore} {pos : ℕ}

/-! ## The best substring -/

theorem occursAt_iff : occursAt query text pos = true ↔
    (text.drop pos).take query.length = query ∧ pos + query.length ≤ text.length := by
  unfold occursAt
  rw [Bool.and_eq_true, isPrefixOf_iff_prefix, prefix_iff_eq_take, decide_eq_true_eq,
    eq_comm]

theorem indexOf_eq_some {found : ℕ} (h : indexOf query text pos = some found) :
    pos ≤ found ∧ occursAt query text found = true ∧
      ∀ i, pos ≤ i → i < found → occursAt query text i = false := by
  unfold indexOf at h
  have hmem := mem_of_find?_eq_some h
  rw [mem_range'_1] at hmem
  refine ⟨hmem.1, find?_some h, ?_⟩
  intro i hi hlt
  rw [find?_range'_eq_some] at h
  have hnot := h.2.2 i hi hlt
  simpa using hnot

theorem indexOf_eq_none (h : indexOf query text pos = none) :
    ∀ i, pos ≤ i → occursAt query text i = false := by
  intro i hi
  by_cases hlt : i < text.length + 1
  · have hnot := find?_eq_none.mp h i (by rw [mem_range'_1]; omega)
    simpa using hnot
  · rw [Bool.eq_false_iff]
    intro hoccurs
    have hinside := (occursAt_iff.mp hoccurs).2
    omega

/-- One pair of tier and offset is at least as good as another. -/
def AsGood (tier offset tier' offset' : ℕ) : Prop := tier < tier' ∨ tier = tier' ∧ offset ≤ offset'

/-- The best score of the occurrences before a position. -/
def BestBefore (query text : Units) (pos : ℕ) : Option MatchScore → Prop
  | none => ∀ i < pos, occursAt query text i = false
  | some score => score.offset < pos ∧ occursAt query text score.offset = true ∧
    score.tier = substringTier query text score.offset ∧
    ∀ i < pos, occursAt query text i = true →
      AsGood score.tier score.offset (substringTier query text i) i

/-- Positions without an occurrence change nothing. -/
theorem BestBefore.extend {pos' : ℕ} (h : BestBefore query text pos best) (hle : pos ≤ pos')
    (hnone : ∀ i, pos ≤ i → i < pos' → occursAt query text i = false) :
    BestBefore query text pos' best := by
  cases best with
  | none =>
    intro i hi
    by_cases hpos : i < pos
    · exact h i hpos
    · exact hnone i (by omega) hi
  | some score =>
    obtain ⟨hoffset, hoccurs, htier, hleast⟩ := h
    refine ⟨by omega, hoccurs, htier, ?_⟩
    intro i hi hoccurs'
    by_cases hpos : i < pos
    · exact hleast i hpos hoccurs'
    · rw [hnone i (by omega) hi] at hoccurs'
      contradiction

/-- The next occurrence is compared with the best one so far. -/
theorem BestBefore.better {found : ℕ} (h : BestBefore query text found best)
    (hfound : occursAt query text found = true) :
    BestBefore query text (found + 1)
      (betterSubstring best (substringTier query text found) found) := by
  have hnew : (∀ i < found, occursAt query text i = true →
      AsGood (substringTier query text found) found (substringTier query text i) i) →
      BestBefore query text (found + 1) (some ⟨substringTier query text found, found, none⟩) := by
    intro hleast
    refine ⟨Nat.lt_succ_self found, hfound, rfl, ?_⟩
    intro i hi hoccurs
    by_cases hlt : i < found
    · exact hleast i hlt hoccurs
    · have heq : i = found := by omega
      rw [heq]
      exact Or.inr ⟨rfl, le_rfl⟩
  cases best with
  | none =>
    apply hnew
    intro i hi hoccurs
    rw [h i hi] at hoccurs
    contradiction
  | some score =>
    obtain ⟨hoffset, hoccurs, htier, hleast⟩ := h
    simp only [betterSubstring]
    split
    · next hbetter =>
      apply hnew
      intro i hi hoccurs'
      have hgood := hleast i hi hoccurs'
      unfold AsGood at hgood ⊢
      omega
    · next hworse =>
      refine ⟨by omega, hoccurs, htier, ?_⟩
      intro i hi hoccurs'
      by_cases hlt : i < found
      · exact hleast i hlt hoccurs'
      · have heq : i = found := by omega
        rw [heq]
        unfold AsGood
        omega

theorem bestBefore_loop (turns : ℕ) (h : BestBefore query text pos best)
    (hturns : text.length + 1 ≤ turns + pos) (hpos : pos ≤ text.length + 1) :
    BestBefore query text (text.length + 1) (substringLoop query text turns pos best) := by
  induction turns generalizing pos best with
  | zero =>
    have heq : pos = text.length + 1 := by omega
    rw [← heq]
    exact h
  | succ turns ih =>
    rw [substringLoop]
    split
    · split
      · next hnone =>
        exact h.extend hpos fun i hi _ => indexOf_eq_none hnone i hi
      · next found hfound =>
        obtain ⟨hle, hoccurs, hbetween⟩ := indexOf_eq_some hfound
        have hinside := (occursAt_iff.mp hoccurs).2
        apply ih
        · exact (h.extend hle hbetween).better hoccurs
        · omega
        · omega
    · next hshort =>
      apply h.extend hpos
      intro i hi _
      rw [Bool.eq_false_iff]
      intro hoccurs
      have hinside := (occursAt_iff.mp hoccurs).2
      omega

theorem scoreSubstringMatch_best (query text : Units) :
    BestBefore query text (text.length + 1) (scoreSubstringMatch query text) := by
  apply bestBefore_loop
  · intro i hi
    omega
  · omega
  · omega

theorem substringTier_mem (query text : Units) (found : ℕ) :
    TIER_WHOLE_WORD ≤ substringTier query text found ∧ substringTier query text found ≤ TIER_SUBSTRING := by
  unfold substringTier
  dsimp only
  split_ifs <;> decide

/-! ## The walk of a subsequence -/

/-- The positions that are matched spell what is gone from the query. -/
theorem walk_spec (before query text : Units) :
    ((walk before.length query text).1.filterMap fun i => (before ++ text)[i]?) ++
        (walk before.length query text).2 = query ∧
      (walk before.length query text).1.Pairwise (· < ·) ∧
      ∀ i ∈ (walk before.length query text).1, before.length ≤ i ∧ i < (before ++ text).length := by
  induction text generalizing before query with
  | nil => simp [walk]
  | cons t text ih =>
    cases query with
    | nil => simp [walk]
    | cons q query =>
      have hrest := ih (before ++ [t])
      rw [length_append, length_singleton] at hrest
      simp only [append_assoc, singleton_append] at hrest
      rw [walk]
      split
      · next heq =>
        obtain ⟨hspells, hsorted, hinside⟩ := hrest query
        refine ⟨?_, ?_, ?_⟩
        · have hhere : (before ++ t :: text)[before.length]? = some t := by simp
          have hcons : ((before.length :: (walk (before.length + 1) query text).1).filterMap
              fun i => (before ++ t :: text)[i]?) =
              t :: ((walk (before.length + 1) query text).1.filterMap
                fun i => (before ++ t :: text)[i]?) := by
            rw [filterMap_cons, hhere]
          rw [hcons, cons_append, hspells, heq]
        · refine pairwise_cons.mpr ⟨?_, hsorted⟩
          intro i hi
          have hlow := (hinside i hi).1
          omega
        · intro i hi
          rcases mem_cons.mp hi with rfl | hi
          · simp
          · obtain ⟨hlow, hhigh⟩ := hinside i hi
            exact ⟨by omega, hhigh⟩
      · obtain ⟨hspells, hsorted, hinside⟩ := hrest (q :: query)
        refine ⟨hspells, hsorted, ?_⟩
        intro i hi
        obtain ⟨hlow, hhigh⟩ := hinside i hi
        exact ⟨by omega, hhigh⟩

/-! ## Ranges of indices -/

def MatchRange.indices (range : MatchRange) : List ℕ := List.range' range.start range.length

/-- The ranges so far, the last one first, cover the indices so far. -/
structure RangesOf (indices : List ℕ) (ranges : List MatchRange) : Prop where
  covers : ranges.reverse.flatMap MatchRange.indices = indices
  nonempty : ∀ range ∈ ranges, 0 < range.length
  sorted : ranges.Pairwise fun later earlier => earlier.start + earlier.length ≤ later.start

theorem rangesOf_push {indices : List ℕ} {ranges : List MatchRange} {index : ℕ}
    (h : RangesOf indices ranges) (hlater : ∀ i ∈ indices, i < index) :
    RangesOf (indices ++ [index]) (pushIndex ranges index) := by
  cases ranges with
  | nil =>
    refine ⟨?_, by simp [pushIndex], by simp [pushIndex]⟩
    have hnil : indices = [] := by simpa using h.covers.symm
    simp [pushIndex, MatchRange.indices, hnil]
  | cons last ranges =>
    have hcovers := h.covers
    rw [reverse_cons, flatMap_append, flatMap_singleton] at hcovers
    have hends : last.start + last.length ≤ index := by
      have hpos := h.nonempty last (by simp)
      have hmem : last.start + last.length - 1 ∈ indices := by
        rw [← hcovers]
        apply mem_append_right
        rw [MatchRange.indices, mem_range'_1]
        omega
      have hlt := hlater _ hmem
      omega
    obtain ⟨hafter, hsorted⟩ := pairwise_cons.mp h.sorted
    simp only [pushIndex]
    split
    · next heq =>
      refine ⟨?_, ?_, ?_⟩
      · rw [reverse_cons, flatMap_append, flatMap_singleton, ← hcovers,
          append_assoc]
        congr 1
        rw [MatchRange.indices, MatchRange.indices, range'_concat, Nat.one_mul, heq]
      · intro range hrange
        rcases mem_cons.mp hrange with rfl | hrange
        · exact Nat.succ_pos _
        · exact h.nonempty range (mem_cons_of_mem _ hrange)
      · exact pairwise_cons.mpr ⟨hafter, hsorted⟩
    · refine ⟨?_, ?_, ?_⟩
      · rw [reverse_cons, flatMap_append, flatMap_singleton, h.covers]
        rfl
      · intro range hrange
        rcases mem_cons.mp hrange with rfl | hrange
        · exact Nat.one_pos
        · exact h.nonempty range hrange
      · refine pairwise_cons.mpr ⟨?_, h.sorted⟩
        intro range hrange
        rcases mem_cons.mp hrange with rfl | hrange
        · exact hends
        · have hle := hafter range hrange
          exact hle.trans ((Nat.le_add_right _ _).trans hends)

theorem rangesOf_merge {indices : List ℕ} (h : indices.Pairwise (· < ·)) :
    RangesOf indices (indices.foldl pushIndex []) := by
  induction indices using List.reverseRecOn with
  | nil => exact ⟨rfl, by simp, List.Pairwise.nil⟩
  | append_singleton indices index ih =>
    obtain ⟨hindices, -, hlater⟩ := pairwise_append.mp h
    rw [foldl_append]
    exact rangesOf_push (ih hindices) fun i hi => hlater i hi index (by simp)

/-- A piece of a list, index by index. -/
theorem take_drop_eq_filterMap (t : Units) (start length : ℕ) :
    (t.drop start).take length = (List.range' start length).filterMap fun i => t[i]? := by
  induction length generalizing start with
  | zero => simp
  | succ length ih =>
    rw [range'_succ, filterMap_cons, ← ih]
    cases hget : t[start]? with
    | none =>
      have hlong : t.length ≤ start := List.getElem?_eq_none_iff.mp hget
      simp [drop_eq_nil_of_le hlong, drop_eq_nil_of_le (Nat.le_succ_of_le hlong)]
    | some u =>
      obtain ⟨hlt, hu⟩ := List.getElem?_eq_some_iff.mp hget
      rw [drop_eq_getElem_cons hlt, take_succ_cons, hu]

/-! ## Words -/

/-- A word starts inside the text. -/
theorem wordsFrom_start {index : ℕ} {current : Option (ℕ × Units)}
    (hcurrent : ∀ start word, current = some (start, word) → start < index) {start : ℕ}
    {word : Units} (h : (start, word) ∈ wordsFrom index current text) : start < index + text.length := by
  induction text generalizing index current with
  | nil =>
    rw [wordsFrom, mem_toList] at h
    exact hcurrent start word h
  | cons ch rest ih =>
    rw [length_cons]
    unfold wordsFrom at h
    split at h
    · split at h
      · have hlt := ih (by
          intro start' word' hsome
          cases hsome
          exact Nat.lt_succ_self index) h
        omega
      · next start' word' =>
        have hlt := ih (by
          intro start'' word'' hsome
          cases hsome
          have hbefore := hcurrent start' word' rfl
          omega) h
        omega
    · rcases mem_append.mp h with h | h
      · rw [mem_toList] at h
        have hbefore := hcurrent start word h
        omega
      · have hlt := ih (by simp) h
        omega

/-- A score of the fuzzy tier that starts inside the text. -/
def FuzzyInside (text : Units) (best : Option MatchScore) : Prop :=
  ∀ score, best = some score → score.tier = TIER_FUZZY ∧ score.offset < text.length

theorem fuzzyInside_better (policy : FuzzyPolicy) (query : Units) (h : FuzzyInside text best) {start : ℕ}
    (hstart : start < text.length) (candidate : Units) :
    FuzzyInside text (betterFuzzy policy query start best candidate) := by
  have hnew : ∀ distance, FuzzyInside text (some ⟨TIER_FUZZY, start, some distance⟩) := by
    intro distance score hscore
    rw [← some.inj hscore]
    exact ⟨rfl, hstart⟩
  unfold betterFuzzy
  split
  · exact h
  · exact hnew _
  · split
    · exact hnew _
    · exact h

theorem scoreFuzzyMatch_inside (query text : Units) (policy : FuzzyPolicy) :
    FuzzyInside text (scoreFuzzyMatch query text policy) := by
  have hnone : FuzzyInside text none := by
    intro score hscore
    contradiction
  unfold scoreFuzzyMatch
  split
  · exact hnone
  · refine List.foldlRecOn (motive := FuzzyInside text) _ _ hnone ?_
    rintro best hbest ⟨start, word⟩ hword
    have hstart : start < text.length := by
      have hlt := wordsFrom_start (by simp) hword
      omega
    refine List.foldlRecOn (motive := FuzzyInside text) _ _ hbest ?_
    intro best' hbest' candidate _
    exact fuzzyInside_better policy query hbest' hstart candidate

/-! ## The ranges of a score -/

/-- The ranges are sorted, disjoint and inside the text; but for the fuzzy tier they spell the
query; and the score of a substring is the best of all occurrences. -/
structure Highlights (data : CaseData) (query text : Units) (score : MatchScore)
    (ranges : List MatchRange) : Prop where
  sorted : ranges.Pairwise fun range later => range.start + range.length ≤ later.start
  inside : ∀ range ∈ ranges, range.start + range.length ≤ text.length
  spells : score.tier ≠ TIER_FUZZY →
    (ranges.flatMap fun range => toLowerCase data ((text.drop range.start).take range.length)) =
      toLowerCase data query
  best : TIER_WHOLE_WORD ≤ score.tier → score.tier ≤ TIER_SUBSTRING →
    occursAt (toLowerCase data query) (toLowerCase data text) score.offset = true ∧
      score.tier = substringTier (toLowerCase data query) (toLowerCase data text) score.offset ∧
      ∀ i, occursAt (toLowerCase data query) (toLowerCase data text) i = true →
        AsGood score.tier score.offset
          (substringTier (toLowerCase data query) (toLowerCase data text) i) i

theorem toLowerCase_nil (data : CaseData) : toLowerCase data [] = [] := rfl

section

variable (hquery : query ≠ [])
include hquery

theorem highlights_exact (hexact : score.tier = TIER_EXACT)
    (hsame : toLowerCase data text = toLowerCase data query) :
    Highlights data query text score (matchRanges data query text score) := by
  have hranges : matchRanges data query text score = [⟨0, text.length⟩] := by
    simp only [matchRanges, if_neg hquery, if_pos hexact]
  rw [hranges]
  refine ⟨by simp, by simp, ?_, ?_⟩
  · intro _
    simpa using hsame
  · intro hlow
    rw [hexact] at hlow
    contradiction

section

variable (hpiecewise : LowersPiecewise data text)
include hpiecewise

/-- One span that lies where the query is in the lower-cased text. -/
theorem highlights_substring
    (hscore : scoreSubstringMatch (toLowerCase data query) (toLowerCase data text) = some score) :
    Highlights data query text score (matchRanges data query text score) := by
  have hbest := scoreSubstringMatch_best (toLowerCase data query) (toLowerCase data text)
  rw [hscore] at hbest
  obtain ⟨hoffset, hoccurs, htier, hleast⟩ := hbest
  obtain ⟨hlow, hhigh⟩ := substringTier_mem (toLowerCase data query) (toLowerCase data text) score.offset
  rw [← htier] at hlow hhigh
  have hranges : matchRanges data query text score =
      [⟨score.offset, (toLowerCase data query).length⟩] := by
    have hexact : score.tier ≠ TIER_EXACT := by
      intro heq
      rw [heq] at hlow
      contradiction
    have hsubsequence : score.tier ≠ TIER_SUBSEQUENCE := by
      intro heq
      rw [heq] at hhigh
      contradiction
    have hfuzzy : score.tier ≠ TIER_FUZZY := by
      intro heq
      rw [heq] at hhigh
      contradiction
    simp only [matchRanges, if_neg hquery, if_neg hexact, if_neg hfuzzy, if_neg hsubsequence]
  obtain ⟨hspells, hinside⟩ := occursAt_iff.mp hoccurs
  rw [hranges]
  refine ⟨by simp, ?_, ?_, ?_⟩
  · intro range hrange
    rw [mem_singleton.mp hrange]
    exact hinside.trans hpiecewise.length_le
  · intro _
    rw [flatMap_singleton, hpiecewise, hspells]
  · intro _ _
    refine ⟨hoccurs, htier, ?_⟩
    intro i hi
    apply hleast i _ hi
    have hlt := (occursAt_iff.mp hi).2
    omega

theorem highlights_subsequence
    (hscore : scoreSubsequenceMatch (toLowerCase data query) (toLowerCase data text) = some score) :
    Highlights data query text score (matchRanges data query text score) := by
  have hmatched : score.tier = TIER_SUBSEQUENCE ∧
      (walk 0 (toLowerCase data query) (toLowerCase data text)).2 = [] := by
    unfold scoreSubsequenceMatch at hscore
    split at hscore
    · next heq =>
      rw [← some.inj hscore, heq]
      exact ⟨rfl, rfl⟩
    · contradiction
  obtain ⟨htier, hrest⟩ := hmatched
  have hranges : matchRanges data query text score =
      mergeAdjacentRanges (walk 0 (toLowerCase data query) (toLowerCase data text)).1 := by
    simp only [matchRanges, if_neg hquery, htier]
    rfl
  obtain ⟨hspells, hsorted, hinside⟩ :=
    walk_spec [] (toLowerCase data query) (toLowerCase data text)
  simp only [length_nil, nil_append] at hspells hsorted hinside
  rw [hrest, append_nil] at hspells
  have hmerged := rangesOf_merge hsorted
  rw [hranges]
  refine ⟨pairwise_reverse.mpr hmerged.sorted, ?_, ?_, ?_⟩
  · intro range hrange
    have hpos := hmerged.nonempty range (mem_reverse.mp hrange)
    have hmem : range.start + range.length - 1 ∈
        (walk 0 (toLowerCase data query) (toLowerCase data text)).1 := by
      rw [← hmerged.covers]
      apply mem_flatMap.mpr
      refine ⟨range, hrange, ?_⟩
      rw [MatchRange.indices, mem_range'_1]
      omega
    have hlt := (hinside _ hmem).2
    have hle := hpiecewise.length_le
    omega
  · intro _
    have hpieces : (mergeAdjacentRanges (walk 0 (toLowerCase data query) (toLowerCase data text)).1).flatMap
        (fun range => toLowerCase data ((text.drop range.start).take range.length)) =
        (mergeAdjacentRanges (walk 0 (toLowerCase data query) (toLowerCase data text)).1).flatMap
          fun range => range.indices.filterMap fun i => (toLowerCase data text)[i]? := by
      congr 1
      funext range
      rw [hpiecewise, take_drop_eq_filterMap]
      rfl
    rw [hpieces, ← filterMap_flatMap]
    rw [mergeAdjacentRanges, hmerged.covers]
    exact hspells
  · intro _ hhigh
    rw [htier] at hhigh
    contradiction

theorem highlights_fuzzy {policy : FuzzyPolicy}
    (hscore : scoreFuzzyMatch (toLowerCase data query) (toLowerCase data text) policy = some score) :
    Highlights data query text score (matchRanges data query text score) := by
  obtain ⟨htier, hstart⟩ := scoreFuzzyMatch_inside _ _ _ score hscore
  have hranges : matchRanges data query text score =
      [wordRangeAt (toLowerCase data text) score.offset] := by
    simp only [matchRanges, if_neg hquery, htier]
    rfl
  have hword : (((toLowerCase data text).drop score.offset).takeWhile isWordChar).length ≤
      (toLowerCase data text).length - score.offset := by
    rw [← length_drop]
    exact (takeWhile_sublist _).length_le
  have hle := hpiecewise.length_le
  rw [hranges]
  refine ⟨by simp, ?_, ?_, ?_⟩
  · intro range hrange
    rw [mem_singleton.mp hrange]
    simp only [wordRangeAt]
    omega
  · intro hother
    contradiction
  · intro _ hhigh
    rw [htier] at hhigh
    contradiction

end

end

/-- The letters of ASCII, and the dot above that case ignores. -/
def asciiCase : CaseData where
  lower c := if 65 ≤ c ∧ c ≤ 90 then c + 32 else c
  cased c := (65 ≤ c && c ≤ 90) || (97 ≤ c && c ≤ 122)
  caseIgnorable c := c = 0x307

theorem asciiText_piecewise : LowersPiecewise asciiCase [0x41, 0x62] := by
  apply lowersPiecewise_of_plain
  · intro c hc
    simp only [asciiCase]
    split <;> omega
  · intro u hu
    rcases mem_cons.mp hu with rfl | hu
    · exact ⟨by decide, by decide, by decide, by decide⟩
    · rw [mem_singleton.mp hu]
      exact ⟨by decide, by decide, by decide, by decide⟩

end Orqara.Search
