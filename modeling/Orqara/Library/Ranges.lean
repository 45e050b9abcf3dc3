import Mathlib

/-!
# Lists of integer ranges

A list of inclusive ranges stands for the set of integers it covers. It is
normal when the ranges are non-empty, in order, and neither touch nor overlap,
so that no two normal lists cover the same set in different ways.

`lo` and `hi` read the two ends of a range of any type.
-/

namespace Orqara.Ranges

open List

variable {ρ : Type*} (lo hi : ρ → ℤ) {r : ρ} {index : ℕ}

/-- The integer lies in one of the ranges. -/
def Covers (ranges : List ρ) (n : ℤ) : Prop := ∃ r ∈ ranges, lo r ≤ n ∧ n ≤ hi r

/-- Non-empty ranges, sorted, with a gap between any two. -/
structure Normal (ranges : List ρ) : Prop where
  nonempty : ∀ r ∈ ranges, lo r ≤ hi r
  gaps : ranges.Pairwise fun a b => hi a + 1 < lo b

variable {lo hi} {ranges front : List ρ} {last : ρ} {n : ℤ}

@[simp] theorem not_covers_nil : ¬ Covers lo hi [] n := by simp [Covers]

@[simp] theorem covers_append {xs ys : List ρ} :
    Covers lo hi (xs ++ ys) n ↔ Covers lo hi xs n ∨ Covers lo hi ys n := by
  simp only [Covers, mem_append]
  constructor
  · rintro ⟨r, hr | hr, h⟩
    · exact .inl ⟨r, hr, h⟩
    · exact .inr ⟨r, hr, h⟩
  · rintro (⟨r, hr, h⟩ | ⟨r, hr, h⟩)
    · exact ⟨r, .inl hr, h⟩
    · exact ⟨r, .inr hr, h⟩

@[simp] theorem covers_singleton : Covers lo hi [r] n ↔ lo r ≤ n ∧ n ≤ hi r := by
  simp [Covers]

theorem Normal.nil : Normal lo hi [] := ⟨by simp, .nil⟩

theorem Normal.singleton (h : lo r ≤ hi r) : Normal lo hi [r] :=
  ⟨by simpa using h, by simp⟩

theorem Normal.covers_hi (h : Normal lo hi ranges) (hr : r ∈ ranges) :
    Covers lo hi ranges (hi r) := ⟨r, hr, h.nonempty r hr, le_rfl⟩

/-- The last range may be replaced by one with the same start and a later end. -/
theorem Normal.extend (h : Normal lo hi (front ++ [last])) (hlo : lo r = lo last) (hhi : lo r ≤ hi r) :
    Normal lo hi (front ++ [r]) := by
  refine ⟨?_, ?_⟩
  · intro a ha
    rcases mem_append.mp ha with ha | ha
    · exact h.nonempty a (mem_append_left _ ha)
    · rw [mem_singleton.mp ha]
      exact hhi
  · have hg := pairwise_append.mp h.gaps
    refine pairwise_append.mpr ⟨hg.1, by simp, ?_⟩
    intro a ha b hb
    rw [mem_singleton.mp hb, hlo]
    exact hg.2.2 a ha last (by simp)

/-- A range that starts past a gap may be added at the end. -/
theorem Normal.push (h : Normal lo hi ranges) (hr : lo r ≤ hi r) (hgap : ∀ a ∈ ranges, hi a + 1 < lo r) :
    Normal lo hi (ranges ++ [r]) := by
  refine ⟨?_, pairwise_append.mpr ⟨h.gaps, by simp, ?_⟩⟩
  · intro a ha
    rcases mem_append.mp ha with ha | ha
    · exact h.nonempty a ha
    · rw [mem_singleton.mp ha]
      exact hr
  · intro a ha b hb
    rw [mem_singleton.mp hb]
    exact hgap a ha

/-- In a normal list no range ends after the last one. -/
theorem Normal.hi_le_last (h : Normal lo hi (front ++ [last])) {a : ρ}
    (ha : a ∈ front ++ [last]) : hi a ≤ hi last := by
  rcases mem_append.mp ha with hf | hl
  · have hg := (pairwise_append.mp h.gaps).2.2 a hf last (by simp)
    have hn := h.nonempty last (by simp)
    omega
  · rw [mem_singleton.mp hl]

/-! ## One range and the others -/

theorem split_at (h : ranges[index]? = some r) :
    ranges = ranges.take index ++ r :: ranges.drop (index + 1) := by
  obtain ⟨hlt, hget⟩ := List.getElem?_eq_some_iff.mp h
  rw [← hget, getElem_cons_drop, take_append_drop]

theorem covers_eraseIdx (h : ranges[index]? = some r) :
    Covers lo hi ranges n ↔ (lo r ≤ n ∧ n ≤ hi r) ∨ Covers lo hi (ranges.eraseIdx index) n := by
  rw [eraseIdx_eq_take_drop_succ]
  conv_lhs => rw [split_at h]
  rw [covers_append, covers_append, ← singleton_append, covers_append, covers_singleton]
  exact or_left_comm

theorem Normal.eraseIdx (h : Normal lo hi ranges) (index : ℕ) :
    Normal lo hi (ranges.eraseIdx index) :=
  ⟨fun r hr => h.nonempty r (mem_of_mem_eraseIdx hr),
    h.gaps.sublist (eraseIdx_sublist ranges index)⟩

/-- In a normal list a range is apart from all the others. -/
theorem Normal.apart (h : Normal lo hi ranges) (hr : ranges[index]? = some r) {other : ρ}
    (hother : other ∈ ranges.eraseIdx index) :
    hi other + 1 < lo r ∨ hi r + 1 < lo other := by
  have hgaps := h.gaps
  rw [split_at hr] at hgaps
  obtain ⟨_, hright, hcross⟩ := pairwise_append.mp hgaps
  rw [eraseIdx_eq_take_drop_succ] at hother
  rcases mem_append.mp hother with hbefore | hafter
  · exact .inl (hcross other hbefore r (by simp))
  · exact .inr ((pairwise_cons.mp hright).1 other hafter)

/-! ## Merging

A pass over ranges in the order of their starts: a range that starts past a gap
begins a new one, any other is joined to the last. -/

section Merge

variable (lo hi) (join : ρ → ρ → ρ)

def mergeInto (merged : List ρ) (r : ρ) : List ρ :=
  match merged.getLast? with
  | none => merged ++ [r]
  | some last => if hi last + 1 < lo r then merged ++ [r] else merged.dropLast ++ [join last r]

def mergeSorted (ranges : List ρ) : List ρ := ranges.foldl (mergeInto lo hi join) []

variable {lo hi join} (hlo : ∀ a b, lo (join a b) = lo a) (hhi : ∀ a b, hi (join a b) = max (hi a) (hi b))

include hlo hhi

/-- One step keeps the list normal and adds the range to what it covers. -/
theorem mergeInto_spec {merged : List ρ} (h : Normal lo hi merged) {r : ρ} (hr : lo r ≤ hi r)
    (hafter : ∀ a ∈ merged, lo a ≤ lo r) :
    Normal lo hi (mergeInto lo hi join merged r) ∧
      (∀ n, Covers lo hi (mergeInto lo hi join merged r) n ↔
        Covers lo hi merged n ∨ (lo r ≤ n ∧ n ≤ hi r)) ∧
      ∀ a ∈ mergeInto lo hi join merged r, lo a ≤ lo r := by
  unfold mergeInto
  cases hlast : merged.getLast? with
  | none =>
    obtain rfl := getLast?_eq_none_iff.mp hlast
    exact ⟨Normal.singleton hr, by simp, by simp⟩
  | some last =>
    have hsplit : merged.dropLast ++ [last] = merged := dropLast_append_getLast? last hlast
    have hlastLe : lo last ≤ lo r := hafter last (mem_of_getLast? hlast)
    simp only []
    split
    · next hgap =>
      refine ⟨h.push hr ?_, by simp, ?_⟩
      · intro a ha
        rw [← hsplit] at h ha
        have := h.hi_le_last ha
        omega
      · intro a ha
        rcases mem_append.mp ha with hold | hnew
        · exact hafter a hold
        · rw [mem_singleton.mp hnew]
    · next htouch =>
      rw [← hsplit] at h hafter
      have hjoinLo := hlo last r
      have hjoinHi := hhi last r
      have hlastNe := h.nonempty last (by simp)
      refine ⟨h.extend hjoinLo (by omega), ?_, ?_⟩
      · intro n
        conv_rhs => rw [← hsplit]
        rw [covers_append, covers_append, covers_singleton, covers_singleton, hjoinLo, hjoinHi,
          or_assoc]
        apply or_congr_right
        omega
      · intro a ha
        rcases mem_append.mp ha with hold | hnew
        · exact hafter a (mem_append_left _ hold)
        · rw [mem_singleton.mp hnew, hjoinLo]
          exact hlastLe

theorem foldl_mergeInto_spec (ranges : List ρ) :
    ∀ merged, Normal lo hi merged → (∀ r ∈ ranges, lo r ≤ hi r) →
      ranges.Pairwise (fun a b => lo a ≤ lo b) → (∀ r ∈ ranges, ∀ a ∈ merged, lo a ≤ lo r) →
      Normal lo hi (ranges.foldl (mergeInto lo hi join) merged) ∧
        ∀ n, Covers lo hi (ranges.foldl (mergeInto lo hi join) merged) n ↔
          Covers lo hi merged n ∨ Covers lo hi ranges n := by
  induction ranges with
  | nil =>
    intro merged h _ _ _
    exact ⟨h, by simp⟩
  | cons r ranges ih =>
    intro merged h hne hsorted hafter
    obtain ⟨hstep, hcovers, hstarts⟩ := mergeInto_spec hlo hhi h (hne r (by simp)) (hafter r (by simp))
    have hsorted' := pairwise_cons.mp hsorted
    obtain ⟨hnormal, hall⟩ := ih _ hstep (fun r' hr' => hne r' (mem_cons_of_mem _ hr'))
      hsorted'.2 (fun r' hr' a ha => (hstarts a ha).trans (hsorted'.1 r' hr'))
    refine ⟨hnormal, ?_⟩
    intro n
    have hone : Covers lo hi [r] n ↔ lo r ≤ n ∧ n ≤ hi r := covers_singleton
    rw [foldl_cons, hall n, hcovers n, or_assoc, ← hone, ← covers_append, singleton_append]

/-- Sorted ranges are merged into a normal list that covers the same integers. -/
theorem mergeSorted_spec {ranges : List ρ} (hne : ∀ r ∈ ranges, lo r ≤ hi r)
    (hsorted : ranges.Pairwise fun a b => lo a ≤ lo b) :
    Normal lo hi (mergeSorted lo hi join ranges) ∧
      ∀ n, Covers lo hi (mergeSorted lo hi join ranges) n ↔ Covers lo hi ranges n := by
  obtain ⟨hnormal, hcovers⟩ := foldl_mergeInto_spec hlo hhi ranges [] Normal.nil hne hsorted (by simp)
  exact ⟨hnormal, fun n => by rw [mergeSorted, hcovers n]; simp⟩

end Merge

end Orqara.Ranges
