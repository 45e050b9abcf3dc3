import Orqara.Library.EditDistance
import Orqara.Library.JsonParse

/-!
# Typos within a budget

The daemon's search forgives a token some edits. It fills the table of distances row by row, keeps
the last two rows, and gives up when a whole row is over the budget.
-/

namespace Orqara.Search

open JsonParse EditDistance List

/-! ## The table -/

/-- One cell of the current row, from the cells before it and the two rows above. -/
def cellCost (query word : Units) (twoRowsBack previousRow currentRow : List ℕ)
    (queryIndex wordIndex : ℕ) : ℕ :=
  let substitutionCost := if query[queryIndex - 1]? = word[wordIndex - 1]? then 0 else 1
  let cost := min (min (currentRow.getD (wordIndex - 1) 0 + 1) (previousRow.getD wordIndex 0 + 1))
    (previousRow.getD (wordIndex - 1) 0 + substitutionCost)
  if queryIndex > 1 ∧ wordIndex > 1 ∧ query[queryIndex - 1]? = word[wordIndex - 2]? ∧
      query[queryIndex - 2]? = word[wordIndex - 1]? then
    min cost (twoRowsBack.getD (wordIndex - 2) 0 + 1)
  else
    cost

/-- The current row so far with its least cell, and one cell more. -/
def pushCost (query word : Units) (twoRowsBack previousRow : List ℕ) (queryIndex : ℕ)
    (row : List ℕ × ℕ) (wordIndex : ℕ) : List ℕ × ℕ :=
  let cost := cellCost query word twoRowsBack previousRow row.1 queryIndex wordIndex
  (row.1 ++ [cost], min row.2 cost)

def editRow (query word : Units) (twoRowsBack previousRow : List ℕ) (queryIndex : ℕ) : List ℕ × ℕ :=
  (List.range' 1 word.length).foldl (pushCost query word twoRowsBack previousRow queryIndex)
    ([queryIndex], queryIndex)

/-- The last row, unless a whole row is over the budget. -/
def editRows (query word : Units) (budget : ℚ) : List ℕ → List ℕ → List ℕ → Option (List ℕ)
  | [], _, previousRow => some previousRow
  | queryIndex :: queryIndexes, twoRowsBack, previousRow =>
    let (currentRow, rowBest) := editRow query word twoRowsBack previousRow queryIndex
    if budget < rowBest then none
    else editRows query word budget queryIndexes previousRow currentRow

def boundedEditDistance (query word : Units) (budget : ℚ) : Option ℕ :=
  if budget < ((query.length : ℤ) - word.length).natAbs then
    none
  else
    (editRows query word budget (List.range' 1 query.length) [] (List.range (word.length + 1))).bind
      fun row =>
        let distance := row.getD word.length 0
        if (distance : ℚ) ≤ budget then some distance else none

/-! ## Distances of prefixes -/

variable {query word : Units} {i j : ℕ} {twoRowsBack : List ℕ}

/-- The distance of the first `i` and the first `j` elements. -/
def prefixDistance (query word : Units) (i j : ℕ) : ℕ :=
  osa (query.take i).reverse (word.take j).reverse

def distanceRow (query word : Units) (i : ℕ) : List ℕ :=
  (List.range (word.length + 1)).map (prefixDistance query word i)

theorem take_succ_reverse {xs : Units} (hi : i < xs.length) :
    (xs.take (i + 1)).reverse = xs[i] :: (xs.take i).reverse := by
  rw [take_succ_eq_append_getElem hi, reverse_append, reverse_singleton,
    singleton_append]

theorem head?_take_reverse (xs : Units) (hi : i ≤ xs.length) :
    (xs.take i).reverse.head? = if i = 0 then none else xs[i - 1]? := by
  cases i with
  | zero => simp
  | succ i =>
    rw [take_succ_reverse hi, head?_cons, if_neg (by omega), Nat.add_sub_cancel,
      getElem?_eq_getElem hi]

theorem tail_take_reverse (xs : Units) (hi : i ≤ xs.length) :
    (xs.take i).reverse.tail = (xs.take (i - 1)).reverse := by
  cases i with
  | zero => simp
  | succ i => rw [take_succ_reverse hi, tail_cons, Nat.add_sub_cancel]

@[simp] theorem prefixDistance_zero_left (hj : j ≤ word.length) : prefixDistance query word 0 j = j := by
  simp [prefixDistance, hj]

@[simp] theorem prefixDistance_zero_right (hi : i ≤ query.length) :
    prefixDistance query word i 0 = i := by
  simp [prefixDistance, hi]

section

variable (hi : i < query.length)
include hi

theorem prefixDistance_delete :
    prefixDistance query word (i + 1) j ≤ prefixDistance query word i j + 1 := by
  unfold prefixDistance
  rw [take_succ_reverse hi]
  exact osa_delete _ _ _

/-- The recursion of the table, cell by cell. -/
theorem prefixDistance_succ (hj : j < word.length) :
    prefixDistance query word (i + 1) (j + 1) =
      if 0 < i ∧ 0 < j ∧ query[i]? = word[j - 1]? ∧ query[i - 1]? = word[j]? then
        min (min (min (prefixDistance query word (i + 1) j + 1) (prefixDistance query word i (j + 1) + 1))
          (prefixDistance query word i j + if query[i]? = word[j]? then 0 else 1))
          (prefixDistance query word (i - 1) (j - 1) + 1)
      else
        min (min (prefixDistance query word (i + 1) j + 1) (prefixDistance query word i (j + 1) + 1))
          (prefixDistance query word i j + if query[i]? = word[j]? then 0 else 1) := by
  have hneighbours : ((query.take i).reverse.head? = some word[j] ∧
      (word.take j).reverse.head? = some query[i]) ↔
      0 < i ∧ 0 < j ∧ query[i]? = word[j - 1]? ∧ query[i - 1]? = word[j]? := by
    rw [head?_take_reverse query hi.le, head?_take_reverse word hj.le,
      getElem?_eq_getElem hi, getElem?_eq_getElem hj]
    by_cases hi0 : i = 0
    · simp [hi0]
    · by_cases hj0 : j = 0
      · simp [hj0]
      · rw [if_neg hi0, if_neg hj0]
        constructor
        · rintro ⟨hquery, hword⟩
          exact ⟨by omega, by omega, hword.symm, hquery⟩
        · rintro ⟨-, -, hword, hquery⟩
          exact ⟨hquery, hword.symm⟩
  have hsame : (query[i]? = word[j]?) ↔ query[i] = word[j] := by
    rw [getElem?_eq_getElem hi, getElem?_eq_getElem hj, Option.some.injEq]
  unfold prefixDistance
  rw [take_succ_reverse hi, take_succ_reverse hj, osa_cons, tail_take_reverse query hi.le,
    tail_take_reverse word hj.le]
  simp only [hneighbours, hsame]

/-! ## The rows that are computed -/

omit hi in
theorem getD_distanceRow (hj : j ≤ word.length) :
    (distanceRow query word i).getD j 0 = prefixDistance query word i j := by
  have hlt : j < (distanceRow query word i).length := by
    simp only [distanceRow, length_map, length_range]
    omega
  rw [getD_eq_getElem _ _ hlt]
  simp [distanceRow]

omit hi in
/-- A part of a row reads like the row. -/
theorem getD_map_range (f : ℕ → ℕ) {k : ℕ} (hj : j < k) : ((List.range k).map f).getD j 0 = f j := by
  rw [getD_eq_getElem _ _ (by simpa using hj)]
  simp

theorem cellCost_eq (hj : j < word.length) (htwo : 0 < i → twoRowsBack = distanceRow query word (i - 1)) :
    cellCost query word twoRowsBack (distanceRow query word i)
      ((List.range (j + 1)).map (prefixDistance query word (i + 1))) (i + 1) (j + 1) =
      prefixDistance query word (i + 1) (j + 1) := by
  rw [prefixDistance_succ hi hj]
  unfold cellCost
  simp only [Nat.add_sub_cancel]
  rw [getD_map_range _ (Nat.lt_succ_self j), getD_distanceRow hj, getD_distanceRow hj.le]
  have hcond : (i + 1 > 1 ∧ j + 1 > 1 ∧ query[i]? = word[j + 1 - 2]? ∧
      query[i + 1 - 2]? = word[j]?) ↔
      0 < i ∧ 0 < j ∧ query[i]? = word[j - 1]? ∧ query[i - 1]? = word[j]? := by
    have hi2 : i + 1 - 2 = i - 1 := by omega
    have hj2 : j + 1 - 2 = j - 1 := by omega
    rw [hi2, hj2]
    constructor
    · rintro ⟨hi0, hj0, hrest⟩
      exact ⟨by omega, by omega, hrest⟩
    · rintro ⟨hi0, hj0, hrest⟩
      exact ⟨by omega, by omega, hrest⟩
  by_cases hswap : 0 < i ∧ 0 < j ∧ query[i]? = word[j - 1]? ∧ query[i - 1]? = word[j]?
  · have hj2 : j + 1 - 2 = j - 1 := by omega
    rw [if_pos hswap, if_pos (hcond.mpr hswap), htwo hswap.1, hj2, getD_distanceRow (by omega)]
  · rw [if_neg hswap, if_neg fun h => hswap (hcond.mp h)]

/-- The first cells of a row, of which the second component is the least. -/
structure RowUpTo (query word : Units) (i k : ℕ) (row : List ℕ × ℕ) : Prop where
  cells : row.1 = (List.range (k + 1)).map (prefixDistance query word i)
  least : IsLeast {cost | ∃ j ≤ k, prefixDistance query word i j = cost} row.2

theorem rowUpTo_pushCost {row : List ℕ × ℕ} (hj : j < word.length)
    (htwo : 0 < i → twoRowsBack = distanceRow query word (i - 1)) (h : RowUpTo query word (i + 1) j row) :
    RowUpTo query word (i + 1) (j + 1)
      (pushCost query word twoRowsBack (distanceRow query word i) (i + 1) row (j + 1)) := by
  have hcell := cellCost_eq hi hj htwo
  rw [← h.cells] at hcell
  simp only [pushCost, hcell]
  refine ⟨?_, ?_, ?_⟩
  · rw [h.cells, range_succ (n := j + 1), map_append, map_singleton]
  · rcases Nat.le_total row.2 (prefixDistance query word (i + 1) (j + 1)) with hle | hle
    · rw [Nat.min_eq_left hle]
      obtain ⟨k, hk, hcost⟩ := h.least.1
      exact ⟨k, by omega, hcost⟩
    · rw [Nat.min_eq_right hle]
      exact ⟨j + 1, le_rfl, rfl⟩
  · rintro cost ⟨k, hk, rfl⟩
    by_cases hkj : k ≤ j
    · exact (Nat.min_le_left _ _).trans (h.least.2 ⟨k, hkj, rfl⟩)
    · have hlast : k = j + 1 := by omega
      rw [hlast]
      exact Nat.min_le_right _ _

/-- The row that the inner loop builds, with its least cell. -/
theorem rowUpTo_editRow (htwo : 0 < i → twoRowsBack = distanceRow query word (i - 1)) :
    RowUpTo query word (i + 1) word.length
      (editRow query word twoRowsBack (distanceRow query word i) (i + 1)) := by
  have hloop : ∀ k ≤ word.length, RowUpTo query word (i + 1) k ((List.range' 1 k).foldl
      (pushCost query word twoRowsBack (distanceRow query word i) (i + 1)) ([i + 1], i + 1)) := by
    intro k
    induction k with
    | zero =>
      intro _
      have hzero : prefixDistance query word (i + 1) 0 = i + 1 := prefixDistance_zero_right hi
      refine ⟨by simp [hzero], ⟨0, le_rfl, hzero⟩, ?_⟩
      rintro cost ⟨j, hj, rfl⟩
      have hj0 : j = 0 := by omega
      rw [hj0, hzero]
      exact le_rfl
    | succ k ih =>
      intro hk
      rw [range'_concat, foldl_append, Nat.one_mul, Nat.add_comm 1 k]
      exact rowUpTo_pushCost hi (by omega) htwo (ih (by omega))
  exact hloop word.length le_rfl

end

/-! ## Giving up -/

theorem exists_le_min {f : ℕ → ℕ} {m a b : ℕ} (ha : ∃ j ≤ m, f j ≤ a) (hb : ∃ j ≤ m, f j ≤ b) :
    ∃ j ≤ m, f j ≤ min a b := by
  rcases min_choice a b with hmin | hmin
  · rwa [hmin]
  · rwa [hmin]

theorem exists_le_add {f : ℕ → ℕ} {m a : ℕ} (ha : ∃ j ≤ m, f j ≤ a) (b : ℕ) :
    ∃ j ≤ m, f j ≤ a + b := by
  obtain ⟨j, hj, hle⟩ := ha
  exact ⟨j, hj, hle.trans (Nat.le_add_right a b)⟩

/-- The least cell of a row is not undercut by a later row: a swap that reaches two rows back costs
as much as the deletion that leads through the row. -/
theorem exists_le_of_later {i' j' : ℕ} (hi' : i' ≤ query.length) (hj' : j' ≤ word.length)
    (hlater : i ≤ i') : ∃ j ≤ word.length,
      prefixDistance query word i j ≤ prefixDistance query word i' j' := by
  induction hn : i' + j' using Nat.strong_induction_on generalizing i' j' with
  | _ n ih =>
    by_cases heq : i = i'
    · exact ⟨j', hj', by rw [heq]⟩
    · obtain ⟨k, rfl⟩ : ∃ k, i' = k + 1 := ⟨i' - 1, by omega⟩
      have hk : k < query.length := hi'
      have hsmaller : ∀ i'' j'' : ℕ, i'' ≤ query.length → j'' ≤ word.length → i ≤ i'' →
          i'' + j'' < n → ∃ j ≤ word.length,
            prefixDistance query word i j ≤ prefixDistance query word i'' j'' :=
        fun i'' j'' hi'' hj'' hle hlt => ih _ hlt hi'' hj'' hle rfl
      cases j' with
      | zero =>
        refine ⟨0, by omega, ?_⟩
        rw [prefixDistance_zero_right hi', prefixDistance_zero_right (by omega)]
        omega
      | succ l =>
        have hinsert := hsmaller (k + 1) l hi' (by omega) hlater (by omega)
        have hdelete := hsmaller k (l + 1) (by omega) hj' (by omega) (by omega)
        have hsubstitute := hsmaller k l (by omega) (by omega) (by omega) (by omega)
        have hthree := exists_le_min (exists_le_min (exists_le_add hinsert 1)
          (exists_le_add hdelete 1))
          (exists_le_add hsubstitute (if query[k]? = word[l]? then 0 else 1))
        rw [prefixDistance_succ hk hj']
        split
        · next hswap =>
          apply exists_le_min hthree
          by_cases hbefore : i = k
          · -- two rows back is the row before: the deletion leads from there into it
            refine ⟨l - 1, by omega, ?_⟩
            have hinto : prefixDistance query word (k - 1 + 1) (l - 1) ≤
                prefixDistance query word (k - 1) (l - 1) + 1 :=
              prefixDistance_delete (by omega)
            rw [Nat.sub_add_cancel hswap.1] at hinto
            rwa [hbefore]
          · exact exists_le_add
              (hsmaller (k - 1) (l - 1) (by omega) (by omega) (by omega) (by omega)) 1
        · exact hthree

/-- The loop over the rows: it gives up only where the distance is over the budget. -/
theorem editRows_spec (budget : ℚ) (count : ℕ) (hcount : i + count = query.length)
    (htwo : 0 < i → twoRowsBack = distanceRow query word (i - 1)) :
    (editRows query word budget (List.range' (i + 1) count) twoRowsBack (distanceRow query word i) =
        some (distanceRow query word query.length)) ∨
      (editRows query word budget (List.range' (i + 1) count) twoRowsBack
          (distanceRow query word i) = none ∧
        budget < prefixDistance query word query.length word.length) := by
  induction count generalizing i twoRowsBack with
  | zero =>
    left
    have hi : i = query.length := by omega
    rw [hi]
    rfl
  | succ count ih =>
    have hi : i < query.length := by omega
    have hrow := rowUpTo_editRow hi htwo
    rw [range'_succ]
    simp only [editRows]
    split
    · next hover =>
      right
      refine ⟨rfl, ?_⟩
      have hlater : ∃ j ≤ word.length, prefixDistance query word (i + 1) j ≤
          prefixDistance query word query.length word.length := exists_le_of_later le_rfl le_rfl hi
      obtain ⟨j, hj, hle⟩ := hlater
      have hbest := hrow.least.2 ⟨j, hj, rfl⟩
      exact hover.trans_le (Nat.cast_le.mpr (hbest.trans hle))
    · have hcells : (editRow query word twoRowsBack (distanceRow query word i) (i + 1)).1 =
          distanceRow query word (i + 1) := hrow.cells
      rw [hcells]
      exact ih (by omega) fun _ => by rw [Nat.add_sub_cancel]

theorem prefixDistance_length (query word : Units) :
    prefixDistance query word query.length word.length = osaDistance query word := by
  rw [osaDistance_eq, prefixDistance, take_length, take_length]

theorem distanceRow_zero (query word : Units) :
    distanceRow query word 0 = List.range (word.length + 1) := by
  conv_rhs => rw [← List.map_id (List.range (word.length + 1))]
  apply map_congr_left
  intro j hj
  rw [mem_range] at hj
  exact prefixDistance_zero_left (by omega)

/-- The bounded distance is the distance where that is within the budget, and null elsewhere. -/
theorem boundedEditDistance_eq (query word : Units) (budget : ℚ) :
    boundedEditDistance query word budget =
      if (osaDistance query word : ℚ) ≤ budget then some (osaDistance query word) else none := by
  unfold boundedEditDistance
  have hlast : (distanceRow query word query.length).getD word.length 0 = osaDistance query word := by
    rw [getD_distanceRow le_rfl, prefixDistance_length]
  by_cases hlength : budget < ((query.length : ℤ) - word.length).natAbs
  · have hfar : budget < osaDistance query word :=
      hlength.trans_le (Nat.cast_le.mpr (length_sub_le_osaDistance query word))
    rw [if_pos hlength, if_neg (not_le.mpr hfar)]
  · rw [if_neg hlength, ← distanceRow_zero query word]
    have hfirst : 0 < 0 → ([] : List ℕ) = distanceRow query word (0 - 1) := by simp
    rcases editRows_spec budget query.length (Nat.zero_add _) hfirst with hrows | ⟨hrows, hfar⟩
    · rw [hrows, Option.bind_some, hlast]
    · rw [hrows, Option.bind_none]
      rw [prefixDistance_length] at hfar
      rw [if_neg (not_le.mpr hfar)]

end Orqara.Search
