import Mathlib

/-!
# The optimal string alignment distance

Two lists are aligned from the left: an element is kept, substituted, inserted or deleted, or two
neighbours are swapped, and nothing that was edited is edited again. The distance is the least cost
of an alignment, and a recursion over the lists read from the right computes it.
-/

namespace Orqara.EditDistance

open List

variable {α : Type*}

/-- An alignment of two lists with its cost. -/
inductive Aligned : List α → List α → ℕ → Prop
  | nil : Aligned [] [] 0
  | keep {s t : List α} {n : ℕ} (a : α) : Aligned s t n → Aligned (s ++ [a]) (t ++ [a]) n
  | substitute {s t : List α} {n : ℕ} (a b : α) :
    Aligned s t n → Aligned (s ++ [a]) (t ++ [b]) (n + 1)
  | insert {s t : List α} {n : ℕ} (b : α) : Aligned s t n → Aligned s (t ++ [b]) (n + 1)
  | delete {s t : List α} {n : ℕ} (a : α) : Aligned s t n → Aligned (s ++ [a]) t (n + 1)
  | swap {s t : List α} {n : ℕ} (a b : α) :
    Aligned s t n → Aligned (s ++ [a, b]) (t ++ [b, a]) (n + 1)

/-- The least cost of an alignment. -/
noncomputable def osaDistance (s t : List α) : ℕ := sInf {n | Aligned s t n}

theorem length_sub_le_of_aligned {s t : List α} {n : ℕ} (h : Aligned s t n) :
    ((s.length : ℤ) - t.length).natAbs ≤ n := by
  induction h with
  | nil => simp
  | keep a _ ih =>
    simp only [length_append, length_singleton]
    omega
  | substitute a b _ ih =>
    simp only [length_append, length_singleton]
    omega
  | insert b _ ih =>
    simp only [length_append, length_singleton]
    omega
  | delete a _ ih =>
    simp only [length_append, length_singleton]
    omega
  | swap a b _ ih =>
    simp only [length_append, length_cons, length_nil]
    omega

theorem aligned_deletions (s : List α) : Aligned s [] s.length := by
  induction s using List.reverseRecOn with
  | nil => exact .nil
  | append_singleton s a ih =>
    rw [length_append, length_singleton]
    exact .delete a ih

theorem aligned_insertions (t : List α) : Aligned [] t t.length := by
  induction t using List.reverseRecOn with
  | nil => exact .nil
  | append_singleton t b ih =>
    rw [length_append, length_singleton]
    exact .insert b ih

theorem aligned_min {s t : List α} {m n : ℕ} (hm : Aligned s t m) (hn : Aligned s t n) :
    Aligned s t (min m n) := by
  rcases Nat.le_total m n with hle | hle
  · rwa [Nat.min_eq_left hle]
  · rwa [Nat.min_eq_right hle]

variable [DecidableEq α]

/-- The distance of two lists that are read from the right. -/
def osa : List α → List α → ℕ
  | [], t => t.length
  | a :: s, [] => (a :: s).length
  | a :: s, b :: t =>
    let cost := min (min (osa (a :: s) t + 1) (osa s (b :: t) + 1))
      (osa s t + if a = b then 0 else 1)
    if s.head? = some b ∧ t.head? = some a then min cost (osa s.tail t.tail + 1) else cost
termination_by s t => s.length + t.length
decreasing_by
  all_goals simp_wf
  all_goals omega

@[simp] theorem osa_nil (t : List α) : osa [] t = t.length := by
  rw [osa]

@[simp] theorem osa_nil_right (s : List α) : osa s [] = s.length := by
  cases s with
  | nil => rw [osa]
  | cons a s => rw [osa]

theorem osa_cons (a b : α) (s t : List α) :
    osa (a :: s) (b :: t) =
      if s.head? = some b ∧ t.head? = some a then
        min (min (min (osa (a :: s) t + 1) (osa s (b :: t) + 1))
          (osa s t + if a = b then 0 else 1)) (osa s.tail t.tail + 1)
      else
        min (min (osa (a :: s) t + 1) (osa s (b :: t) + 1)) (osa s t + if a = b then 0 else 1) := by
  rw [osa]

/-! ## One edit more -/

theorem osa_delete (a : α) (s t : List α) : osa (a :: s) t ≤ osa s t + 1 := by
  cases t with
  | nil => simp
  | cons b t =>
    rw [osa_cons]
    split <;> omega

theorem osa_insert (b : α) (s t : List α) : osa s (b :: t) ≤ osa s t + 1 := by
  cases s with
  | nil => simp
  | cons a s =>
    rw [osa_cons]
    split <;> omega

theorem osa_substitute (a b : α) (s t : List α) :
    osa (a :: s) (b :: t) ≤ osa s t + if a = b then 0 else 1 := by
  rw [osa_cons]
  split <;> omega

theorem osa_swap (a b : α) (s t : List α) : osa (b :: a :: s) (a :: b :: t) ≤ osa s t + 1 := by
  rw [osa_cons, if_pos ⟨rfl, rfl⟩, tail_cons, tail_cons]
  exact Nat.min_le_right _ _

/-! ## The least cost -/

theorem osa_le_of_aligned {s t : List α} {n : ℕ} (h : Aligned s t n) :
    osa s.reverse t.reverse ≤ n := by
  induction h with
  | nil => simp
  | @keep s t n a _ ih =>
    rw [reverse_concat', reverse_concat']
    have hstep := osa_substitute a a s.reverse t.reverse
    rw [if_pos rfl] at hstep
    omega
  | @substitute s t n a b _ ih =>
    rw [reverse_concat', reverse_concat']
    have hstep := osa_substitute a b s.reverse t.reverse
    split at hstep <;> omega
  | @insert s t n b _ ih =>
    rw [reverse_concat']
    have hstep := osa_insert b s.reverse t.reverse
    omega
  | @delete s t n a _ ih =>
    rw [reverse_concat']
    have hstep := osa_delete a s.reverse t.reverse
    omega
  | @swap s t n a b _ ih =>
    have hstep := osa_swap a b s.reverse t.reverse
    simp only [reverse_append, reverse_cons, reverse_nil, nil_append,
      cons_append]
    omega

/-- The three edits of the last elements. -/
theorem aligned_last {a b : α} {s t : List α} {inserted deleted same : ℕ}
    (hinsert : Aligned (a :: s).reverse t.reverse inserted)
    (hdelete : Aligned s.reverse (b :: t).reverse deleted)
    (hsubstitute : Aligned s.reverse t.reverse same) :
    Aligned (a :: s).reverse (b :: t).reverse
      (min (min (inserted + 1) (deleted + 1)) (same + if a = b then 0 else 1)) := by
  apply aligned_min
  · apply aligned_min
    · have h := hinsert.insert b
      rwa [← reverse_cons] at h
    · have h := hdelete.delete a
      rwa [← reverse_cons] at h
  · rw [reverse_cons, reverse_cons]
    split
    · next heq =>
      rw [heq]
      exact hsubstitute.keep b
    · exact hsubstitute.substitute a b

/-- The recursion finds an alignment of the cost that it computes. -/
theorem aligned_osa (s t : List α) : Aligned s.reverse t.reverse (osa s t) := by
  induction s, t using osa.induct with
  | case1 t =>
    have h := aligned_insertions t.reverse
    simpa using h
  | case2 a s =>
    have h := aligned_deletions (a :: s).reverse
    simpa using h
  | case3 a s b t hneighbours hinsert hdelete hsubstitute hswap =>
    rw [osa_cons, if_pos hneighbours]
    apply aligned_min
    · exact aligned_last hinsert hdelete hsubstitute
    · obtain ⟨hs, ht⟩ := hneighbours
      rw [head?_eq_some_iff] at hs ht
      obtain ⟨s', rfl⟩ := hs
      obtain ⟨t', rfl⟩ := ht
      have h := hswap.swap b a
      simpa using h
  | case4 a s b t hother hinsert hdelete hsubstitute =>
    rw [osa_cons, if_neg hother]
    exact aligned_last hinsert hdelete hsubstitute

theorem isLeast_osa (s t : List α) : IsLeast {n | Aligned s t n} (osa s.reverse t.reverse) := by
  refine ⟨?_, ?_⟩
  · have h := aligned_osa s.reverse t.reverse
    rwa [reverse_reverse, reverse_reverse] at h
  · intro n hn
    exact osa_le_of_aligned hn

theorem osaDistance_eq (s t : List α) : osaDistance s t = osa s.reverse t.reverse :=
  (isLeast_osa s t).csInf_eq

/-- Lists are at least as far apart as their lengths. -/
theorem length_sub_le_osaDistance (s t : List α) :
    ((s.length : ℤ) - t.length).natAbs ≤ osaDistance s t := by
  rw [osaDistance_eq]
  exact length_sub_le_of_aligned (isLeast_osa s t).1

end Orqara.EditDistance
