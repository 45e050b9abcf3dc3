import Mathlib

/-!
# Searching step by step

The first of a number of values in equal steps that has a property.
-/

namespace Orqara

variable {α : Type*} [AddMonoid α] {p : α → Bool} {stride start found : α} {count : ℕ}

/-- The first of `count` values from `start` on that has the property. -/
def firstFrom (p : α → Bool) (stride : α) : ℕ → α → Option α
  | 0, _ => none
  | count + 1, start =>
    if p start then some start else firstFrom p stride count (start + stride)

theorem step_add (stride start : α) (i : ℕ) : start + stride + i • stride = start + (i + 1) • stride := by
  rw [add_assoc, succ_nsmul']

theorem firstFrom_eq_none_iff :
    firstFrom p stride count start = none ↔ ∀ i < count, p (start + i • stride) = false := by
  induction count generalizing start with
  | zero => simp [firstFrom]
  | succ count ih =>
    rw [firstFrom, Nat.forall_lt_succ_left, zero_nsmul, add_zero]
    split
    · next h => simp [h]
    · next h =>
      rw [ih]
      simp only [step_add]
      exact (and_iff_right (by simpa using h)).symm

/-- What is found has the property, and nothing before it has. -/
theorem exists_of_firstFrom_eq_some (h : firstFrom p stride count start = some found) :
    ∃ i < count, found = start + i • stride ∧ p found = true ∧
      ∀ j < i, p (start + j • stride) = false := by
  induction count generalizing start with
  | zero => cases h
  | succ count ih =>
    rw [firstFrom] at h
    split at h
    · next hp =>
      have hfound : start = found := Option.some.inj h
      exact ⟨0, Nat.succ_pos _, by simp [hfound], hfound ▸ hp, by simp⟩
    · next hp =>
      obtain ⟨i, hi, hfound, hp', hbefore⟩ := ih h
      refine ⟨i + 1, by omega, by rw [hfound, step_add], hp', ?_⟩
      rw [Nat.forall_lt_succ_left]
      simp only [← step_add]
      exact ⟨by simpa using hp, hbefore⟩

/-- Only the values that are looked at are of account. -/
theorem firstFrom_congr {q : α → Bool} (h : ∀ i < count, p (start + i • stride) = q (start + i • stride)) :
    firstFrom p stride count start = firstFrom q stride count start := by
  induction count generalizing start with
  | zero => rfl
  | succ count ih =>
    rw [Nat.forall_lt_succ_left, zero_nsmul, add_zero] at h
    rw [firstFrom, firstFrom, h.1, ih]
    simpa only [step_add] using h.2

/-- The search goes on alike among the values that a homomorphism gives. -/
theorem firstFrom_map {β : Type*} [AddMonoid β] (f : α →+ β) (p : β → Bool) (stride start : α)
    (count : ℕ) : (firstFrom (fun a => p (f a)) stride count start).map f =
      firstFrom p (f stride) count (f start) := by
  induction count generalizing start with
  | zero => rfl
  | succ count ih =>
    rw [firstFrom, firstFrom]
    split
    · rfl
    · rw [ih, map_add]

end Orqara
