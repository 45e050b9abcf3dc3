import Mathlib

/-!
# Comparison functions

A comparison function gives a number that is negative, zero or positive. One that sorts is total
and transitive on what is sorted; such functions can be reversed and put one behind the other.
-/

namespace Orqara

variable {α β : Type*} {S : Set α} {cmp cmp' : α → α → ℤ} {xs : List α}

/-- The function orders the elements of a set, which it need not tell apart. -/
structure ComparesOn (S : Set α) (cmp : α → α → ℤ) : Prop where
  swap : ∀ a ∈ S, ∀ b ∈ S, cmp b a < 0 ↔ 0 < cmp a b
  trans : ∀ a ∈ S, ∀ b ∈ S, ∀ c ∈ S, cmp a b ≤ 0 → cmp b c ≤ 0 → cmp a c ≤ 0

namespace ComparesOn

theorem comap {T : Set β} (f : α → β) {cmp : β → β → ℤ} (h : ComparesOn T cmp) (hf : ∀ a ∈ S, f a ∈ T) :
    ComparesOn S fun a b => cmp (f a) (f b) where
  swap := fun a ha b hb => h.swap _ (hf a ha) _ (hf b hb)
  trans := fun a ha b hb c hc => h.trans _ (hf a ha) _ (hf b hb) _ (hf c hc)

theorem neg (h : ComparesOn S cmp) : ComparesOn S fun a b => -cmp a b where
  swap := by
    intro a ha b hb
    have := h.swap b hb a ha
    omega
  trans := by
    intro a ha b hb c hc hab hbc
    have := h.swap b hb a ha
    have := h.swap c hc b hb
    have := h.swap c hc a ha
    have := h.trans c hc b hb a ha
    omega

/-- The second function decides where the first one does not. -/
theorem lex (h : ComparesOn S cmp) (h' : ComparesOn S cmp') :
    ComparesOn S fun a b => if cmp a b = 0 then cmp' a b else cmp a b where
  swap := by
    intro a ha b hb
    have := h.swap a ha b hb
    have := h.swap b hb a ha
    have := h'.swap a ha b hb
    split
    · split
      · assumption
      · omega
    · split
      · omega
      · assumption
  trans := by
    intro a ha b hb c hc
    have := h.swap b hb a ha
    have := h.swap c hc b hb
    have := h.swap a ha c hc
    have := h.swap c hc a ha
    have := h.trans a ha b hb c hc
    have := h.trans b hb c hc a ha
    have := h.trans c hc a ha b hb
    have := h'.trans a ha b hb c hc
    split_ifs
    all_goals omega

theorem lt_trans (h : ComparesOn S cmp) {a b c : α} (ha : a ∈ S) (hb : b ∈ S) (hc : c ∈ S)
    (hab : cmp a b < 0) (hbc : cmp b c < 0) : cmp a c < 0 := by
  have := h.trans a ha b hb c hc
  have := h.trans c hc a ha b hb
  have := h.swap c hc b hb
  have := h.swap c hc a ha
  omega

/-! ## Sorted lists -/

/-- A list of elements that are told apart is sorted in one way. -/
theorem pairwise_mergeSort (h : ComparesOn {a | a ∈ xs} cmp) (hne : xs.Pairwise fun a b => cmp a b ≠ 0) :
    (xs.mergeSort fun a b => decide (cmp a b ≤ 0)).Pairwise fun a b => cmp a b < 0 := by
  let le : {a // a ∈ xs} → {a // a ∈ xs} → Bool := fun a b => decide (cmp a b ≤ 0)
  have hsorted : (xs.attach.mergeSort le).Pairwise fun a b => le a b = true := by
    apply List.pairwise_mergeSort
    · intro a b c hab hbc
      simp only [le, decide_eq_true_eq] at hab hbc ⊢
      exact h.trans a a.2 b b.2 c c.2 hab hbc
    · intro a b
      have := h.swap a a.2 b b.2
      simp only [le, Bool.or_eq_true, decide_eq_true_eq]
      omega
  have hapart : (xs.attach.mergeSort le).Pairwise fun a b => cmp a.1 b.1 ≠ 0 := by
    apply (List.mergeSort_perm _ _).symm.pairwise
    · rw [← List.attach_map_subtype_val xs, List.pairwise_map] at hne
      exact hne
    · intro a b hab
      have := h.swap a a.2 b b.2
      have := h.swap b b.2 a a.2
      omega
  have hmap : (xs.attach.mergeSort le).map Subtype.val =
      xs.mergeSort fun a b => decide (cmp a b ≤ 0) := by
    rw [List.map_mergeSort (s := fun a b => decide (cmp a b ≤ 0)), List.attach_map_subtype_val]
    intro a _ b _
    rfl
  rw [← hmap, List.pairwise_map]
  exact (hsorted.and hapart).imp fun hab => lt_of_le_of_ne (by simpa [le] using hab.1) hab.2

end ComparesOn

end Orqara
