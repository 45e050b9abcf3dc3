import Mathlib

/-!
# Trimming lists

A list without the elements at both ends that are of no account, and what is left of a list where
such elements are taken out everywhere.
-/

namespace Orqara

open List

variable {α : Type*} {blank : α → Bool} {xs ys : List α} {x : α}

/-- A list without the blanks at both ends. -/
def trimBy (blank : α → Bool) (xs : List α) : List α := (xs.dropWhile blank).rdropWhile blank

/-- What is there of a list besides blanks. -/
def content (blank : α → Bool) (xs : List α) : List α := xs.filter fun x => !blank x

/-- A list that neither starts nor ends with a blank. -/
structure TrimmedBy (blank : α → Bool) (xs : List α) : Prop where
  head : ∀ x ∈ xs.head?, blank x = false
  last : ∀ x ∈ xs.getLast?, blank x = false

/-! ## Contents -/

@[simp] theorem content_nil : content blank [] = [] := rfl

@[simp] theorem content_append : content blank (xs ++ ys) = content blank xs ++ content blank ys :=
  filter_append ..

theorem content_cons_of_blank (h : blank x = true) : content blank (x :: xs) = content blank xs := by
  simp [content, h]

theorem content_cons (blank : α → Bool) (x : α) (xs : List α) :
    content blank (x :: xs) = content blank [x] ++ content blank xs := by
  rw [← content_append, singleton_append]

theorem content_eq_nil_iff : content blank xs = [] ↔ ∀ x ∈ xs, blank x = true := by
  simp [content]

@[simp] theorem content_dropWhile (xs : List α) :
    content blank (xs.dropWhile blank) = content blank xs := by
  induction xs with
  | nil => rfl
  | cons x xs ih =>
    rw [dropWhile_cons]
    split
    · next h => rw [ih, content_cons_of_blank h]
    · rfl

@[simp] theorem content_rdropWhile (xs : List α) :
    content blank (xs.rdropWhile blank) = content blank xs := by
  induction xs using List.reverseRecOn with
  | nil => rfl
  | append_singleton xs x ih =>
    by_cases h : blank x = true
    · rw [rdropWhile_concat_pos _ _ _ h, ih, content_append, content_cons_of_blank h,
        content_nil, append_nil]
    · rw [rdropWhile_concat_neg _ _ _ h]

@[simp] theorem content_trimBy (xs : List α) : content blank (trimBy blank xs) = content blank xs := by
  rw [trimBy, content_rdropWhile, content_dropWhile]

/-! ## Trimmed lists -/

theorem trimBy_isInfix (blank : α → Bool) (xs : List α) : trimBy blank xs <:+: xs :=
  (List.rdropWhile_prefix _ _).isInfix.trans (dropWhile_suffix _).isInfix

theorem length_trimBy_le (blank : α → Bool) (xs : List α) : (trimBy blank xs).length ≤ xs.length :=
  (trimBy_isInfix blank xs).length_le

theorem mem_of_mem_trimBy (h : x ∈ trimBy blank xs) : x ∈ xs := (trimBy_isInfix blank xs).subset h

theorem TrimmedBy.trimBy_eq (h : TrimmedBy blank xs) : trimBy blank xs = xs := by
  have hdrop : xs.dropWhile blank = xs := by
    cases xs with
    | nil => rfl
    | cons x xs => exact dropWhile_cons_of_neg (by simp [h.head x rfl])
  rw [trimBy, hdrop, rdropWhile_eq_self_iff]
  intro hne
  simpa using h.last _ (getLast?_eq_some_getLast hne)

theorem trimmedBy_trimBy (blank : α → Bool) (xs : List α) : TrimmedBy blank (trimBy blank xs) where
  head := by
    intro x hx
    have hstart : trimBy blank xs <+: xs.dropWhile blank := rdropWhile_prefix _ _
    have hhead : (xs.dropWhile blank).head? = some x := by
      obtain ⟨rest, hrest⟩ := hstart
      rw [← hrest, head?_append, hx]
      rfl
    have hnot := head?_dropWhile_not blank xs
    rw [hhead] at hnot
    simpa using hnot
  last := by
    intro x hx
    obtain ⟨init, hinit⟩ := getLast?_eq_some_iff.mp hx
    have hidem : (trimBy blank xs).rdropWhile blank = trimBy blank xs := rdropWhile_idempotent _ _
    rw [hinit] at hidem
    by_contra hblank
    rw [rdropWhile_concat_pos _ _ _ (by simpa using hblank)] at hidem
    have hlength := (List.rdropWhile_prefix blank init).length_le
    rw [hidem] at hlength
    simp at hlength

theorem TrimmedBy.content_ne_nil (h : TrimmedBy blank xs) (hne : xs ≠ []) : content blank xs ≠ [] := by
  obtain ⟨x, xs, rfl⟩ := exists_cons_of_ne_nil hne
  rw [Ne, content_eq_nil_iff]
  intro hall
  have hblank := hall x mem_cons_self
  rw [h.head x rfl] at hblank
  contradiction

/-- Nothing is left of a list of blanks only. -/
theorem trimBy_eq_nil_iff : trimBy blank xs = [] ↔ content blank xs = [] := by
  constructor
  · intro h
    rw [← content_trimBy, h, content_nil]
  · intro h
    by_contra hne
    apply (trimmedBy_trimBy blank xs).content_ne_nil hne
    rw [content_trimBy, h]

/-! ## One end -/

theorem rdropWhile_append (before : List α) (h : ys.rdropWhile blank ≠ []) :
    (before ++ ys).rdropWhile blank = before ++ ys.rdropWhile blank := by
  have hdrop : (ys.reverse.dropWhile blank).isEmpty = false := by
    rw [isEmpty_eq_false_iff]
    intro hnil
    rw [List.rdropWhile, hnil] at h
    contradiction
  rw [List.rdropWhile, reverse_append, dropWhile_append, hdrop, if_neg Bool.false_ne_true,
    reverse_append, reverse_reverse, List.rdropWhile]

/-- The ends are trimmed in either order. -/
theorem rdropWhile_dropWhile (blank : α → Bool) (xs : List α) :
    (xs.rdropWhile blank).dropWhile blank = (xs.dropWhile blank).rdropWhile blank := by
  induction xs using List.reverseRecOn with
  | nil => rfl
  | append_singleton xs x ih =>
    rw [dropWhile_append]
    by_cases h : blank x = true
    · rw [rdropWhile_concat_pos _ _ _ h, ih]
      split_ifs with hempty
      · rw [dropWhile_cons_of_pos h, List.isEmpty_iff.mp hempty]
        rfl
      · rw [rdropWhile_concat_pos _ _ _ h]
    · rw [rdropWhile_concat_neg _ _ _ h, dropWhile_append, dropWhile_cons_of_neg h]
      split_ifs
      · exact (rdropWhile_concat_neg _ [] x h).symm
      · rw [rdropWhile_concat_neg _ _ _ h]

theorem trimBy_rdropWhile (blank : α → Bool) (xs : List α) :
    trimBy blank (xs.rdropWhile blank) = trimBy blank xs := by
  rw [trimBy, rdropWhile_dropWhile, rdropWhile_idempotent, trimBy]

theorem rdropWhile_ne_nil (h : trimBy blank xs ≠ []) : xs.rdropWhile blank ≠ [] := by
  intro hnil
  have htrim := trimBy_rdropWhile blank xs
  rw [hnil] at htrim
  exact h htrim.symm

/-- Two trimmed lists with anything between them. -/
theorem TrimmedBy.append (hx : TrimmedBy blank xs) (hy : TrimmedBy blank ys) (hxs : xs ≠ [])
    (hys : ys ≠ []) (between : List α) : TrimmedBy blank (xs ++ between ++ ys) where
  head := by
    intro x h
    rw [append_assoc, head?_append_of_ne_nil _ hxs] at h
    exact hx.head x h
  last := by
    intro x h
    rw [getLast?_append_of_ne_nil _ hys] at h
    exact hy.last x h

end Orqara
