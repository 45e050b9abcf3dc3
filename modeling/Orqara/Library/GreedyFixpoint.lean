import Mathlib

/-!
# Fixed points that are reached one element at a time

Elements that are taken up one after the other, each because of those before it, are the least fixed
point as soon as no other element can be taken up. The order they are taken up in does not matter.
-/

namespace Orqara

variable {α : Type*} {f : Set α →o Set α} {taken : List α}

inductive Greedy (f : Set α →o Set α) : List α → Prop
  | nil : Greedy f []
  | concat {taken : List α} {x : α} (before : Greedy f taken) (ready : x ∈ f {y | y ∈ taken}) :
    Greedy f (taken ++ [x])

/-- Each element is there because of those before it. -/
theorem Greedy.justified (h : Greedy f taken) {before after : List α} {x : α}
    (hsplit : taken = before ++ x :: after) : x ∈ f {y | y ∈ before} := by
  induction h generalizing after with
  | nil => exact absurd hsplit (by simp)
  | @concat taken last _ hlast ih =>
    rcases List.eq_nil_or_concat after with rfl | ⟨init, y, rfl⟩
    · obtain ⟨htaken, hx⟩ := List.append_inj' hsplit rfl
      rw [← htaken, ← List.singleton_inj.mp hx]
      exact hlast
    · have hassoc : taken ++ [last] = (before ++ x :: init) ++ [y] := by
        rw [hsplit, List.concat_eq_append, List.append_assoc, List.cons_append]
      exact ih (List.append_inj' hassoc rfl).1

theorem Greedy.mem_lfp (h : Greedy f taken) : ∀ x ∈ taken, x ∈ f.lfp := by
  induction h with
  | nil => exact nofun
  | @concat taken last _ hlast ih =>
    intro x hx
    rcases List.mem_append.mp hx with hmem | hmem
    · exact ih x hmem
    · have hup : last ∈ f f.lfp := f.monotone ih hlast
      rw [List.mem_singleton.mp hmem, ← f.map_lfp]
      exact hup

/-- The least fixed point, when nothing more can be taken up. -/
theorem Greedy.lfp_eq (h : Greedy f taken) (hclosed : f {y | y ∈ taken} ⊆ {y | y ∈ taken}) :
    f.lfp = {y | y ∈ taken} :=
  le_antisymm (f.lfp_le hclosed) h.mem_lfp

end Orqara
