import Mathlib

/-!
# Walks over a paged resource

A client that fetches a page, reads from it where the next one starts, and
goes on while there is one. The fuel bounds the number of pages; the rule
below shows that a walk whose cursors make progress ends by itself.
-/

namespace Orqara.Walk

variable {σ π : Type*} (page : σ → π) (next : π → Option σ)

/-- The pages fetched from a cursor on, each with the cursor it was asked for. -/
def pages : ℕ → σ → List (σ × π)
  | 0, _ => []
  | fuel + 1, cursor =>
    (cursor, page cursor) ::
      match next (page cursor) with
      | none => []
      | some cursor' => pages fuel cursor'

variable {page next}

/-- The rule for walks: from an invariant of the cursors and a variant that
every step decreases, what holds of the last page and is carried over one step
backwards holds of the whole walk, whatever the fuel beyond the variant. -/
theorem pages_spec (Inv : σ → Prop) (Post : σ → List (σ × π) → Prop) (variant : σ → ℕ)
    (stop : ∀ cursor, Inv cursor → next (page cursor) = none →
      Post cursor [(cursor, page cursor)])
    (step : ∀ cursor cursor' ps, Inv cursor → next (page cursor) = some cursor' →
      Post cursor' ps → Post cursor ((cursor, page cursor) :: ps))
    (progress : ∀ cursor cursor', Inv cursor → next (page cursor) = some cursor' →
      Inv cursor' ∧ variant cursor' < variant cursor) :
    ∀ fuel cursor, Inv cursor → variant cursor < fuel → Post cursor (pages page next fuel cursor) := by
  intro fuel
  induction fuel with
  | zero =>
    intro cursor _ h
    exact absurd h (Nat.not_lt_zero _)
  | succ fuel ih =>
    intro cursor hinv hlt
    rw [pages]
    cases hnext : next (page cursor) with
    | none => exact stop cursor hinv hnext
    | some cursor' =>
      obtain ⟨hinv', hvar⟩ := progress cursor cursor' hinv hnext
      exact step cursor cursor' _ hinv hnext (ih cursor' hinv' (by omega))

end Orqara.Walk
