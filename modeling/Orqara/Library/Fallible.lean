import Mathlib

/-!
# Results that may be errors

A chain of fallible steps comes to a result when each of its steps does.
-/

namespace Orqara

theorem bind_eq_ok {ε : Type*} {α β : Type} {x : Except ε α} {f : α → Except ε β} {b : β} :
    x >>= f = .ok b ↔ ∃ a, x = .ok a ∧ f a = .ok b := by
  cases x with
  | error e => simp [bind, Except.bind]
  | ok a => simp [bind, Except.bind]

theorem map_eq_ok {ε : Type*} {α β : Type*} {x : Except ε α} {f : α → β} {b : β} :
    x.map f = .ok b ↔ ∃ a, x = .ok a ∧ f a = b := by
  cases x with
  | error e => simp [Except.map]
  | ok a => simp [Except.map]

section

variable {ε : Type*} {α β : Type} {f : β → Except ε α} {bs : List β} {as : List α}

end

end Orqara
