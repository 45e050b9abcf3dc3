import Mathlib

/-!
# JSON values

The values that the modelled programs store, merge and send without looking
inside. An object is the list of its own properties in insertion order, which
is the order in which JavaScript enumerates string keys.
-/

namespace Orqara

/-- A JSON value. -/
inductive Json
  | null
  | bool (b : Bool)
  | num (n : ℤ)
  | str (s : String)
  | arr (xs : List Json)
  | obj (fields : List (String × Json))
  deriving Inhabited

namespace Json

mutual
/-- Structural equality of two values. -/
def beq : Json → Json → Bool
  | null, null => true
  | bool x, bool y => x == y
  | num x, num y => x == y
  | str x, str y => x == y
  | arr xs, arr ys => beqList xs ys
  | obj xs, obj ys => beqFields xs ys
  | _, _ => false

/-- Structural equality of two arrays. -/
def beqList : List Json → List Json → Bool
  | [], [] => true
  | x :: xs, y :: ys => beq x y && beqList xs ys
  | _, _ => false

/-- Structural equality of two property lists. -/
def beqFields : List (String × Json) → List (String × Json) → Bool
  | [], [] => true
  | (k, x) :: xs, (l, y) :: ys => k == l && beq x y && beqFields xs ys
  | _, _ => false
end

mutual
theorem beq_iff : ∀ a b : Json, beq a b = true ↔ a = b
  | null, b => by cases b <;> simp [beq]
  | bool x, b => by cases b <;> simp [beq]
  | num x, b => by cases b <;> simp [beq]
  | str x, b => by cases b <;> simp [beq]
  | arr xs, b => by
    cases b with
    | arr ys => simpa [beq] using beqList_iff xs ys
    | _ => simp [beq]
  | obj xs, b => by
    cases b with
    | obj ys => simpa [beq] using beqFields_iff xs ys
    | _ => simp [beq]

theorem beqList_iff : ∀ xs ys : List Json, beqList xs ys = true ↔ xs = ys
  | [], ys => by cases ys <;> simp [beqList]
  | x :: xs, ys => by
    cases ys with
    | nil => simp [beqList]
    | cons y ys => simp [beqList, beq_iff x y, beqList_iff xs ys]

theorem beqFields_iff : ∀ xs ys : List (String × Json), beqFields xs ys = true ↔ xs = ys
  | [], ys => by cases ys <;> simp [beqFields]
  | (k, x) :: xs, ys => by
    cases ys with
    | nil => simp [beqFields]
    | cons y ys => simp [beqFields, beq_iff x y.2, beqFields_iff xs ys, Prod.ext_iff]
end

instance : DecidableEq Json := fun a b => decidable_of_iff (beq a b = true) (beq_iff a b)

end Json

/-- The own properties of an object, in insertion order. -/
abbrev Record := List (String × Json)

namespace Record

/-- `record[key] = value`: an existing key keeps its place. -/
def set (record : Record) (key : String) (value : Json) : Record :=
  if record.any (·.1 == key) then
    record.map fun field => if field.1 == key then (key, value) else field
  else
    record ++ [(key, value)]

/-- `{ ...existing, ...incoming }`. -/
def spread (existing incoming : Record) : Record :=
  incoming.foldl (fun record field => record.set field.1 field.2) existing

end Record

end Orqara
