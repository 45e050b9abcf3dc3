import Mathlib

/-!
# Tables with a primary key

The rows of a table in the order they were inserted, no two with the same key.
The key of a row is read by a function, so a table can be keyed by several
columns at once.
-/

namespace Orqara

variable {ρ κ : Type*}

/-- A table whose rows are told apart by `key`. -/
structure Table (key : ρ → κ) where
  rows : List ρ
  nodup : (rows.map key).Nodup

namespace Table

variable {key : ρ → κ} {t' : Table key}

/-- The table without rows. -/
def empty (key : ρ → κ) : Table key := ⟨[], List.nodup_nil⟩

instance : EmptyCollection (Table key) := ⟨empty key⟩

@[simp] theorem empty_rows : (∅ : Table key).rows = [] := rfl

/-- The key of a row never changes, so a table stays one under any rewriting of
its rows that keeps keys. -/
theorem nodup_map {rows : List ρ} (h : (rows.map key).Nodup) {f : ρ → ρ}
    (hf : ∀ r, key (f r) = key r) : ((rows.map f).map key).Nodup := by
  rw [List.map_map, show key ∘ f = key from funext hf]
  exact h

variable [DecidableEq κ]

/-- The row with a key. -/
def get? (t : Table key) (k : κ) : Option ρ := t.rows.find? fun r => key r = k

/-- Append a row, unless its key is taken. -/
def insert? (t : Table key) (r : ρ) : Option (Table key) :=
  if h : key r ∈ t.rows.map key then none
  else some ⟨t.rows ++ [r], by
    rw [List.map_append, List.nodup_append]
    refine ⟨t.nodup, by simp, ?_⟩
    intro a ha b hb heq
    rw [List.map_singleton, List.mem_singleton] at hb
    exact h (hb ▸ heq ▸ ha)⟩

/-- Rewrite the row with a key, which keeps its key. -/
def update (t : Table key) (k : κ) (f : ρ → ρ) (hf : ∀ r, key (f r) = key r) : Table key where
  rows := t.rows.map fun r => if key r = k then f r else r
  nodup := by
    apply nodup_map t.nodup
    intro r
    split_ifs
    · exact hf r
    · rfl

variable {t : Table key} {k : κ} {r r' : ρ}

@[simp] theorem get?_empty : (∅ : Table key).get? k = none := rfl

theorem key_of_get? (h : t.get? k = some r) : key r = k := by
  simpa using List.find?_some h

theorem mem_of_get? (h : t.get? k = some r) : r ∈ t.rows := List.mem_of_find?_eq_some h

theorem get?_eq_none_iff : t.get? k = none ↔ ∀ r ∈ t.rows, key r ≠ k := by
  simp [get?, List.find?_eq_none]

/-- A row is found under its own key. -/
theorem get?_of_mem (h : r ∈ t.rows) : t.get? (key r) = some r := by
  cases hget : t.get? (key r) with
  | none => exact absurd rfl (get?_eq_none_iff.mp hget r h)
  | some found =>
    have hkey := key_of_get? hget
    rw [List.inj_on_of_nodup_map t.nodup (mem_of_get? hget) h hkey]

theorem get?_eq_some_iff : t.get? k = some r ↔ r ∈ t.rows ∧ key r = k := by
  constructor
  · intro h
    exact ⟨mem_of_get? h, key_of_get? h⟩
  · rintro ⟨hmem, rfl⟩
    exact get?_of_mem hmem

/-! ## Insertion -/

theorem insert?_isSome (h : t.get? (key r) = none) : ∃ t', t.insert? r = some t' := by
  have hfresh : ¬ key r ∈ t.rows.map key := by
    intro hmem
    obtain ⟨r', hr', hkey⟩ := List.mem_map.mp hmem
    exact get?_eq_none_iff.mp h r' hr' hkey
  exact ⟨_, dif_neg hfresh⟩

section

variable (h : t.insert? r = some t')
include h

theorem insert?_rows : t'.rows = t.rows ++ [r] := by
  unfold insert? at h
  split_ifs at h
  rw [← Option.some.inj h]

theorem get?_none_of_insert? :
    t.get? (key r) = none := by
  unfold insert? at h
  split_ifs at h with hfresh
  apply get?_eq_none_iff.mpr
  intro r' hr' hkey
  exact hfresh (hkey ▸ List.mem_map_of_mem hr')

/-- An insertion adds one row and keeps the others. -/
theorem get?_insert? (k : κ) :
    t'.get? k = if key r = k then some r else t.get? k := by
  rw [get?, insert?_rows h, List.find?_append]
  by_cases hk : key r = k
  · rw [if_pos hk]
    have hnone : t.rows.find? (fun r => key r = k) = none := hk ▸ get?_none_of_insert? h
    simp [hnone, hk]
  · rw [if_neg hk]
    simp [hk, get?]

theorem get?_insert?_self :
    t'.get? (key r) = some r :=
  (get?_insert? h _).trans (if_pos rfl)

theorem get?_mono_insert? (hget : t.get? k = some r') :
    t'.get? k = some r' := by
  rw [get?_insert? h, if_neg]
  · exact hget
  · intro hk
    rw [← hk, get?_none_of_insert? h] at hget
    cases hget

end

/-! ## Update -/

section Update

variable {f : ρ → ρ} (hf : ∀ r, key (f r) = key r)

/-- An update rewrites the row with its key and keeps the others. -/
theorem get?_update (t : Table key) (k l : κ) :
    (t.update k f hf).get? l = if l = k then (t.get? l).map f else t.get? l := by
  have hkeys : (fun r => decide (key r = l)) ∘ (fun r => if key r = k then f r else r) =
      fun r => decide (key r = l) := by
    funext r
    by_cases hk : key r = k
    · simp [hk, hf]
    · simp [hk]
  rw [get?, update, List.find?_map, hkeys, ← get?]
  by_cases hl : l = k
  · rw [if_pos hl]
    cases hget : t.get? l with
    | none => rfl
    | some r => simp [key_of_get? hget, hl]
  · rw [if_neg hl]
    cases hget : t.get? l with
    | none => rfl
    | some r => simp [key_of_get? hget, hl]

theorem get?_update_self (h : t.get? k = some r) :
    (t.update k f hf).get? k = some (f r) := by
  rw [get?_update, if_pos rfl, h, Option.map_some]

theorem get?_update_ne {l : κ} (h : l ≠ k) : (t.update k f hf).get? l = t.get? l := by
  rw [get?_update, if_neg h]

end Update

/-! ## Growth -/

/-- Every row is still there under its key, as it was or moved on by `R`. -/
def Grows (R : ρ → ρ → Prop) (t t' : Table key) : Prop :=
  ∀ k r, t.get? k = some r → ∃ r', t'.get? k = some r' ∧ R r r'

section Grows

variable {R : ρ → ρ → Prop} {t' t'' : Table key}

theorem Grows.refl (hR : ∀ r, R r r) (t : Table key) : Grows R t t :=
  fun _ r h => ⟨r, h, hR r⟩

theorem Grows.trans (hR : ∀ {a b c}, R a b → R b c → R a c) (h : Grows R t t')
    (h' : Grows R t' t'') : Grows R t t'' := by
  intro k r hget
  obtain ⟨r', hget', hr⟩ := h k r hget
  obtain ⟨r'', hget'', hr'⟩ := h' k r' hget'
  exact ⟨r'', hget'', hR hr hr'⟩

theorem Grows.insert (hR : ∀ r, R r r) (h : t.insert? r = some t') : Grows R t t' :=
  fun _ r' hget => ⟨r', get?_mono_insert? h hget, hR r'⟩

theorem Grows.update (hR : ∀ r, R r r) {f : ρ → ρ} (hf : ∀ r, key (f r) = key r)
    (h : ∀ r, t.get? k = some r → R r (f r)) : Grows R t (t.update k f hf) := by
  intro l r hget
  by_cases hl : l = k
  · subst hl
    exact ⟨f r, get?_update_self hf hget, h r hget⟩
  · exact ⟨r, (get?_update_ne hf hl).trans hget, hR r⟩

end Grows

end Table

end Orqara
