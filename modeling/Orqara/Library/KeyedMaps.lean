import Orqara.Library.KeyedUpdates
import Orqara.Library.MergedMaps

/-!
# Maps of values that know their key

Values written into a map under the keys that they have themselves, and the values of such a map
written into another one.
-/

namespace Orqara.OrderedMap

open KeyedUpdates

variable {κ α β : Type*} [DecidableEq κ] {key : α → κ} {m : OrderedMap κ α} {k : κ} {v : α}

def values (m : OrderedMap κ α) : List α := m.entries.map Prod.snd

/-- Of values with the same key the last one stays. -/
def setAll (key : α → κ) (xs : List α) (m : OrderedMap κ α) : OrderedMap κ α :=
  xs.foldl (fun m x => m.set (key x) x) m

/-- Every value stands under its own key. -/
def Keyed (key : α → κ) (m : OrderedMap κ α) : Prop := ∀ k v, m.get k = some v → key v = k

theorem keyed_empty : Keyed key (∅ : OrderedMap κ α) := by
  intro k v hget
  rw [get_empty] at hget
  contradiction

section

variable (h : Keyed key m)
include h

theorem Keyed.set (v : α) : Keyed key (m.set (key v) v) := by
  intro k w hget
  rw [get_set] at hget
  split at hget
  · rename_i hk
    rw [← Option.some.inj hget, hk]
  · exact h k w hget

theorem Keyed.delete (k : κ) : Keyed key (m.delete k) := by
  intro k' w hget
  rw [get_delete] at hget
  split at hget
  · contradiction
  · exact h k' w hget

theorem Keyed.setAll (xs : List α) : Keyed key (m.setAll key xs) := by
  unfold OrderedMap.setAll
  induction xs generalizing m with
  | nil => exact h
  | cons x xs ih => exact ih (h.set x)

theorem Keyed.mapValues {key' : β → κ} {g : α → β} (hg : ∀ v, key' (g v) = key v) :
    Keyed key' (m.mapValues g) := by
  intro k w hget
  rw [get_mapValues] at hget
  obtain ⟨v, hv, rfl⟩ := Option.map_eq_some_iff.mp hget
  rw [hg, h k v hv]

theorem mem_values_iff : v ∈ m.values ↔ m.get (key v) = some v := by
  constructor
  · intro hmem
    obtain ⟨⟨k, w⟩, hentry, rfl⟩ := List.mem_map.mp hmem
    have hget := get_eq_some_iff.mpr hentry
    rw [h k w hget]
    exact hget
  · intro hget
    exact List.mem_map.mpr ⟨(key v, v), get_eq_some_iff.mp hget, rfl⟩

end

theorem get_setAll (xs : List α) (m : OrderedMap κ α) (k : κ) :
    (m.setAll key xs).get k = upserts key xs m.get k := by
  unfold setAll upserts
  induction xs generalizing m with
  | nil => rfl
  | cons x xs ih =>
    have hset : (m.set (key x) x).get = Function.update m.get (key x) (some x) := by
      funext k'
      rw [get_set, Function.update_apply]
    rw [List.foldl_cons, List.foldl_cons, ih, hset]

theorem get_setAll_of_forall_ne {xs : List α} (h : ∀ x ∈ xs, key x ≠ k) :
    (m.setAll key xs).get k = m.get k := by
  rw [get_setAll, upserts_of_forall_ne h]

theorem mem_of_get_setAll {xs : List α} (h : ((∅ : OrderedMap κ α).setAll key xs).get k = some v) :
    v ∈ xs := by
  have hfold (xs : List α) (m : OrderedMap κ α) (hget : (m.setAll key xs).get k = some v) :
      v ∈ xs ∨ m.get k = some v := by
    induction xs generalizing m with
    | nil => exact .inr hget
    | cons x xs ih =>
      rcases ih (m.set (key x) x) hget with hmem | hold
      · exact .inl (List.mem_cons_of_mem _ hmem)
      · rw [get_set] at hold
        split at hold
        · exact .inl (Option.some.inj hold ▸ List.mem_cons_self)
        · exact .inr hold
  rcases hfold xs ∅ h with hmem | hempty
  · exact hmem
  · contradiction

/-- The values of a map written into another one: theirs first. -/
theorem get_setAll_values {m' : OrderedMap κ α} (h : Keyed key m') (k : κ) :
    (m.setAll key m'.values).get k = (m'.get k).or (m.get k) := by
  cases hget : m'.get k with
  | none =>
    rw [get_setAll_of_forall_ne, Option.none_or]
    intro x hx hk
    rw [mem_values_iff h, hk, hget] at hx
    contradiction
  | some v =>
    have hkey := h k v hget
    have hmem : v ∈ m'.values := by rw [mem_values_iff h, hkey, hget]
    have honly : ∀ w ∈ m'.values, key w = key v → w = v := by
      intro w hw hwk
      rw [mem_values_iff h, hwk, hkey, hget] at hw
      exact (Option.some.inj hw).symm
    have hupsert := upserts_of_mem (m := m.get) hmem honly
    rw [hkey] at hupsert
    rw [get_setAll, hupsert, Option.some_or]

/-- What the values of a map have become, if anything, under the same keys. -/
theorem get_setAll_filterMap {key' : β → κ} {f : α → Option β} (h : Keyed key m)
    (hf : ∀ v w, f v = some w → key' w = key v) (k : κ) :
    ((∅ : OrderedMap κ β).setAll key' (m.values.filterMap f)).get k = (m.get k).bind f := by
  have hmem (w : β) (hw : w ∈ m.values.filterMap f) (hk : key' w = k) : (m.get k).bind f = some w := by
    obtain ⟨v, hv, hfv⟩ := List.mem_filterMap.mp hw
    rw [mem_values_iff h, ← hf v w hfv, hk] at hv
    rw [hv, Option.bind_some, hfv]
  cases hbind : (m.get k).bind f with
  | none =>
    rw [get_setAll_of_forall_ne, get_empty]
    intro w hw hk
    rw [hmem w hw hk] at hbind
    contradiction
  | some w =>
    obtain ⟨v, hv, hfv⟩ := Option.bind_eq_some_iff.mp hbind
    have hkey : key' w = k := (hf v w hfv).trans (h k v hv)
    have hvalue : v ∈ m.values := (mem_values_iff h).mpr (by rw [h k v hv, hv])
    have honly : ∀ y ∈ m.values.filterMap f, key' y = key' w → y = w := by
      intro y hy hyw
      have hsame := hmem y hy (hyw.trans hkey)
      rw [hbind] at hsame
      exact (Option.some.inj hsame).symm
    have hupsert : upserts key' (m.values.filterMap f) (fun _ => none) (key' w) = some w :=
      upserts_of_mem (List.mem_filterMap.mpr ⟨v, hvalue, hfv⟩) honly
    rw [hkey] at hupsert
    rw [get_setAll]
    exact hupsert

end Orqara.OrderedMap
