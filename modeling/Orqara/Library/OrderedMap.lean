import Mathlib

/-!
# Maps in insertion order

A map whose entries are listed in the order in which their keys came in. Setting a
key that is there keeps its place.
-/

namespace Orqara

open List Option

/-- Entries with no key twice. -/
structure OrderedMap (κ α : Type*) where
  entries : List (κ × α)
  nodup : (entries.map Prod.fst).Nodup

namespace OrderedMap

variable {κ α : Type*}

def empty : OrderedMap κ α := ⟨[], List.nodup_nil⟩

instance : EmptyCollection (OrderedMap κ α) := ⟨empty⟩

def keys (m : OrderedMap κ α) : List κ := m.entries.map Prod.fst

def size (m : OrderedMap κ α) : ℕ := m.entries.length

theorem ext_entries {m m' : OrderedMap κ α} (h : m.entries = m'.entries) : m = m' := by
  cases m
  cases m'
  simpa using h

@[simp] theorem keys_empty : (∅ : OrderedMap κ α).keys = [] := rfl

theorem nodup_keys (m : OrderedMap κ α) : m.keys.Nodup := m.nodup

theorem keys_eq_nil_iff {m : OrderedMap κ α} : m.keys = [] ↔ m.size = 0 := by
  simp [keys, size]

variable [DecidableEq κ]

instance [DecidableEq α] : DecidableEq (OrderedMap κ α) := fun m m' =>
  decidable_of_iff (m.entries = m'.entries) ⟨ext_entries, fun h => h ▸ rfl⟩

def get (m : OrderedMap κ α) (k : κ) : Option α :=
  (m.entries.find? fun entry => entry.1 = k).map Prod.snd

def set (m : OrderedMap κ α) (k : κ) (v : α) : OrderedMap κ α :=
  if h : k ∈ m.keys then
    { entries := m.entries.map fun entry => if entry.1 = k then (k, v) else entry
      nodup := by
        have hkeys : (m.entries.map fun entry => if entry.1 = k then (k, v) else entry).map
            Prod.fst = m.entries.map Prod.fst := by
          rw [List.map_map]
          apply List.map_congr_left
          intro entry _
          by_cases hk : entry.1 = k
          · simp [hk]
          · simp [hk]
        rw [hkeys]
        exact m.nodup }
  else
    { entries := m.entries ++ [(k, v)]
      nodup := by
        rw [List.map_append, List.nodup_append]
        refine ⟨m.nodup, by simp, ?_⟩
        intro a ha b hb heq
        rw [List.map_singleton, List.mem_singleton] at hb
        have hkey : a = k := heq.trans hb
        exact h (hkey ▸ ha) }

def delete (m : OrderedMap κ α) (k : κ) : OrderedMap κ α where
  entries := m.entries.filter fun entry => entry.1 ≠ k
  nodup := m.nodup.sublist (List.filter_sublist.map _)

/-! ## Keys -/

variable {m : OrderedMap κ α} {k k' : κ} {v : α}

@[simp] theorem get_empty : (∅ : OrderedMap κ α).get k = none := rfl

theorem get_eq_none_iff : m.get k = none ↔ k ∉ m.keys := by
  simp only [get, map_eq_none_iff, find?_eq_none, decide_eq_true_eq, keys,
    List.mem_map, not_exists, not_and]

theorem mem_keys_iff : k ∈ m.keys ↔ (m.get k).isSome := by
  rw [isSome_iff_ne_none, ne_eq, get_eq_none_iff, not_not]

theorem mem_keys_of_get (h : m.get k = some v) : k ∈ m.keys := by
  rw [mem_keys_iff, h]
  rfl

/-- The entries of a map with a key are found again by it. -/
theorem get_of_mem_keys (h : k ∈ m.keys) : ∃ v, m.get k = some v :=
  isSome_iff_exists.mp (mem_keys_iff.mp h)

theorem get_eq_some_iff : m.get k = some v ↔ (k, v) ∈ m.entries := by
  unfold get
  constructor
  · intro h
    obtain ⟨entry, hentry, rfl⟩ := map_eq_some_iff.mp h
    have hkey : entry.1 = k := by simpa using find?_some hentry
    rw [← hkey]
    exact mem_of_find?_eq_some hentry
  · intro h
    obtain ⟨v', hv'⟩ := get_of_mem_keys (List.mem_map_of_mem (f := Prod.fst) h)
    obtain ⟨entry, hentry, rfl⟩ := map_eq_some_iff.mp hv'
    have hkey : entry.1 = k := by simpa using find?_some hentry
    have hsame : entry = (k, v) :=
      inj_on_of_nodup_map m.nodup (mem_of_find?_eq_some hentry) h hkey
    rw [hentry, hsame]
    rfl

/-! ## Setting and deleting -/

theorem find?_map_set (entries : List (κ × α)) (k k' : κ) (v : α) :
    (entries.map fun entry => if entry.1 = k then (k, v) else entry).find?
        (fun entry => entry.1 = k') =
      (entries.find? fun entry => entry.1 = k').map
        fun entry => if entry.1 = k then (k, v) else entry := by
  rw [find?_map]
  congr 2
  funext entry
  by_cases hk : entry.1 = k
  · simp [hk]
  · simp [hk]

theorem get_set (m : OrderedMap κ α) (k k' : κ) (v : α) :
    (m.set k v).get k' = if k' = k then some v else m.get k' := by
  unfold set
  by_cases h : k ∈ m.keys
  · rw [dif_pos h]
    simp only [get]
    rw [find?_map_set]
    by_cases hk : k' = k
    · obtain ⟨old, hold⟩ := get_of_mem_keys h
      obtain ⟨entry, hentry, rfl⟩ := map_eq_some_iff.mp hold
      have hkey : entry.1 = k := by simpa using find?_some hentry
      rw [if_pos hk, hk, hentry]
      simp [hkey]
    · rw [if_neg hk]
      cases hfind : m.entries.find? fun entry => entry.1 = k' with
      | none => rfl
      | some entry =>
        have hkey : entry.1 = k' := by simpa using find?_some hfind
        simp [hkey, hk]
  · rw [dif_neg h]
    simp only [get, find?_append]
    by_cases hk : k' = k
    · have hnone : m.entries.find? (fun entry => entry.1 = k') = none := by
        have hget := get_eq_none_iff.mpr h
        rw [get, map_eq_none_iff] at hget
        rw [hk]
        exact hget
      rw [if_pos hk, hnone]
      simp [hk]
    · rw [if_neg hk]
      have hne : ¬ k = k' := fun heq => hk heq.symm
      simp [hne]

@[simp] theorem get_set_self : (m.set k v).get k = some v := by
  rw [get_set, if_pos rfl]

theorem get_set_ne (h : k' ≠ k) : (m.set k v).get k' = m.get k' := by
  rw [get_set, if_neg h]

theorem get_delete (m : OrderedMap κ α) (k k' : κ) :
    (m.delete k).get k' = if k' = k then none else m.get k' := by
  unfold delete get
  by_cases hk : k' = k
  · rw [if_pos hk, hk, map_eq_none_iff, find?_filter, find?_eq_none]
    simp
  · rw [if_neg hk, find?_filter]
    congr 2
    funext entry
    by_cases hentry : entry.1 = k'
    · simp [hentry, hk]
    · simp [hentry]

@[simp] theorem get_delete_self : (m.delete k).get k = none := by
  rw [get_delete, if_pos rfl]

theorem get_delete_ne (h : k' ≠ k) : (m.delete k).get k' = m.get k' := by
  rw [get_delete, if_neg h]

theorem keys_delete (m : OrderedMap κ α) (k : κ) :
    (m.delete k).keys = m.keys.filter (· ≠ k) := by
  simp only [keys, delete, List.filter_map]
  rfl

theorem size_delete_lt (h : k ∈ m.keys) : (m.delete k).size < m.size := by
  obtain ⟨entry, hentry, hkey⟩ := List.mem_map.mp h
  apply length_filter_lt_length_iff_exists.mpr
  exact ⟨entry, hentry, by simp [hkey]⟩

theorem keys_set_of_mem (h : k ∈ m.keys) : (m.set k v).keys = m.keys := by
  rw [set, dif_pos h]
  simp only [keys, List.map_map]
  apply map_congr_left
  intro entry _
  by_cases hk : entry.1 = k
  · simp [hk]
  · simp [hk]

theorem keys_set_of_not_mem (h : k ∉ m.keys) : (m.set k v).keys = m.keys ++ [k] := by
  rw [set, dif_neg h]
  simp [keys]

/-- Maps with the same keys in the same order and the same values are equal. -/
theorem ext_get {m m' : OrderedMap κ α} (hkeys : m.keys = m'.keys)
    (hget : ∀ k, m.get k = m'.get k) : m = m' := by
  have hlength : m.entries.length = m'.entries.length := by
    simpa [keys] using congrArg List.length hkeys
  apply ext_entries
  apply ext_getElem hlength
  intro i hi hi'
  have hkey : (m.entries[i]).1 = (m'.entries[i]).1 := by
    have h := congrArg (·[i]?) hkeys
    simpa [keys, hi, hi'] using h
  have hv : m.get (m.entries[i]).1 = some (m.entries[i]).2 :=
    get_eq_some_iff.mpr (getElem_mem hi)
  have hv' : m'.get (m'.entries[i]).1 = some (m'.entries[i]).2 :=
    get_eq_some_iff.mpr (getElem_mem hi')
  rw [hget, hkey, hv', Option.some.injEq] at hv
  exact Prod.ext hkey hv.symm

end OrderedMap

end Orqara
