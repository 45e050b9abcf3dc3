import Orqara.Library.OrderedMap

/-!
# Reverse indexes

An index beside a map that has, for each value of a field, the keys of the entries with that value. It
is kept by taking a key out of one set and putting it into another. Sets that have become empty stay.
-/

namespace Orqara

variable {κ α ι : Type*} [DecidableEq κ] [DecidableEq ι]

namespace ReverseIndex

/-- The keys under a value. -/
def members (index : OrderedMap ι (List κ)) (i : ι) : List κ := (index.get i).getD []

def add (index : OrderedMap ι (List κ)) (i : ι) (k : κ) : OrderedMap ι (List κ) :=
  index.set i (if k ∈ members index i then members index i else members index i ++ [k])

def remove (index : OrderedMap ι (List κ)) (i : ι) (k : κ) : OrderedMap ι (List κ) :=
  match index.get i with
  | none => index
  | some keys => index.set i (keys.filter (· ≠ k))

/-- The index that is built over a map. -/
def build (field : α → ι) (m : OrderedMap κ α) : OrderedMap ι (List κ) :=
  m.entries.foldl (fun index entry => add index (field entry.2) entry.1) ∅

/-- The keys under a value are those of the entries with that value, each once. -/
structure Exact (field : α → ι) (m : OrderedMap κ α) (index : OrderedMap ι (List κ)) : Prop where
  mem : ∀ i k, k ∈ members index i ↔ ∃ v, m.get k = some v ∧ field v = i
  nodup : ∀ i, (members index i).Nodup

variable {index : OrderedMap ι (List κ)} {i j : ι} {k l : κ} {index' : OrderedMap ι (List κ)}

@[simp] theorem members_empty : members (∅ : OrderedMap ι (List κ)) i = [] := rfl

theorem members_add_self :
    members (add index i k) i =
      if k ∈ members index i then members index i else members index i ++ [k] := by
  rw [members, add, OrderedMap.get_set_self, Option.getD_some]

theorem members_add_ne (h : j ≠ i) : members (add index i k) j = members index j := by
  rw [members, add, OrderedMap.get_set_ne h, members]

theorem mem_members_add : l ∈ members (add index i k) j ↔ l ∈ members index j ∨ j = i ∧ l = k := by
  by_cases h : j = i
  · subst h
    rw [members_add_self]
    split
    · next hmem =>
      constructor
      · exact .inl
      · rintro (hl | ⟨-, rfl⟩)
        · exact hl
        · exact hmem
    · simp
  · rw [members_add_ne h]
    simp [h]

theorem nodup_members_add (h : (members index j).Nodup) : (members (add index i k) j).Nodup := by
  by_cases hj : j = i
  · subst hj
    rw [members_add_self]
    split
    · exact h
    · next hmem =>
      rw [List.nodup_append']
      refine ⟨h, List.nodup_singleton _, ?_⟩
      intro l hl hk
      exact hmem (List.mem_singleton.mp hk ▸ hl)
  · rwa [members_add_ne hj]

theorem members_remove :
    members (remove index i k) j = if j = i then (members index j).filter (· ≠ k)
      else members index j := by
  by_cases h : j = i
  · subst h
    rw [if_pos rfl, remove, members]
    cases hget : index.get j with
    | none => simp [members, hget]
    | some keys => rw [OrderedMap.get_set_self, members, hget, Option.getD_some, Option.getD_some]
  · rw [if_neg h, remove, members]
    cases index.get i with
    | none => rfl
    | some keys => rw [OrderedMap.get_set_ne h, members]

theorem mem_members_remove :
    l ∈ members (remove index i k) j ↔ l ∈ members index j ∧ (j = i → l ≠ k) := by
  rw [members_remove]
  split <;> simp_all

theorem nodup_members_remove (h : (members index j).Nodup) : (members (remove index i k) j).Nodup := by
  rw [members_remove]
  split
  · exact h.filter _
  · exact h

/-! ## An index beside a map -/

variable {field : α → ι} {m : OrderedMap κ α} {v : α}

theorem exact_empty : Exact field (∅ : OrderedMap κ α) (∅ : OrderedMap ι (List κ)) where
  mem := by simp
  nodup := fun _ => List.nodup_nil

/-- An entry is set after its key was taken out of every other set. -/
theorem Exact.set (h : Exact field m index)
    (hmem : ∀ i l, l ∈ members index' i ↔ l ∈ members index i ∧ (l = k → i = field v))
    (hnodup : ∀ i, (members index' i).Nodup) :
    Exact field (m.set k v) (add index' (field v) k) where
  mem := by
    intro i l
    rw [mem_members_add, hmem, h.mem]
    by_cases hl : l = k
    · subst hl
      rw [OrderedMap.get_set_self]
      constructor
      · rintro (⟨-, hi⟩ | ⟨hi, -⟩)
        · exact ⟨v, rfl, (hi rfl).symm⟩
        · exact ⟨v, rfl, hi.symm⟩
      · rintro ⟨w, hw, rfl⟩
        rw [Option.some.inj hw]
        exact .inr ⟨rfl, rfl⟩
    · rw [OrderedMap.get_set_ne hl]
      simp [hl]
  nodup := fun i => nodup_members_add (hnodup i)

theorem Exact.delete (h : Exact field m index)
    (hmem : ∀ i l, l ∈ members index' i ↔ l ∈ members index i ∧ l ≠ k)
    (hnodup : ∀ i, (members index' i).Nodup) : Exact field (m.delete k) index' where
  mem := by
    intro i l
    rw [hmem, h.mem]
    by_cases hl : l = k
    · subst hl
      simp
    · rw [OrderedMap.get_delete_ne hl]
      simp [hl]
  nodup := hnodup

theorem mem_foldl_add (field : α → ι) (entries : List (κ × α)) (index : OrderedMap ι (List κ)) :
    l ∈ members (entries.foldl (fun index entry => add index (field entry.2) entry.1) index) j ↔
      l ∈ members index j ∨ ∃ entry ∈ entries, entry.1 = l ∧ field entry.2 = j := by
  induction entries generalizing index with
  | nil => simp
  | cons entry entries ih =>
    rw [List.foldl_cons, ih, mem_members_add, List.exists_mem_cons_iff, or_assoc]
    refine or_congr_right (or_congr_left ?_)
    exact ⟨fun h => ⟨h.2.symm, h.1.symm⟩, fun h => ⟨h.2.symm, h.1.symm⟩⟩

theorem nodup_foldl_add (field : α → ι) (entries : List (κ × α)) (index : OrderedMap ι (List κ))
    (h : (members index j).Nodup) :
    (members (entries.foldl (fun index entry => add index (field entry.2) entry.1) index) j).Nodup := by
  induction entries generalizing index with
  | nil => exact h
  | cons entry entries ih => exact ih _ (nodup_members_add h)

theorem exact_build (field : α → ι) (m : OrderedMap κ α) : Exact field m (build field m) where
  mem := by
    intro i k
    rw [build, mem_foldl_add, members_empty]
    constructor
    · rintro (h | ⟨⟨k, v⟩, hmem, rfl, rfl⟩)
      · exact absurd h List.not_mem_nil
      · exact ⟨v, OrderedMap.get_eq_some_iff.mpr hmem, rfl⟩
    · rintro ⟨v, hget, rfl⟩
      exact .inr ⟨(k, v), OrderedMap.get_eq_some_iff.mp hget, rfl, rfl⟩
  nodup := fun i => nodup_foldl_add field m.entries ∅ List.nodup_nil

end ReverseIndex

end Orqara
