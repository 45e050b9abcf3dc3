import Orqara.Library.OrderedMap

/-!
# Merging maps in insertion order

Writing the entries of one map over another. What both have keeps its place, what is new comes
after it in the order of the map that is written.
-/

namespace Orqara.OrderedMap

variable {κ α β : Type*} [DecidableEq κ]

/-- The entries of `patch` are written in turn, each made of what was there and what is given. -/
def mergeWith (f : Option α → α → α) (m patch : OrderedMap κ α) : OrderedMap κ α :=
  patch.entries.foldl (fun next entry => next.set entry.1 (f (next.get entry.1) entry.2)) m

/-- The keys are deleted one after the other. -/
def deleteAll (m : OrderedMap κ α) (ks : List κ) : OrderedMap κ α := ks.foldl delete m

def mapValues (g : α → β) (m : OrderedMap κ α) : OrderedMap κ β where
  entries := m.entries.map fun entry => (entry.1, g entry.2)
  nodup := by
    rw [List.map_map]
    exact m.nodup

/-- The entries with keys of the shape, in the order of the shape. -/
def listed (shape : List κ) (hshape : shape.Nodup) (m : OrderedMap κ α) : OrderedMap κ α where
  entries := shape.filterMap fun k => (m.get k).map fun v => (k, v)
  nodup := by
    have hkeys : ((shape.filterMap fun k => (m.get k).map fun v => (k, v)).map Prod.fst) =
        shape.filter fun k => (m.get k).isSome := by
      induction shape with
      | nil => rfl
      | cons k shape ih =>
        cases hget : m.get k with
        | none => simpa [hget] using ih (List.nodup_cons.mp hshape).2
        | some v => simpa [hget] using ih (List.nodup_cons.mp hshape).2
    rw [hkeys]
    exact hshape.filter _

/-! ## Keys -/

theorem keys_set (m : OrderedMap κ α) (k : κ) (v : α) :
    (m.set k v).keys = if k ∈ m.keys then m.keys else m.keys ++ [k] := by
  split
  · next h => exact keys_set_of_mem h
  · next h => exact keys_set_of_not_mem h

theorem keys_listed (shape : List κ) (hshape : shape.Nodup) (m : OrderedMap κ α) :
    (m.listed shape hshape).keys = shape.filter fun k => decide (k ∈ m.keys) := by
  simp only [keys, listed]
  clear hshape
  induction shape with
  | nil => rfl
  | cons k shape ih =>
    by_cases hk : k ∈ m.keys
    · obtain ⟨v, hv⟩ := get_of_mem_keys hk
      have hk' : k ∈ m.entries.map Prod.fst := hk
      simp [hv, hk', ih]
    · have hnone := get_eq_none_iff.mpr hk
      have hk' : k ∉ m.entries.map Prod.fst := hk
      simp [hnone, hk', ih]

theorem keys_deleteAll (m : OrderedMap κ α) (ks : List κ) :
    (m.deleteAll ks).keys = m.keys.filter fun k => decide (k ∉ ks) := by
  unfold deleteAll
  induction ks generalizing m with
  | nil => simp
  | cons k ks ih =>
    rw [List.foldl_cons, ih, keys_delete, List.filter_filter]
    apply List.filter_congr
    intro k' _
    simp [Bool.and_comm]

section

variable (f : Option α → α → α)

/-- Writing entries over a map, when no key is written twice. -/
theorem foldl_set_keys (entries : List (κ × α)) (hnodup : (entries.map Prod.fst).Nodup)
    (m : OrderedMap κ α) :
    (entries.foldl (fun next entry => next.set entry.1 (f (next.get entry.1) entry.2)) m).keys =
      m.keys ++ (entries.map Prod.fst).filter fun k => decide (k ∉ m.keys) := by
  induction entries generalizing m with
  | nil => simp
  | cons entry entries ih =>
    obtain ⟨hfresh, hrest⟩ := List.nodup_cons.mp hnodup
    rw [List.foldl_cons, ih hrest, keys_set]
    by_cases hmem : entry.1 ∈ m.keys
    · simp [hmem]
    · rw [if_neg hmem, List.map_cons, List.filter_cons_of_pos (by simpa using hmem),
        List.append_assoc, List.singleton_append]
      congr 2
      apply List.filter_congr
      intro k hk
      have hne : k ≠ entry.1 := fun heq => hfresh (heq ▸ hk)
      simp [hne]

theorem keys_mergeWith (m patch : OrderedMap κ α) :
    (mergeWith f m patch).keys = m.keys ++ patch.keys.filter fun k => decide (k ∉ m.keys) :=
  foldl_set_keys f patch.entries patch.nodup m

/-! ## Values -/

theorem get_cons (entry : κ × α) (entries : List (κ × α))
    (h : ((entry :: entries).map Prod.fst).Nodup) (k : κ) :
    (OrderedMap.mk (entry :: entries) h).get k =
      if k = entry.1 then some entry.2
      else (OrderedMap.mk entries (List.nodup_cons.mp h).2).get k := by
  simp only [get, List.find?_cons]
  by_cases hk : k = entry.1
  · simp [hk]
  · have hne : ¬ entry.1 = k := fun heq => hk heq.symm
    simp [hk, hne]

@[simp] theorem get_mapValues (g : α → β) (m : OrderedMap κ α) (k : κ) :
    (m.mapValues g).get k = (m.get k).map g := by
  simp only [get, mapValues, List.find?_map, Option.map_map]
  rfl

theorem get_listed (shape : List κ) (hshape : shape.Nodup) (m : OrderedMap κ α) (k : κ) :
    (m.listed shape hshape).get k = if k ∈ shape then m.get k else none := by
  by_cases hk : k ∈ shape
  · rw [if_pos hk]
    cases hget : m.get k with
    | none =>
      rw [get_eq_none_iff, keys_listed]
      have hnot := get_eq_none_iff.mp hget
      simp [hnot]
    | some v =>
      rw [get_eq_some_iff]
      exact List.mem_filterMap.mpr ⟨k, hk, by simp [hget]⟩
  · rw [if_neg hk, get_eq_none_iff, keys_listed]
    simp [hk]

theorem get_deleteAll (m : OrderedMap κ α) (ks : List κ) (k : κ) :
    (m.deleteAll ks).get k = if k ∈ ks then none else m.get k := by
  unfold deleteAll
  induction ks generalizing m with
  | nil => simp
  | cons k' ks ih =>
    rw [List.foldl_cons, ih, get_delete]
    by_cases hks : k ∈ ks
    · simp [hks]
    · by_cases hk : k = k'
      · simp [hk]
      · simp [hks, hk]

theorem get_foldl_set (entries : List (κ × α)) (hnodup : (entries.map Prod.fst).Nodup)
    (m : OrderedMap κ α) (k : κ) :
    (entries.foldl (fun next entry => next.set entry.1 (f (next.get entry.1) entry.2)) m).get k =
      match (OrderedMap.mk entries hnodup).get k with
      | some v => some (f (m.get k) v)
      | none => m.get k := by
  induction entries generalizing m with
  | nil => rfl
  | cons entry entries ih =>
    obtain ⟨hfresh, hrest⟩ := List.nodup_cons.mp hnodup
    rw [List.foldl_cons, ih hrest, get_cons entry entries hnodup, get_set]
    by_cases hk : k = entry.1
    · have hnone : (OrderedMap.mk entries hrest).get k = none := by
        rw [get_eq_none_iff, hk]
        exact hfresh
      simp [hk, hk ▸ hnone]
    · simp [hk]

theorem get_mergeWith (m patch : OrderedMap κ α) (k : κ) :
    (mergeWith f m patch).get k =
      match patch.get k with
      | some v => some (f (m.get k) v)
      | none => m.get k :=
  get_foldl_set f patch.entries patch.nodup m k

end

/-! ## Two ways of writing the same map -/

/-- Two merges are one when they write the same keys in the same order, and what they make of the
values is the same. -/
theorem mergeWith_congr {f g : Option α → α → α} {m patch patch' : OrderedMap κ α}
    (hnew : (patch.keys.filter fun k => decide (k ∉ m.keys)) =
      patch'.keys.filter fun k => decide (k ∉ m.keys))
    (hget : ∀ k, (match patch.get k with
        | some v => some (f (m.get k) v)
        | none => m.get k) =
      match patch'.get k with
      | some v => some (g (m.get k) v)
      | none => m.get k) :
    mergeWith f m patch = mergeWith g m patch' := by
  apply ext_get
  · rw [keys_mergeWith, keys_mergeWith, hnew]
  · intro k
    rw [get_mergeWith, get_mergeWith]
    exact hget k

/-- Deleting before or after the merge comes to the same when the patch has none of the keys. -/
theorem deleteAll_mergeWith {f : Option α → α → α} {m patch : OrderedMap κ α} {ks : List κ}
    (hks : ∀ k ∈ ks, k ∉ patch.keys) :
    (mergeWith f m patch).deleteAll ks = mergeWith f (m.deleteAll ks) patch := by
  apply ext_get
  · rw [keys_deleteAll, keys_mergeWith, keys_mergeWith, List.filter_append, keys_deleteAll,
      List.filter_filter]
    congr 1
    apply List.filter_congr
    intro k hk
    have hnot : k ∉ ks := fun hmem => hks k hmem hk
    simp [hnot]
  · intro k
    rw [get_deleteAll, get_mergeWith, get_mergeWith, get_deleteAll]
    by_cases hmem : k ∈ ks
    · have hnone := get_eq_none_iff.mpr (hks k hmem)
      simp [hmem, hnone]
    · simp [hmem]

/-- A list without repetitions that follows the order of a shape is the shape's part in it. -/
theorem filter_shape_of_sublist {shape l : List κ} (hshape : shape.Nodup) (hsub : l.Sublist shape) :
    (shape.filter fun k => decide (k ∈ l)) = l := by
  induction hsub with
  | slnil => rfl
  | @cons l shape k hsub ih =>
    obtain ⟨hk, hrest⟩ := List.nodup_cons.mp hshape
    have hnot : k ∉ l := fun hmem => hk (hsub.subset hmem)
    rw [List.filter_cons_of_neg (by simpa using hnot)]
    exact ih hrest
  | @cons_cons l shape k hsub ih =>
    obtain ⟨hk, hrest⟩ := List.nodup_cons.mp hshape
    rw [List.filter_cons_of_pos (by simp)]
    congr 1
    rw [← ih hrest]
    apply List.filter_congr
    intro k' hk'
    have hne : k' ≠ k := fun heq => hk (heq ▸ hk')
    simp [hne, ih hrest]

end Orqara.OrderedMap
