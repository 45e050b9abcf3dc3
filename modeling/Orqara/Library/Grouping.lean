import Mathlib

/-!
# Groupings of a keyed list

A grouping distributes the items of a list over non-empty groups, each in
increasing key order, the groups themselves in the order of their first keys.
The groups need not be contiguous: an item may join any earlier group. This is
the ghost state of a pass that collapses a log into entries, one entry a group.
-/

namespace Orqara

open List

variable {α κ : Type*} [Preorder κ]

/-- `groups` distributes `items`; see the module docstring. -/
structure Grouping (key : α → κ) (items : List α) (groups : List (List α)) : Prop where
  perm : groups.flatten.Perm items
  sorted : ∀ g ∈ groups, g.Pairwise fun a b => key a < key b
  nonempty : ∀ g ∈ groups, g ≠ []
  heads : (groups.map List.head?).Pairwise fun a b => ∀ x ∈ a, ∀ y ∈ b, key x < key y

namespace Grouping

variable {key : α → κ} {items : List α} {groups : List (List α)}

theorem nil : Grouping key [] [] := ⟨.rfl, by simp, by simp, by simp⟩

section

variable (h : Grouping key items groups)
include h

theorem mem_items {g : List α} (hg : g ∈ groups) {a : α} (ha : a ∈ g) : a ∈ items :=
  h.perm.mem_iff.mp (mem_flatten.mpr ⟨g, hg, ha⟩)

theorem exists_group {a : α} (ha : a ∈ items) :
    ∃ g ∈ groups, a ∈ g :=
  mem_flatten.mp (h.perm.mem_iff.mpr ha)

/-- Items with distinct keys have one group each. -/
theorem group_unique (hkeys : (items.map key).Nodup) {i j : ℕ} {g g' : List α} (hi : groups[i]? = some g)
    (hj : groups[j]? = some g') {a b : α} (ha : a ∈ g) (hb : b ∈ g') (hab : key a = key b) : i = j := by
  have hnd : (groups.flatten.map key).Nodup := (h.perm.map key).nodup_iff.mpr hkeys
  rw [map_flatten, nodup_flatten] at hnd
  by_contra hne
  have hp := pairwise_iff_getElem.mp hnd.2
  obtain ⟨hil, rfl⟩ := List.getElem?_eq_some_iff.mp hi
  obtain ⟨hjl, rfl⟩ := List.getElem?_eq_some_iff.mp hj
  have hma : key a ∈ groups[i].map key := List.mem_map_of_mem ha
  have hmb : key a ∈ groups[j].map key := hab ▸ List.mem_map_of_mem hb
  rcases Nat.lt_or_gt_of_ne hne with hlt | hgt
  · have hd := hp i j (by simpa using hil) (by simpa using hjl) hlt
    simp only [getElem_map] at hd
    exact hd hma hmb
  · have hd := hp j i (by simpa using hjl) (by simpa using hil) hgt
    simp only [getElem_map] at hd
    exact hd hmb hma

/-- A new item with the greatest key may open a group of its own. -/
theorem push {x : α} (hx : ∀ a ∈ items, key a < key x) :
    Grouping key (items ++ [x]) (groups ++ [[x]]) := by
  refine ⟨?_, ?_, ?_, ?_⟩
  · simpa using h.perm.append_right [x]
  · intro g hg
    rcases mem_append.mp hg with hg | hg
    · exact h.sorted g hg
    · simp [mem_singleton.mp hg]
  · intro g hg
    rcases mem_append.mp hg with hg | hg
    · exact h.nonempty g hg
    · simp [mem_singleton.mp hg]
  · rw [map_append]
    refine pairwise_append.mpr ⟨h.heads, by simp, ?_⟩
    intro a ha b hb y hy z hz
    obtain ⟨g, hg, rfl⟩ := List.mem_map.mp ha
    obtain rfl : b = some x := by simpa using hb
    obtain rfl : x = z := by simpa using hz
    exact hx y (h.mem_items hg (mem_of_mem_head? hy))

/-- A new item with the greatest key may join any group. -/
theorem extend {x : α} (hx : ∀ a ∈ items, key a < key x) {i : ℕ} {g : List α} (hi : groups[i]? = some g) :
    Grouping key (items ++ [x]) (groups.set i (g ++ [x])) := by
  obtain ⟨hil, hgi⟩ := List.getElem?_eq_some_iff.mp hi
  have hg : g ∈ groups := hgi ▸ getElem_mem hil
  refine ⟨?_, ?_, ?_, ?_⟩
  · have hsplit : groups = groups.take i ++ g :: groups.drop (i + 1) := by
      rw [← hgi, ← drop_eq_getElem_cons hil, take_append_drop]
    have hset : groups.set i (g ++ [x]) =
        groups.take i ++ (g ++ [x]) :: groups.drop (i + 1) := by
      rw [set_eq_take_append_cons_drop, if_pos hil]
    rw [hset]
    refine List.Perm.trans ?_ (h.perm.append_right [x])
    conv_rhs => rw [hsplit]
    simp only [flatten_append, flatten_cons, append_assoc]
    have hswap : ([x] ++ (groups.drop (i + 1)).flatten).Perm
        ((groups.drop (i + 1)).flatten ++ [x]) := perm_append_comm
    exact (hswap.append_left g).append_left _
  · intro g' hg'
    rcases mem_or_eq_of_mem_set hg' with hg' | rfl
    · exact h.sorted g' hg'
    · refine pairwise_append.mpr ⟨h.sorted g hg, by simp, ?_⟩
      intro a ha b hb
      rw [mem_singleton.mp hb]
      exact hx a (h.mem_items hg ha)
  · intro g' hg'
    rcases mem_or_eq_of_mem_set hg' with hg' | rfl
    · exact h.nonempty g' hg'
    · simp
  · have hhead : (g ++ [x]).head? = g.head? := by
      obtain ⟨a, as, rfl⟩ := exists_cons_of_ne_nil (h.nonempty g hg)
      rfl
    rw [map_set, hhead, ← hgi, ← getElem_map List.head? (h := by simpa using hil),
      set_getElem_self]
    exact h.heads

end

/-- Two neighbouring groups may be fused when the keys of the first all precede
the keys of the second. -/
theorem fuse {front back : List (List α)} {g g' : List α}
    (h : Grouping key items (front ++ g :: g' :: back))
    (hlt : ∀ a ∈ g, ∀ b ∈ g', key a < key b) :
    Grouping key items (front ++ (g ++ g') :: back) := by
  refine ⟨?_, ?_, ?_, ?_⟩
  · simpa using h.perm
  · intro k hk
    rcases mem_append.mp hk with hk | hk
    · exact h.sorted k (by simp [hk])
    rcases mem_cons.mp hk with rfl | hk
    · exact pairwise_append.mpr
        ⟨h.sorted g (by simp), h.sorted g' (by simp), hlt⟩
    · exact h.sorted k (by simp [hk])
  · intro k hk
    rcases mem_append.mp hk with hk | hk
    · exact h.nonempty k (by simp [hk])
    rcases mem_cons.mp hk with rfl | hk
    · simp [h.nonempty g (by simp)]
    · exact h.nonempty k (by simp [hk])
  · have hhead : (g ++ g').head? = g.head? := by
      obtain ⟨a, as, rfl⟩ := exists_cons_of_ne_nil (h.nonempty g (by simp))
      rfl
    have hsub : ((front ++ g :: back).map List.head?).Sublist
        ((front ++ g :: g' :: back).map List.head?) :=
      (((sublist_cons_self g' back).cons_cons g).append_left front).map _
    have hp := h.heads.sublist hsub
    simpa only [map_append, map_cons, hhead] using hp

end Grouping

end Orqara
