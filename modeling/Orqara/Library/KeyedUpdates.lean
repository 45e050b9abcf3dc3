import Mathlib

/-!
# Keyed upserts and removals

A map from keys to values, brought up to date by values that come with their key and by
keys that are removed.
-/

namespace Orqara.KeyedUpdates

variable {κ α : Type*} [DecidableEq κ]

def upserts (key : α → κ) (xs : List α) (m : κ → Option α) : κ → Option α :=
  xs.foldl (fun m x => Function.update m (key x) (some x)) m

def removals (ks : List κ) (m : κ → Option α) : κ → Option α :=
  ks.foldl (fun m k => Function.update m k none) m

variable {key : α → κ} {xs : List α} {ks : List κ} {m : κ → Option α} {k : κ}

theorem removals_apply (ks : List κ) (m : κ → Option α) (k : κ) :
    removals ks m k = if k ∈ ks then none else m k := by
  unfold removals
  induction ks generalizing m with
  | nil => simp
  | cons head ks ih =>
    rw [List.foldl_cons, ih]
    by_cases hmem : k ∈ ks
    · simp [hmem]
    · by_cases hk : k = head
      · simp [hk]
      · simp [hmem, hk]

theorem upserts_of_forall_ne (h : ∀ x ∈ xs, key x ≠ k) : upserts key xs m k = m k := by
  unfold upserts
  induction xs generalizing m with
  | nil => rfl
  | cons x xs ih =>
    have hne : k ≠ key x := fun heq => h x List.mem_cons_self heq.symm
    rw [List.foldl_cons, ih fun y hy => h y (List.mem_cons_of_mem _ hy),
      Function.update_of_ne hne]

/-- A key that one value only is upserted under. -/
theorem upserts_of_mem {x : α} (hx : x ∈ xs) (honly : ∀ y ∈ xs, key y = key x → y = x) :
    upserts key xs m (key x) = some x := by
  induction xs generalizing m with
  | nil => cases hx
  | cons head xs ih =>
    show upserts key xs (Function.update m (key head) (some head)) (key x) = some x
    by_cases hmem : x ∈ xs
    · exact ih hmem fun y hy => honly y (List.mem_cons_of_mem _ hy)
    · have hhead : head = x := ((List.mem_cons.mp hx).resolve_right hmem).symm
      have hrest : ∀ y ∈ xs, key y ≠ key x := by
        intro y hy heq
        exact hmem (honly y (List.mem_cons_of_mem _ hy) heq ▸ hy)
      rw [upserts_of_forall_ne hrest, hhead, Function.update_self]

theorem upserts_isSome_iff : (upserts key xs (fun _ => none) k).isSome ↔ ∃ x ∈ xs, key x = k := by
  constructor
  · intro h
    by_contra hnone
    have hne : ∀ x ∈ xs, key x ≠ k := fun x hx hk => hnone ⟨x, hx, hk⟩
    rw [upserts_of_forall_ne hne] at h
    contradiction
  · rintro ⟨x, hx, rfl⟩
    induction xs using List.reverseRecOn with
    | nil => contradiction
    | append_singleton xs y ih =>
      rw [upserts, List.foldl_append, List.foldl_cons, List.foldl_nil, Function.update_apply]
      split
      · rfl
      · rename_i hne
        apply ih
        refine (List.mem_append.mp hx).resolve_right fun hy => hne ?_
        rw [List.mem_singleton.mp hy]

/-- Of a key that is upserted it does not matter what was there. -/
theorem upserts_congr {m' : κ → Option α} (h : ∃ x ∈ xs, key x = k) :
    upserts key xs m k = upserts key xs m' k := by
  induction xs generalizing m m' with
  | nil =>
    obtain ⟨x, hx, -⟩ := h
    contradiction
  | cons x xs ih =>
    show upserts key xs (Function.update m (key x) (some x)) k =
      upserts key xs (Function.update m' (key x) (some x)) k
    by_cases hlater : ∃ y ∈ xs, key y = k
    · exact ih hlater
    · have hne : ∀ y ∈ xs, key y ≠ k := fun y hy hk => hlater ⟨y, hy, hk⟩
      obtain ⟨y, hy, hk⟩ := h
      rcases List.mem_cons.mp hy with rfl | hy
      · rw [upserts_of_forall_ne hne, upserts_of_forall_ne hne, ← hk, Function.update_self,
          Function.update_self]
      · exact absurd hk (hne y hy)

end Orqara.KeyedUpdates
