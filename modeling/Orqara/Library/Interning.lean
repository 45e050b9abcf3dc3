import Orqara.Library.OrderedMap

/-!
# Pools of shared values

Values are put into a pool once and then stand for their index. A pool finds a
value again by its key; where different values have different keys, the index that
a value was given leads back to that value in every later pool.
-/

namespace Orqara

variable {κ ν : Type*} [DecidableEq κ]

/-- The values in the order they came in, and the index of every key. -/
structure Pool (key : ν → κ) where
  values : List ν
  indexes : OrderedMap κ ℕ
  indexed : ∀ k i, indexes.get k = some i ↔ ∃ v, values[i]? = some v ∧ key v = k

namespace Pool

variable {key : ν → κ}

def empty (key : ν → κ) : Pool key where
  values := []
  indexes := ∅
  indexed := by
    intro k i
    constructor
    · intro h
      contradiction
    · rintro ⟨v, hv, -⟩
      simp at hv

/-- The pool with a value whose key it does not know. -/
def push (pool : Pool key) (v : ν) (h : pool.indexes.get (key v) = none) : Pool key where
  values := pool.values ++ [v]
  indexes := pool.indexes.set (key v) pool.values.length
  indexed := by
    intro k i
    have hnew : ∀ (w : ν) (j : ℕ), pool.values[j]? = some w → key w ≠ key v := by
      intro w j hw heq
      have hget := (pool.indexed (key v) j).mpr ⟨w, hw, heq⟩
      rw [h] at hget
      contradiction
    rw [OrderedMap.get_set, List.getElem?_append]
    by_cases hk : k = key v
    · rw [if_pos hk, Option.some.injEq]
      constructor
      · intro hi
        refine ⟨v, ?_, hk.symm⟩
        rw [if_neg (by omega), ← hi, Nat.sub_self]
        rfl
      · rintro ⟨w, hw, hwk⟩
        by_cases hi : i < pool.values.length
        · rw [if_pos hi] at hw
          exact absurd (hwk.trans hk) (hnew w i hw)
        · rw [if_neg hi, List.getElem?_eq_some_iff] at hw
          have hlt := hw.1
          rw [List.length_singleton] at hlt
          omega
    · rw [if_neg hk, pool.indexed]
      by_cases hi : i < pool.values.length
      · rw [if_pos hi]
      · rw [if_neg hi, List.getElem?_eq_none (by omega)]
        constructor
        · rintro ⟨w, hw, -⟩
          contradiction
        · rintro ⟨w, hw, hwk⟩
          have hmem : w ∈ [v] := List.mem_of_getElem? hw
          rw [List.mem_singleton] at hmem
          rw [hmem] at hwk
          exact absurd hwk.symm hk

/-- The index of a value, and the pool that holds it there. -/
def intern (pool : Pool key) (v : ν) : ℕ × Pool key :=
  match h : pool.indexes.get (key v) with
  | some i => (i, pool)
  | none => (pool.values.length, pool.push v h)

/-! ## What an index stands for -/

/-- A later pool: every index stands for what it stood for. -/
def Extends (pool pool' : Pool key) : Prop := pool.values <+: pool'.values

section

variable (pool : Pool key)

theorem Extends.refl : pool.Extends pool := List.prefix_refl _

theorem Extends.trans {a b c : Pool key} (h : a.Extends b) (h' : b.Extends c) : a.Extends c :=
  List.IsPrefix.trans h h'

theorem Extends.getElem? {pool pool' : Pool key} (h : pool.Extends pool') {i : ℕ} {v : ν}
    (hv : pool.values[i]? = some v) : pool'.values[i]? = some v := by
  obtain ⟨more, hmore⟩ := h
  have hi : i < pool.values.length := (List.getElem?_eq_some_iff.mp hv).1
  rw [← hmore, List.getElem?_append_left hi, hv]

theorem extends_intern (v : ν) : pool.Extends (pool.intern v).2 := by
  unfold intern
  split
  · exact Extends.refl pool
  · exact List.prefix_append _ _

/-- The index given out leads to a value with the same key. -/
theorem getElem?_intern (v : ν) :
    ∃ w, (pool.intern v).2.values[(pool.intern v).1]? = some w ∧ key w = key v := by
  unfold intern
  split
  · next i h => exact (pool.indexed _ _).mp h
  · exact ⟨v, by simp [push], rfl⟩

theorem getElem?_intern_of_injective (hkey : Function.Injective key) (pool : Pool key) (v : ν) :
    (pool.intern v).2.values[(pool.intern v).1]? = some v := by
  obtain ⟨w, hw, heq⟩ := getElem?_intern pool v
  rw [hw, hkey heq]

/-- No key is in a pool twice. -/
theorem nodup_keys : (pool.values.map key).Nodup := by
  rw [List.nodup_iff_getElem?_ne_getElem?]
  intro i j hij hj heq
  rw [List.length_map] at hj
  have hi : i < pool.values.length := by omega
  rw [List.getElem?_map, List.getElem?_map, List.getElem?_eq_getElem hi,
    List.getElem?_eq_getElem hj] at heq
  have hsame : key pool.values[i] = key pool.values[j] := Option.some.inj heq
  have hat := (pool.indexed (key pool.values[j]) i).mpr ⟨_, List.getElem?_eq_getElem hi, hsame⟩
  have hat' := (pool.indexed (key pool.values[j]) j).mpr ⟨_, List.getElem?_eq_getElem hj, rfl⟩
  rw [hat] at hat'
  have : i = j := Option.some.inj hat'
  omega

end

end Pool

/-! ## Threading a state through a list -/

section Threading

variable {α β σ : Type*}

/-- A step for each item, in order, each from the state that the last one left. -/
def threaded (step : α → σ → β × σ) : List α → σ → List β × σ
  | [], s => ([], s)
  | a :: as, s =>
    let first := step a s
    let rest := threaded step as first.2
    (first.1 :: rest.1, rest.2)

variable {step : α → σ → β × σ} {Later : σ → σ → Prop} {Means : σ → β → α → Prop}

theorem later_threaded (hrefl : ∀ s, Later s s)
    (htrans : ∀ {s t u}, Later s t → Later t u → Later s u)
    (hstep : ∀ a s, Later s (step a s).2) :
    ∀ (as : List α) (s : σ), Later s (threaded step as s).2
  | [], s => hrefl s
  | a :: as, s => htrans (hstep a s) (later_threaded hrefl htrans hstep as (step a s).2)

/-- What each step wrote still means its item in the last state, when meanings last. -/
theorem means_threaded (hrefl : ∀ s, Later s s)
    (htrans : ∀ {s t u}, Later s t → Later t u → Later s u)
    (hlater : ∀ a s, Later s (step a s).2)
    (hlasts : ∀ {s t b a}, Later s t → Means s b a → Means t b a) :
    ∀ (as : List α) (s : σ), (∀ a ∈ as, ∀ t, Means (step a t).2 (step a t).1 a) →
      List.Forall₂ (Means (threaded step as s).2) (threaded step as s).1 as
  | [], _, _ => List.Forall₂.nil
  | a :: as, s, hstep => by
    have hrest := later_threaded hrefl htrans hlater as (step a s).2
    have hfirst := hstep a List.mem_cons_self s
    exact List.Forall₂.cons (hlasts hrest hfirst)
      (means_threaded hrefl htrans hlater hlasts as (step a s).2
        fun b hb => hstep b (List.mem_cons_of_mem a hb))

theorem exists_of_mem_left {R : β → α → Prop} {bs : List β} {as : List α}
    (h : List.Forall₂ R bs as) {b : β} (hb : b ∈ bs) : ∃ a ∈ as, R b a := by
  induction h with
  | nil => contradiction
  | cons hfirst _ ih =>
    rcases List.mem_cons.mp hb with rfl | hb
    · exact ⟨_, List.mem_cons_self, hfirst⟩
    · obtain ⟨a, ha, hR⟩ := ih hb
      exact ⟨a, List.mem_cons_of_mem _ ha, hR⟩

end Threading

end Orqara
