import Mathlib

/-!
# Chains of promises

Tasks that are done one after the other for each key: a task waits for the promise that the map of
last promises has for its key, and becomes the last one itself. What has begun is the first of its
key, so that no two tasks of a key are under way at once.
-/

namespace Orqara.PromiseChain

open List Option

/-- What a chain sees of a task; one that waits may have none to wait for. Tickets are given out in
order. -/
class Task (τ : Type*) (κ : outParam Type*) where
  ticket : τ → ℕ
  key : τ → κ
  waiting : τ → Option (Option ℕ)

variable {τ κ : Type*} [Task τ κ]

open Task

/-- The tasks that are not settled, and the last promise of each key. -/
structure Chained (tasks : List τ) (last : κ → Option ℕ) : Prop where
  tickets : (tasks.map ticket).Nodup
  /-- a task that comes after another waits for one that is not settled -/
  behind : ∀ t ∈ tasks, ∀ u ∈ tasks, key t = key u → ticket t < ticket u →
    ∃ p ∈ tasks, waiting u = some (some (ticket p)) ∧ key p = key t ∧ ticket t ≤ ticket p
  last : ∀ t ∈ tasks, ∃ p ∈ tasks, last (key t) = some (ticket p) ∧ key p = key t ∧ ticket t ≤ ticket p

variable {tasks : List τ} {last : κ → Option ℕ} {t u : τ}

theorem chained_nil (last : κ → Option ℕ) : Chained ([] : List τ) last :=
  ⟨nodup_nil, nofun, nofun⟩

namespace Chained

section

variable (h : Chained tasks last)
include h

section

variable (ht : t ∈ tasks)
include ht

theorem eq_of_ticket (hu : u ∈ tasks) (hticket : ticket u = ticket t) : u = t :=
  inj_on_of_nodup_map h.tickets hu ht hticket

/-- What waits for nothing that is not settled is the first of its key. -/
theorem first_of_ready {previous : Option ℕ} (hwaiting : waiting t = some previous)
    (hready : ∀ p ∈ tasks, previous ≠ some (ticket p)) :
    ∀ u ∈ tasks, key u = key t → ticket t ≤ ticket u := by
  intro u hu hkey
  by_contra hlt
  obtain ⟨p, hp, hwaits, -, -⟩ := h.behind u hu t ht hkey (by omega)
  rw [hwaiting] at hwaits
  exact hready p hp (some.inj hwaits)

theorem first_of_begun (hbegun : waiting t = none) :
    ∀ u ∈ tasks, key u = key t → ticket t ≤ ticket u := by
  intro u hu hkey
  by_contra hlt
  obtain ⟨p, -, hwaits, -, -⟩ := h.behind u hu t ht hkey (by omega)
  rw [hbegun] at hwaits
  cases hwaits

/-- No two tasks of a key are under way. -/
theorem unique (hu : u ∈ tasks) (hbegun : waiting t = none) (hbegun' : waiting u = none)
    (hkey : key u = key t) : u = t := by
  apply h.eq_of_ticket ht hu
  have hle := h.first_of_begun ht hbegun u hu hkey
  have hge := h.first_of_begun hu hbegun' t ht hkey.symm
  omega

end

/-! ## Steps -/

theorem enqueue [DecidableEq κ] (hnew : ∀ u ∈ tasks, ticket u < ticket t)
    (hwaiting : waiting t = some (last (key t))) :
    Chained (tasks ++ [t]) (Function.update last (key t) (some (ticket t))) := by
  have hmem : t ∈ tasks ++ [t] := mem_append_right _ (mem_singleton_self t)
  refine ⟨?_, ?_, ?_⟩
  · rw [map_append, map_singleton]
    apply nodup_append.mpr ⟨h.tickets, nodup_singleton _, ?_⟩
    intro i hi j hj heq
    obtain ⟨u, hu, rfl⟩ := List.mem_map.mp hi
    have hlt := hnew u hu
    rw [heq, mem_singleton.mp hj] at hlt
    exact lt_irrefl _ hlt
  · intro u hu v hv hkey hlt
    rcases mem_append.mp hv with hv | hv
    · rcases mem_append.mp hu with hu | hu
      · obtain ⟨p, hp, hrest⟩ := h.behind u hu v hv hkey hlt
        exact ⟨p, mem_append_left _ hp, hrest⟩
      · have hbefore := hnew v hv
        rw [mem_singleton.mp hu] at hlt
        omega
    · rw [mem_singleton.mp hv] at hkey hlt ⊢
      rcases mem_append.mp hu with hu | hu
      · obtain ⟨p, hp, hlast, hrest⟩ := h.last u hu
        rw [hkey] at hlast
        exact ⟨p, mem_append_left _ hp, by rw [hwaiting, hlast], hrest⟩
      · rw [mem_singleton.mp hu] at hlt
        exact absurd hlt (lt_irrefl _)
  · intro u hu
    by_cases hkey : key u = key t
    · refine ⟨t, hmem, by rw [hkey, Function.update_self], hkey.symm, ?_⟩
      rcases mem_append.mp hu with hu | hu
      · exact (hnew u hu).le
      · rw [mem_singleton.mp hu]
    · rcases mem_append.mp hu with hu | hu
      · obtain ⟨p, hp, hlast, hrest⟩ := h.last u hu
        exact ⟨p, mem_append_left _ hp, by rw [Function.update_of_ne hkey, hlast], hrest⟩
      · exact absurd (congrArg key (mem_singleton.mp hu)) hkey

/-- A task that is the first of its key may begin, and go on. -/
theorem change (f : τ → τ) (hticket : ∀ t, ticket (f t) = ticket t) (hkey : ∀ t, key (f t) = key t)
    (hwaiting : ∀ t ∈ tasks, waiting (f t) = waiting t ∨
      ∀ u ∈ tasks, key u = key t → ticket t ≤ ticket u) : Chained (tasks.map f) last := by
  refine ⟨?_, ?_, ?_⟩
  · have hsame : (tasks.map f).map ticket = tasks.map ticket := by
      rw [List.map_map]
      exact map_congr_left fun t _ => hticket t
    rw [hsame]
    exact h.tickets
  · intro t' ht' u' hu' hkeys hlt
    obtain ⟨t, ht, rfl⟩ := List.mem_map.mp ht'
    obtain ⟨u, hu, rfl⟩ := List.mem_map.mp hu'
    rw [hkey, hkey] at hkeys
    rw [hticket, hticket] at hlt
    obtain ⟨p, hp, hwaits, hpkey, hle⟩ := h.behind t ht u hu hkeys hlt
    refine ⟨f p, List.mem_map_of_mem hp, ?_, by rw [hkey, hkey, hpkey], by rw [hticket, hticket]; exact hle⟩
    rcases hwaiting u hu with hsame | hfirst
    · rw [hsame, hwaits, hticket]
    · have hge := hfirst t ht hkeys
      omega
  · intro t' ht'
    obtain ⟨t, ht, rfl⟩ := List.mem_map.mp ht'
    obtain ⟨p, hp, hlast, hpkey, hle⟩ := h.last t ht
    exact ⟨f p, List.mem_map_of_mem hp, by rw [hkey, hticket, hlast], by rw [hkey, hkey, hpkey],
      by rw [hticket, hticket]; exact hle⟩

/-- A task that has begun is settled. -/
theorem settle (ht : t ∈ tasks) (hbegun : waiting t = none) :
    Chained (tasks.filter fun u => ticket u ≠ ticket t) last := by
  have hleft : ∀ u ∈ tasks, ∀ p ∈ tasks, ticket u ≠ ticket t → key p = key u → ticket u ≤ ticket p →
      p ∈ tasks.filter fun u => ticket u ≠ ticket t := by
    intro u hu p hp hne hkey hle
    refine mem_filter.mpr ⟨hp, decide_eq_true ?_⟩
    intro heq
    have hsame := h.eq_of_ticket ht hp heq
    have hfirst := h.first_of_begun ht hbegun u hu (by rw [← hsame, hkey])
    omega
  refine ⟨h.tickets.sublist (filter_sublist.map _), ?_, ?_⟩
  · intro u hu v hv hkey hlt
    obtain ⟨hu, hne⟩ := mem_filter.mp hu
    obtain ⟨p, hp, hwaits, hpkey, hle⟩ := h.behind u hu v (mem_filter.mp hv).1 hkey hlt
    exact ⟨p, hleft u hu p hp (of_decide_eq_true hne) hpkey hle, hwaits, hpkey, hle⟩
  · intro u hu
    obtain ⟨hu, hne⟩ := mem_filter.mp hu
    obtain ⟨p, hp, hlast, hpkey, hle⟩ := h.last u hu
    exact ⟨p, hleft u hu p hp (of_decide_eq_true hne) hpkey hle, hlast, hpkey, hle⟩

/-- The last promise of a key is forgotten when it is settled. -/
theorem forget [DecidableEq κ] {k : κ} {i : ℕ} (hlast : last k = some i)
    (hsettled : ∀ u ∈ tasks, ticket u ≠ i) : Chained tasks (Function.update last k none) := by
  refine ⟨h.tickets, h.behind, ?_⟩
  intro u hu
  obtain ⟨p, hp, hsome, hrest⟩ := h.last u hu
  have hkey : key u ≠ k := by
    rintro rfl
    rw [hlast] at hsome
    exact hsettled p hp (some.inj hsome).symm
  exact ⟨p, hp, by rw [Function.update_of_ne hkey, hsome], hrest⟩

end

end Chained

end Orqara.PromiseChain
