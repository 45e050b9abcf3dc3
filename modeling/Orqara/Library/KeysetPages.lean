import Orqara.Library.Walk

/-!
# Keyset pages

A page starts behind the last entry of the page before, in the list there is by then. Entries are shown
in their order, none of them twice, and none that stays in the lists is missed.
-/

namespace Orqara.Walk

open List

variable {σ π ε : Type*} {page : σ → π} {next : π → Option σ} {entries : π → List ε} {S : Set ε}
  {less : ε → ε → Bool} {lists : σ → List ε} {Mark : σ → Option ε → Prop} {s : σ} {mark : Option ε}

/-- The last page has no cursor. -/
def Ended (next : π → Option σ) (fetched : List (σ × π)) : Prop :=
  ∃ last ∈ fetched.getLast?, next last.2 = none

theorem ended_cons {s' : σ} {rest : List (σ × π)} (hnext : next (page s) = some s') :
    Ended next ((s, page s) :: rest) ↔ Ended next rest := by
  cases rest with
  | nil => simp [Ended, hnext]
  | cons first others => rw [Ended, Ended, getLast?_cons_cons]

theorem pages_goOn {fuel : ℕ} {s' : σ} (hnext : next (page s) = some s') :
    pages page next (fuel + 1) s = (s, page s) :: pages page next fuel s' := by
  rw [pages, hnext]

theorem pages_stop {fuel : ℕ} (hnext : next (page s) = none) :
    pages page next (fuel + 1) s = [(s, page s)] := by
  rw [pages, hnext]

/-- What a list has behind a mark. -/
def behind (less : ε → ε → Bool) (mark : Option ε) (xs : List ε) : List ε :=
  xs.filter fun e => mark.all (less · e)

/-- Each cursor is made of an entry, its mark, and its page has what the list has behind the mark: all of
it, or as much as there is up to an entry that the next cursor is made of. -/
structure Keyset (page : σ → π) (next : π → Option σ) (entries : π → List ε) (S : Set ε)
    (less : ε → ε → Bool) (lists : σ → List ε) (Mark : σ → Option ε → Prop) : Prop where
  mem : ∀ s, ∀ e ∈ lists s, e ∈ S
  mark_mem : ∀ s mark, Mark s mark → ∀ m ∈ mark, m ∈ S
  irrefl : ∀ a ∈ S, less a a = false
  trans : ∀ a ∈ S, ∀ b ∈ S, ∀ c ∈ S, less a b → less b c → less a c
  sorted : ∀ s, (lists s).Pairwise fun a b => less a b
  step : ∀ s mark, Mark s mark →
    (entries (page s) = behind less mark (lists s) ∧ next (page s) = none) ∨
    ∃ shown last left s', behind less mark (lists s) = shown ++ last :: left ∧
      entries (page s) = shown ++ [last] ∧ next (page s) = some s' ∧ Mark s' (some last)

namespace Keyset

variable (h : Keyset page next entries S less lists Mark)
include h

theorem of_mem_behind {e : ε} (he : e ∈ behind less mark (lists s)) : e ∈ S ∧ mark.all (less · e) := by
  obtain ⟨hmem, hall⟩ := mem_filter.mp he
  exact ⟨h.mem s e hmem, hall⟩

theorem behind_last {shown left : List ε} {last : ε} {s' : σ} (hmark : Mark s mark)
    (hmark' : Mark s' (some last)) (hsplit : behind less mark (lists s) = shown ++ last :: left) :
    ∀ e ∈ S, less last e → mark.all (less · e) := by
  intro e he hless
  have hin : last ∈ behind less mark (lists s) := by
    rw [hsplit]
    simp
  have hlast := h.of_mem_behind hin
  cases mark with
  | none => rfl
  | some m => exact h.trans m (h.mark_mem s _ hmark m rfl) last hlast.1 e he hlast.2 hless

theorem ordered (fuel : ℕ) (hmark : Mark s mark) :
    ((pages page next fuel s).flatMap fun fetched => entries fetched.2).Pairwise (fun a b => less a b) ∧
      ∀ e ∈ (pages page next fuel s).flatMap fun fetched => entries fetched.2,
        e ∈ S ∧ mark.all (less · e) := by
  induction fuel generalizing s mark with
  | zero => exact ⟨.nil, nofun⟩
  | succ fuel ih =>
    have hpairs : (behind less mark (lists s)).Pairwise fun a b => less a b := (h.sorted s).filter _
    rcases h.step s mark hmark with ⟨hentries, hnext⟩ | ⟨shown, last, left, s', hsplit, hentries, hnext, hmark'⟩
    · rw [pages_stop hnext, flatMap_singleton, hentries]
      exact ⟨hpairs, fun e he => h.of_mem_behind he⟩
    · obtain ⟨hrest, hafter⟩ := ih hmark'
      rw [pages_goOn hnext, flatMap_cons, hentries]
      have hmem : ∀ e ∈ shown ++ [last], e ∈ S ∧ mark.all (less · e) := fun e he =>
        h.of_mem_behind (s := s) (by rw [hsplit]; simp only [mem_append, mem_cons] at he ⊢; tauto)
      rw [hsplit, append_cons] at hpairs
      obtain ⟨hshown, -, -⟩ := pairwise_append.mp hpairs
      obtain ⟨-, -, hlast⟩ := pairwise_append.mp hshown
      constructor
      · refine pairwise_append.mpr ⟨hshown, hrest, ?_⟩
        intro a ha b hb
        obtain ⟨hbS, hbehind⟩ := hafter b hb
        rcases mem_append.mp ha with hin | hin
        · exact h.trans a (hmem a ha).1 last (hmem last (by simp)).1 b hbS
            (hlast a hin last (mem_singleton_self last)) hbehind
        · exact mem_singleton.mp hin ▸ hbehind
      · intro e he
        rcases mem_append.mp he with hin | hin
        · exact hmem e hin
        · exact ⟨(hafter e hin).1, h.behind_last hmark hmark' hsplit e (hafter e hin).1 (hafter e hin).2⟩

theorem complete (fuel : ℕ) (hmark : Mark s mark) {e : ε} (hstays : ∀ s, e ∈ lists s)
    (hbehind : mark.all (less · e)) (hended : Ended next (pages page next fuel s)) :
    e ∈ (pages page next fuel s).flatMap fun fetched => entries fetched.2 := by
  induction fuel generalizing s mark with
  | zero => simp [pages, Ended] at hended
  | succ fuel ih =>
    have he : e ∈ behind less mark (lists s) := mem_filter.mpr ⟨hstays s, hbehind⟩
    have hpairs : (behind less mark (lists s)).Pairwise fun a b => less a b := (h.sorted s).filter _
    rcases h.step s mark hmark with ⟨hentries, hnext⟩ | ⟨shown, last, left, s', hsplit, hentries, hnext, hmark'⟩
    · rw [pages_stop hnext, flatMap_singleton, hentries]
      exact he
    · rw [pages_goOn hnext, ended_cons hnext] at hended
      rw [pages_goOn hnext, flatMap_cons, hentries, mem_append]
      rw [hsplit, append_cons, mem_append] at he
      apply he.imp_right
      intro hleft
      rw [hsplit, append_cons] at hpairs
      exact ih hmark' ((pairwise_append.mp hpairs).2.2 last (by simp) e hleft) hended

/-- The walk over a list that stays as it is ends by itself. -/
theorem ends (fuel : ℕ) (hmark : Mark s mark) (hsame : ∀ s s', (lists s).Perm (lists s'))
    (hfuel : (behind less mark (lists s)).length < fuel) : Ended next (pages page next fuel s) := by
  induction fuel generalizing s mark with
  | zero => omega
  | succ fuel ih =>
    rcases h.step s mark hmark with ⟨-, hnext⟩ | ⟨shown, last, left, s', hsplit, -, hnext, hmark'⟩
    · rw [pages_stop hnext]
      exact ⟨(s, page s), rfl, hnext⟩
    · have hfilter : (lists s).filter (less last ·) = (behind less mark (lists s)).filter (less last ·) := by
        rw [behind, List.filter_filter]
        apply filter_congr
        intro e he
        have := h.behind_last hmark hmark' hsplit e (h.mem s e he)
        cases hlast : less last e <;> simp_all
      have hlength : (behind less (some last) (lists s')).length = ((lists s).filter (less last ·)).length :=
        ((hsame s' s).filter _).length_eq
      have hless : ((behind less mark (lists s)).filter (less last ·)).length <
          (behind less mark (lists s)).length := by
        rw [length_filter_lt_length_iff_exists]
        exact ⟨last, by rw [hsplit]; simp, by simp [h.irrefl last (h.mark_mem s' _ hmark' last rfl)]⟩
      rw [pages_goOn hnext, ended_cons hnext]
      apply ih hmark'
      rw [hlength, hfilter]
      omega

theorem marked (fuel : ℕ) (hmark : Mark s mark) :
    ∀ fetched ∈ pages page next fuel s, ∃ mark, Mark fetched.1 mark ∧ fetched.2 = page fetched.1 := by
  induction fuel generalizing s mark with
  | zero => exact nofun
  | succ fuel ih =>
    rcases h.step s mark hmark with ⟨-, hnext⟩ | ⟨-, last, -, s', -, -, hnext, hmark'⟩
    · rw [pages_stop hnext, forall_mem_singleton]
      exact ⟨mark, hmark, rfl⟩
    · rw [pages_goOn hnext, forall_mem_cons]
      exact ⟨⟨mark, hmark, rfl⟩, ih hmark'⟩

end Keyset

end Orqara.Walk
