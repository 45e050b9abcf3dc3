import Mathlib

/-!
# Forests given by parent links

A partial function that gives nodes a parent is a forest when no node is above itself. A new link
keeps it one unless the node is already above, or is, its new parent. With finitely many nodes
that have a parent, every way up ends.
-/

namespace Orqara

open Relation

variable {α : Type*} {parent parent' : α → Option α} {a b c : α}

def IsParent (parent : α → Option α) (a b : α) : Prop := parent a = some b

/-- `b` is `a`, its parent, the parent of its parent and so on. -/
def AtOrAbove (parent : α → Option α) : α → α → Prop := ReflTransGen (IsParent parent)

def Above (parent : α → Option α) : α → α → Prop := TransGen (IsParent parent)

def Forest (parent : α → Option α) : Prop := ∀ a, ¬ Above parent a a

theorem forest_of_empty (h : ∀ a, parent a = none) : Forest parent := by
  intro a hcycle
  obtain ⟨b, hab, -⟩ := TransGen.head'_iff.mp hcycle
  exact absurd (hab.symm.trans (h a)) nofun

/-- Links may be removed. -/
theorem Forest.mono (h : Forest parent) (hsub : ∀ a b, parent' a = some b → parent a = some b) :
    Forest parent' := by
  intro a hcycle
  exact h a (TransGen.mono hsub a a hcycle)

/-- A way up in which only the links of `a` have changed, to `b`. -/
theorem Above.of_relinked (hother : ∀ x, x ≠ a → parent' x = parent x)
    (hnew : ∀ y, parent' a = some y → y = b) (hnot : ¬ AtOrAbove parent b a) {x y : α}
    (h : Above parent' x y) :
    Above parent x y ∨ AtOrAbove parent x a ∧ AtOrAbove parent b y := by
  induction h with
  | @single y hxy =>
    by_cases hx : x = a
    · subst hx
      right
      rw [hnew y hxy]
      exact ⟨.refl, .refl⟩
    · left
      apply TransGen.single
      show parent x = some y
      rw [← hother x hx]
      exact hxy
  | @tail y z _ hyz ih =>
    by_cases hy : y = a
    · subst hy
      right
      rw [hnew z hyz]
      rcases ih with habove | ⟨-, hba⟩
      · exact ⟨habove.to_reflTransGen, .refl⟩
      · exact absurd hba hnot
    · have hold : IsParent parent y z := by
        show parent y = some z
        rw [← hother y hy]
        exact hyz
      rcases ih with habove | ⟨hxa, hby⟩
      · exact .inl (TransGen.tail habove hold)
      · exact .inr ⟨hxa, ReflTransGen.tail hby hold⟩

/-- A node may get a new parent that it is not at or above. -/
theorem Forest.relink (h : Forest parent) (hother : ∀ x, x ≠ a → parent' x = parent x)
    (hnew : ∀ y, parent' a = some y → y = b) (hnot : ¬ AtOrAbove parent b a) : Forest parent' := by
  intro x hcycle
  rcases hcycle.of_relinked hother hnew hnot with hold | ⟨hxa, hbx⟩
  · exact h x hold
  · exact hnot (ReflTransGen.trans hbx hxa)

theorem rightUnique_isParent : Relator.RightUnique (IsParent parent) := by
  intro a b c hab hac
  exact Option.some.inj (hab.symm.trans hac)

/-- Of two nodes above another one is above the other, or they are the same. -/
theorem AtOrAbove.total (hb : AtOrAbove parent a b) (hc : AtOrAbove parent a c) :
    AtOrAbove parent b c ∨ AtOrAbove parent c b :=
  ReflTransGen.total_of_right_unique rightUnique_isParent hb hc

theorem not_atOrAbove_of_parent (h : ¬ Above parent a a) (hparent : parent a = some b) :
    ¬ AtOrAbove parent b a := fun hba => h (TransGen.head' hparent hba)

theorem Forest.not_atOrAbove_parent (h : Forest parent) (hparent : parent a = some b) :
    ¬ AtOrAbove parent b a := not_atOrAbove_of_parent (h a) hparent

/-- A child of a node that is not above itself is not at or above another child of it. -/
theorem not_atOrAbove_sibling (h : ¬ Above parent a a) (hb : parent b = some a)
    (hc : parent c = some a) (hne : b ≠ c) : ¬ AtOrAbove parent b c := by
  intro hbc
  rcases ReflTransGen.cases_head hbc with heq | ⟨d, hbd, hdc⟩
  · exact hne heq
  · have hd : d = a := rightUnique_isParent hbd hb
    rw [hd] at hdc
    exact h (TransGen.tail' hdc hc)

theorem Forest.siblings (h : Forest parent) (hb : parent b = some a) (hc : parent c = some a)
    (hne : b ≠ c) : ¬ AtOrAbove parent b c := not_atOrAbove_sibling (h a) hb hc hne

/-- What is above a node on a cycle is on it. -/
theorem Above.cycle_parent (h : Above parent a a) (hparent : parent a = some b) :
    Above parent b b := by
  obtain ⟨c, hac, hca⟩ := TransGen.head'_iff.mp h
  have hcb : c = b := rightUnique_isParent hac hparent
  rw [hcb] at hca
  exact TransGen.tail' hca hparent

open Classical in
/-- How many of the nodes are at or above a node. -/
noncomputable def depth (parent : α → Option α) (nodes : Finset α) (a : α) : ℕ :=
  (nodes.filter fun b => AtOrAbove parent a b).card

theorem depth_le (nodes : Finset α) (a : α) : depth parent nodes a ≤ nodes.card := by
  classical
  exact Finset.card_filter_le _ _

/-- The way up ends. -/
theorem Forest.depth_lt (h : Forest parent) {nodes : Finset α} (ha : a ∈ nodes)
    (hparent : parent a = some b) : depth parent nodes b < depth parent nodes a := by
  classical
  apply Finset.card_lt_card
  rw [Finset.ssubset_iff_of_subset]
  · refine ⟨a, Finset.mem_filter.mpr ⟨ha, .refl⟩, ?_⟩
    intro hmem
    exact h.not_atOrAbove_parent hparent (Finset.mem_filter.mp hmem).2
  · intro c hc
    obtain ⟨hnode, hbc⟩ := Finset.mem_filter.mp hc
    exact Finset.mem_filter.mpr ⟨hnode, ReflTransGen.head hparent hbc⟩

open Classical in
/-- How many of the nodes a node is at or above. -/
noncomputable def weight (parent : α → Option α) (nodes : Finset α) (a : α) : ℕ :=
  (nodes.filter fun b => AtOrAbove parent b a).card

/-- The way down from a node that is not above itself ends. -/
theorem weight_lt {nodes : Finset α} (h : ¬ Above parent a a) (ha : a ∈ nodes)
    (hparent : parent c = some a) : weight parent nodes c < weight parent nodes a := by
  classical
  apply Finset.card_lt_card
  rw [Finset.ssubset_iff_of_subset]
  · refine ⟨a, Finset.mem_filter.mpr ⟨ha, .refl⟩, ?_⟩
    intro hmem
    exact h (TransGen.tail' (Finset.mem_filter.mp hmem).2 hparent)
  · intro b hb
    obtain ⟨hnode, hbc⟩ := Finset.mem_filter.mp hb
    exact Finset.mem_filter.mpr ⟨hnode, ReflTransGen.tail hbc hparent⟩

end Orqara
