import Orqara.Layout.PaneEdits

/-!
# What the user can see

A tree in which only the Explorer pane may be hidden, in which some other pane is
visible, and whose focused pane is visible: for every action on a layout, when it
leaves such a tree.
-/

namespace Orqara.Layout

open List Option

/-- A pane with the id stands in the tree and is visible. -/
def VisibleIn (root : SplitNode) (paneId : String) : Prop :=
  ∃ pane ∈ root.leaves, pane.id = paneId ∧ pane.hidden = false

/-- Only the Explorer may be hidden, and a pane other than the Explorer is visible. -/
structure PanesVisible (explorer : Option String) (root : SplitNode) : Prop where
  hiddenOnly : ∀ pane ∈ root.leaves, pane.hidden = true → explorer = some pane.id
  somewhere : ∃ pane ∈ root.leaves, pane.hidden = false ∧ explorer ≠ some pane.id

/-- An ordinary pane with another id is visible. -/
abbrev AnotherVisible (explorer : Option String) (root : SplitNode) (paneId : String) : Prop :=
  ∃ other ∈ root.leaves, other.hidden = false ∧ explorer ≠ some other.id ∧ other.id ≠ paneId

/-- The focus is on no pane or on a visible one. -/
def FocusVisible (root : SplitNode) (focusedPaneId : Option String) : Prop :=
  ∀ paneId, focusedPaneId = some paneId → VisibleIn root paneId

/-- What a layout shows. -/
structure Shown (explorer : Option String) (layout : WorkspaceLayout) : Prop where
  root : RootOk layout.root
  panes : PanesVisible explorer layout.root
  focus : FocusVisible layout.root layout.focusedPaneId

variable {explorer : Option String} {root next : SplitNode} {pane pane' : SplitPane} {paneId : String}
  {newTab : WorkspaceTab}

@[simp] theorem focusVisible_none : FocusVisible root none := by
  simp [FocusVisible]

theorem focusVisible_some :
    FocusVisible root (some paneId) ↔ VisibleIn root paneId := by
  simp [FocusVisible]

theorem mem_collectAllPanes : pane ∈ collectAllPanes root ↔ pane ∈ root.leaves ∧ pane.hidden = false := by
  simp [collectAllPanes]

theorem visibleIn_of_mem (h : pane ∈ collectAllPanes root) : VisibleIn root pane.id :=
  ⟨pane, (mem_collectAllPanes.mp h).1, rfl, (mem_collectAllPanes.mp h).2⟩

/-- A pane with the id of a visible one is visible. -/
theorem hidden_false (ok : RootOk root) (hpane : pane ∈ root.leaves)
    (h : VisibleIn root pane.id) : pane.hidden = false := by
  obtain ⟨other, hother, hid, hvisible⟩ := h
  rw [← eq_of_id ok.distinct hother hpane hid]
  exact hvisible

/-! ## Edits -/

/-- A pane hidden afterwards was hidden before. -/
def HidesNothing (root next : SplitNode) : Prop :=
  ∀ pane' ∈ next.leaves, pane'.hidden = true →
    ∃ pane ∈ root.leaves, pane.id = pane'.id ∧ pane.hidden = true

theorem HidesNothing.visibleIn (h : HidesNothing root next) (ok : RootOk root)
    (visible : VisibleIn root paneId) (hpane' : pane' ∈ next.leaves) (hid : pane'.id = paneId) :
    VisibleIn next paneId := by
  refine ⟨pane', hpane', hid, ?_⟩
  cases hhidden : pane'.hidden with
  | false => rfl
  | true =>
    obtain ⟨other, hother, hsame, hwas⟩ := h pane' hpane' hhidden
    have hnot := hidden_false ok hother (by rwa [hsame, hid])
    simp [hwas] at hnot

theorem HidesNothing.hiddenOnly (h : HidesNothing root next)
    (panes : PanesVisible explorer root) :
    ∀ pane' ∈ next.leaves, pane'.hidden = true → explorer = some pane'.id := by
  intro pane' hpane' hhidden
  obtain ⟨other, hother, hsame, hwas⟩ := h pane' hpane' hhidden
  rw [← hsame]
  exact panes.hiddenOnly other hother hwas

section

variable (h : Updated root next pane pane') (shown : pane'.hidden = pane.hidden ∨ pane'.hidden = false)
include h shown

theorem Updated.hidesNothing : HidesNothing root next := by
  obtain ⟨pre, post, hold, hnew⟩ := h.leaves
  intro other hother hhidden
  rw [hnew, mem_append, mem_cons] at hother
  rcases hother with hother | rfl | hother
  · exact ⟨other, by simp [hold, hother], rfl, hhidden⟩
  · refine ⟨pane, by simp [hold], h.sameId.symm, ?_⟩
    rcases shown with heq | hfalse
    · rw [← heq, hhidden]
    · simp [hfalse] at hhidden
  · exact ⟨other, by simp [hold, hother], rfl, hhidden⟩

/-- Every visible pane is still there when one is edited without being hidden. -/
theorem Updated.visibleIn (visible : VisibleIn root paneId) :
    VisibleIn next paneId := by
  obtain ⟨pre, post, hold, hnew⟩ := h.leaves
  obtain ⟨other, hother, hid, hvisible⟩ := visible
  rw [hold, mem_append, mem_cons] at hother
  rcases hother with hother | rfl | hother
  · exact ⟨other, by simp [hnew, hother], hid, hvisible⟩
  · refine ⟨pane', by simp [hnew], h.sameId.trans hid, ?_⟩
    rcases shown with heq | hfalse
    · rw [heq, hvisible]
    · exact hfalse
  · exact ⟨other, by simp [hnew, hother], hid, hvisible⟩

theorem Updated.panesVisible (panes : PanesVisible explorer root) : PanesVisible explorer next where
  hiddenOnly := (h.hidesNothing shown).hiddenOnly panes
  somewhere := by
    obtain ⟨other, hother, hvisible, hordinary⟩ := panes.somewhere
    obtain ⟨found, hfound, hid, hstill⟩ := h.visibleIn shown ⟨other, hother, rfl, hvisible⟩
    exact ⟨found, hfound, hstill, by rwa [hid]⟩

end

section

variable (h : PaneInserted root next pane)
include h

theorem PaneInserted.visibleIn (visible : VisibleIn root paneId) :
    VisibleIn next paneId := by
  obtain ⟨pre, post, hold, hnew⟩ := h.leaves
  obtain ⟨other, hother, hid, hvisible⟩ := visible
  rw [hold, mem_append] at hother
  refine ⟨other, ?_, hid, hvisible⟩
  rw [hnew, mem_append, mem_cons]
  tauto

theorem PaneInserted.mem' : pane ∈ next.leaves := by
  obtain ⟨pre, post, -, hnew⟩ := h.leaves
  simp [hnew]

theorem PaneInserted.hiddenOnly (visible : pane.hidden = false)
    (hiddenOnly : ∀ pane ∈ root.leaves, pane.hidden = true → explorer = some pane.id) :
    ∀ pane ∈ next.leaves, pane.hidden = true → explorer = some pane.id := by
  obtain ⟨pre, post, hold, hnew⟩ := h.leaves
  intro other hother hhidden
  rw [hnew, mem_append, mem_cons] at hother
  rcases hother with hother | rfl | hother
  · exact hiddenOnly other (by simp [hold, hother]) hhidden
  · simp [visible] at hhidden
  · exact hiddenOnly other (by simp [hold, hother]) hhidden

end

section

variable (h : PaneRemoved newTab root next pane)
include h

theorem PaneRemoved.ok :
    RootOk next := by
  cases h <;> assumption

theorem PaneRemoved.hidesNothing :
    HidesNothing root next := by
  intro other hother hhidden
  cases h with
  | emptied _ whole left =>
    obtain rfl : other = createPane pane.id [newTab] none false := by simpa [left] using hother
    simp at hhidden
  | removed _ whole left _ =>
    refine ⟨other, ?_, rfl, hhidden⟩
    rw [left, mem_append] at hother
    rw [whole, mem_append, mem_cons]
    tauto

/-- The other panes stay when one is removed. -/
theorem PaneRemoved.visibleIn (visible : VisibleIn root paneId) (other : paneId ≠ pane.id) :
    VisibleIn next paneId := by
  obtain ⟨found, hfound, hid, hvisible⟩ := visible
  cases h with
  | emptied _ whole left =>
    obtain rfl : found = pane := by simpa [whole] using hfound
    exact absurd hid.symm other
  | removed _ whole left _ =>
    refine ⟨found, ?_, hid, hvisible⟩
    rw [whole, mem_append, mem_cons] at hfound
    rw [left, mem_append]
    rcases hfound with h | rfl | h
    · exact .inl h
    · exact absurd hid.symm other
    · exact .inr h

/-- Removing a pane is safe when it is the whole tree or when another ordinary pane
is visible. -/
theorem PaneRemoved.panesVisible (panes : PanesVisible explorer root)
    (another : root.leaves.length = 1 ∨ AnotherVisible explorer root pane.id) :
    PanesVisible explorer next where
  hiddenOnly := h.hidesNothing.hiddenOnly panes
  somewhere := by
    rcases another with hwhole | ⟨other, hother, hvisible, hordinary, hne⟩
    · cases h with
      | emptied _ whole left =>
        obtain ⟨found, hfound, -, hordinary⟩ := panes.somewhere
        obtain rfl : found = pane := by simpa [whole] using hfound
        exact ⟨createPane found.id [newTab] none false, by simp [left], rfl, hordinary⟩
      | @removed pre post _ whole left others =>
        rw [whole] at hwhole
        have hnone : pre ++ post = [] := by
          apply length_eq_zero_iff.mp
          simp only [length_append, length_cons] at hwhole ⊢
          omega
        exact absurd hnone others
    · obtain ⟨found, hfound, hid, hstill⟩ := h.visibleIn ⟨other, hother, rfl, hvisible⟩ hne
      exact ⟨found, hfound, hstill, by rwa [hid]⟩

end

/-! ## Where the focus goes -/

theorem visibleIn_findNearestSiblingPaneId {found : String}
    (h : findNearestSiblingPaneId root paneId = some found) : VisibleIn root found := by
  have hlist : ∀ {n : SplitNode} {path : List ℕ}, root.getAt path = some n →
      ∀ id ∈ listPaneIds n, VisibleIn root id := by
    intro n path hget id hid
    obtain ⟨pane, hpane, rfl⟩ := List.mem_map.mp hid
    obtain ⟨hmem, hvisible⟩ := mem_collectAllPanes.mp hpane
    refine ⟨pane, ?_, rfl, hvisible⟩
    rw [SplitTree.leaves_getAt hget]
    simp [hmem]
  unfold findNearestSiblingPaneId at h
  split at h
  · cases h
  · obtain ⟨depth, -, hdepth⟩ := exists_of_findSome?_eq_some h
    split at hdepth
    · rename_i group children childIndex hget hindex
      have hchild : ∀ child ∈ children, ∀ id ∈ listPaneIds child, VisibleIn root id := by
        intro child hchild id hid
        apply hlist hget id
        obtain ⟨pane, hpane, rfl⟩ := List.mem_map.mp hid
        obtain ⟨hmem, hvisible⟩ := mem_collectAllPanes.mp hpane
        apply List.mem_map.mpr ⟨pane, mem_collectAllPanes.mpr ⟨?_, hvisible⟩, rfl⟩
        rw [SplitTree.leaves_node, SplitTree.mem_leavesAll]
        exact ⟨child, hchild, hmem⟩
      unfold nearestAmong at hdepth
      rcases or_eq_some_iff.mp hdepth with hleft | ⟨-, hright⟩
      · obtain ⟨child, hmem, hlast⟩ := exists_of_findSome?_eq_some hleft
        exact hchild child (mem_of_mem_take (mem_reverse.mp hmem)) found
          (mem_of_getLast? hlast)
      · obtain ⟨child, hmem, hhead⟩ := exists_of_findSome?_eq_some hright
        exact hchild child (mem_of_mem_drop hmem) found (mem_of_head? hhead)
    · cases hdepth

/-- After panes are removed the focus is on a visible pane, as long as there is one. -/
theorem focusVisible_afterTabClose (ok : RootOk root) (hides : HidesNothing root next)
    {focused fallback excluded : Option String} (focus : FocusVisible root focused)
    (nearest : FocusVisible root fallback)
    (somewhere : ∃ pane ∈ next.leaves, pane.hidden = false ∧ some pane.id ≠ excluded) :
    FocusVisible next (getFocusedPaneIdAfterTabClose next focused fallback excluded) := by
  intro paneId h
  unfold getFocusedPaneIdAfterTabClose at h
  split at h
  · cases h
  · rename_i focusedId
    simp only [Option.some.injEq] at h
    obtain ⟨other, hother, hvisible, hne⟩ := somewhere
    -- the search for a visible pane does not fail
    have hfind : ∃ found, ((collectAllPanes next).find? fun pane => some pane.id != excluded) =
        some found := by
      cases hf : (collectAllPanes next).find? fun pane => some pane.id != excluded with
      | some found => exact ⟨found, rfl⟩
      | none =>
        have := find?_eq_none.mp hf other (mem_collectAllPanes.mpr ⟨hother, hvisible⟩)
        simp [hne] at this
    have hkept : ∀ (id : Option String) (found : SplitPane), FocusVisible root id →
        findPaneById next id = some found → VisibleIn next found.id := by
      intro id found hfocus hfound
      obtain ⟨hmem, hid⟩ := findPaneById_some hfound
      exact hides.visibleIn ok (hfocus found.id hid.symm) hmem rfl
    obtain ⟨found, hfound⟩ := hfind
    rw [hfound] at h
    cases hfirst : (if some focusedId ≠ excluded then
        (findPaneById next (some focusedId)).map (·.id) else none) with
    | some id =>
      rw [hfirst] at h
      obtain rfl : id = paneId := by simpa using h
      split at hfirst
      · obtain ⟨pane, hpane, rfl⟩ := map_eq_some_iff.mp hfirst
        exact hkept _ pane focus hpane
      · cases hfirst
    | none =>
      rw [hfirst] at h
      cases hsecond : (if fallback.isSome ∧ fallback ≠ excluded then
          (findPaneById next fallback).map (·.id) else none) with
      | some id =>
        rw [hsecond] at h
        obtain rfl : id = paneId := by simpa using h
        split at hsecond
        · obtain ⟨pane, hpane, rfl⟩ := map_eq_some_iff.mp hsecond
          exact hkept _ pane nearest hpane
        · cases hsecond
      | none =>
        rw [hsecond] at h
        obtain rfl : found.id = paneId := by simpa using h
        exact visibleIn_of_mem (mem_of_find?_eq_some hfound)

end Orqara.Layout
