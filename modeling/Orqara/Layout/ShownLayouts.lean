import Orqara.Layout.VisiblePanes

/-!
# Actions that leave something to look at

For every action on a layout: when it starts from a layout that shows a visible
ordinary pane and focuses a visible one, it leads to such a layout. The paths
that take the last tab out of a pane need that another ordinary pane is visible.
-/

namespace Orqara.Layout

open List Option

variable {explorer : Option String} {layout next : WorkspaceLayout} {root : SplitNode} {pane : SplitPane}
  {newTab tab : WorkspaceTab} {tabId paneId : String} {preserve : Option String}
  {result : SplitPaneInLayoutResult} {target : WorkspaceTabTarget} {state : Option Json}
  {createdTabId : String} {placement : WorkspaceTabPlacement}

def paneIds (root : SplitNode) : List String :=
  root.leaves.map (·.id)

theorem mem_paneIds (h : pane ∈ root.leaves) :
    pane.id ∈ paneIds root :=
  List.mem_map_of_mem h

theorem Updated.paneIds_eq {next : SplitNode} {pane' : SplitPane} (h : Updated root next pane pane') :
    paneIds next = paneIds root := by
  obtain ⟨pre, post, hold, hnew⟩ := h.leaves
  simp [paneIds, hold, hnew, h.sameId]

theorem PaneRemoved.paneIds_subset {next : SplitNode} (h : PaneRemoved newTab root next pane) :
    paneIds next ⊆ paneIds root := by
  cases h with
  | emptied _ whole left => simp [paneIds, whole, left]
  | removed _ whole left _ =>
    rw [paneIds, paneIds, whole, left]
    intro id hid
    simp only [map_append, map_cons, mem_append, mem_cons] at hid ⊢
    tauto

/-- A shown layout, except that the Explorer may have the focus while it is hidden. -/
structure NearlyShown (explorer : Option String) (layout : WorkspaceLayout) : Prop where
  root : RootOk layout.root
  panes : PanesVisible explorer layout.root
  focus : ∀ paneId, layout.focusedPaneId = some paneId →
    explorer = some paneId ∨ VisibleIn layout.root paneId

section

variable (h : Shown explorer layout)
include h

theorem Shown.nearly : NearlyShown explorer layout where
  root := h.root
  panes := h.panes
  focus := fun paneId hf => .inr (h.focus paneId hf)

omit h in
/-- An edit of one pane that does not hide it, with a visible focus. -/
theorem NearlyShown.updated (h : NearlyShown explorer layout) {pane' : SplitPane}
    (edit : Updated layout.root root pane pane')
    (shown : pane'.hidden = pane.hidden ∨ pane'.hidden = false) {focused : Option String}
    (focus : FocusVisible root focused) : Shown explorer (withRoot layout root focused) where
  root := edit.ok
  panes := edit.panesVisible shown h.panes
  focus := focus

/-- An edit of one pane that leaves the focus where it is. -/
theorem Shown.sameFocus {pane' : SplitPane} (edit : Updated layout.root root pane pane')
    (shown : pane'.hidden = pane.hidden ∨ pane'.hidden = false) :
    Shown explorer (withRoot layout root layout.focusedPaneId) :=
  h.nearly.updated edit shown fun paneId hf => edit.visibleIn shown (h.focus paneId hf)

/-! ## Focus -/

omit h in
theorem shown_focusTabInLayout (h : NearlyShown explorer layout)
    (hnext : focusTabInLayout layout tabId = some next) :
    Shown explorer next ∧ paneIds next.root = paneIds layout.root := by
  unfold focusTabInLayout at hnext
  split at hnext
  · cases hnext
  · rename_i pane hpane
    split at hnext
    · cases hnext
    · cases hnext
      obtain ⟨hmem, -⟩ := findPaneContainingTab_some hpane
      have edit := updated_focusTabInPane h.root hmem tabId
      refine ⟨h.updated edit (.inr rfl) ?_, edit.paneIds_eq⟩
      exact focusVisible_some.mpr ⟨_, edit.mem', edit.sameId, rfl⟩

omit h in
/-- Focusing a tab, or nothing when there is nothing to do. -/
theorem nearlyShown_focusTab (h : NearlyShown explorer layout) (tabId : String) :
    NearlyShown explorer ((focusTabInLayout layout tabId).getD layout) ∧
      paneIds ((focusTabInLayout layout tabId).getD layout).root = paneIds layout.root := by
  cases hf : focusTabInLayout layout tabId with
  | none => exact ⟨h, rfl⟩
  | some next =>
    obtain ⟨hshown, hids⟩ := shown_focusTabInLayout h hf
    exact ⟨hshown.nearly, hids⟩

theorem shown_focusTab (tabId : String) :
    Shown explorer ((focusTabInLayout layout tabId).getD layout) ∧
      paneIds ((focusTabInLayout layout tabId).getD layout).root = paneIds layout.root := by
  cases hf : focusTabInLayout layout tabId with
  | none => exact ⟨h, rfl⟩
  | some next => exact shown_focusTabInLayout h.nearly hf

theorem shown_selectTabInPaneInLayout (hnext : selectTabInPaneInLayout layout paneId tabId = some next) :
    Shown explorer next ∧ paneIds next.root = paneIds layout.root := by
  unfold selectTabInPaneInLayout at hnext
  split at hnext
  · cases hnext
  · rename_i pane hpane
    split at hnext
    · cases hnext
    · cases hnext
      obtain ⟨hmem, hid⟩ := findPaneById_some hpane
      obtain rfl : pane.id = paneId := by simpa using hid
      have edit := updated_focusTabInPane h.root hmem tabId
      exact ⟨h.sameFocus edit (.inr rfl), edit.paneIds_eq⟩

theorem shown_focusPaneInLayout (hnext : focusPaneInLayout layout paneId = some next) :
    Shown explorer next ∧ paneIds next.root = paneIds layout.root := by
  unfold focusPaneInLayout at hnext
  split at hnext
  · cases hnext
  · rename_i pane hpane
    obtain ⟨hmem, hid⟩ := findPaneById_some hpane
    obtain rfl : pane.id = paneId := by simpa using hid
    split at hnext
    · cases hnext
    · cases hnext
      split
      · have edit := updated_updatePaneInTree h.root hmem
          (fun pane => { pane with hidden := false })
          ((h.root.panes pane hmem).withTabs rfl rfl) rfl
        refine ⟨h.nearly.updated edit (.inr rfl) ?_, edit.paneIds_eq⟩
        exact focusVisible_some.mpr ⟨_, edit.mem', edit.sameId, rfl⟩
      · rename_i hvisible
        refine ⟨⟨h.root, h.panes, focusVisible_some.mpr ⟨pane, hmem, rfl, ?_⟩⟩, rfl⟩
        simpa using hvisible

/-! ## Hiding and showing -/

theorem shown_showPane (hnext : setPaneHiddenInLayout layout paneId false = some next) :
    Shown explorer next ∧ paneIds next.root = paneIds layout.root := by
  unfold setPaneHiddenInLayout at hnext
  split at hnext
  · cases hnext
  · rename_i pane hpane
    obtain ⟨hmem, hid⟩ := findPaneById_some hpane
    obtain rfl : pane.id = paneId := by simpa using hid
    split at hnext
    · cases hnext
    · rw [if_neg (by simp)] at hnext
      cases hnext
      have edit := updated_updatePaneInTree h.root hmem
        (fun pane => { pane with hidden := false })
        ((h.root.panes pane hmem).withTabs rfl rfl) rfl
      rw [if_neg (by simp)]
      exact ⟨h.sameFocus edit (.inr rfl), edit.paneIds_eq⟩

end

/-- Only the Explorer is ever hidden; the visible ordinary pane takes the focus over. -/
theorem shown_hideExplorer (h : Shown (some paneId) layout)
    (hnext : setPaneHiddenInLayout layout paneId true = some next) :
    Shown (some paneId) next ∧ paneIds next.root = paneIds layout.root := by
  unfold setPaneHiddenInLayout at hnext
  split at hnext
  · cases hnext
  · rename_i pane hpane
    obtain ⟨hmem, hid⟩ := findPaneById_some hpane
    obtain rfl : pane.id = paneId := by simpa using hid
    split at hnext
    · cases hnext
    · split at hnext
      · cases hnext
      · cases hnext
        have edit := updated_updatePaneInTree h.root hmem
          (fun pane => { pane with hidden := true })
          ((h.root.panes pane hmem).withTabs rfl rfl) rfl
        refine ⟨⟨edit.ok, ⟨?_, ?_⟩, ?_⟩, edit.paneIds_eq⟩
        · obtain ⟨pre, post, hold, hnew⟩ := edit.leaves
          intro other hother hhidden
          rw [withRoot_root, hnew, mem_append, mem_cons] at hother
          rcases hother with hother | rfl | hother
          · exact h.panes.hiddenOnly other (by simp [hold, hother]) hhidden
          · rfl
          · exact h.panes.hiddenOnly other (by simp [hold, hother]) hhidden
        · obtain ⟨other, hother, hvisible, hne⟩ := h.panes.somewhere
          refine ⟨other, ?_, hvisible, hne⟩
          obtain ⟨pre, post, hold, hnew⟩ := edit.leaves
          rw [hold, mem_append, mem_cons] at hother
          rw [withRoot_root, hnew, mem_append, mem_cons]
          rcases hother with hother | rfl | hother
          · exact .inl hother
          · exact absurd rfl hne
          · exact .inr (.inr hother)
        · rw [withRoot_root, withRoot_focusedPaneId]
          split
          · intro id hid
            obtain ⟨found, hfound, rfl⟩ := map_eq_some_iff.mp hid
            exact visibleIn_of_mem (mem_of_head? hfound)
          · rename_i hfocus
            intro id hfocused
            obtain ⟨other, hother, rfl, hvisible⟩ := h.focus id hfocused
            refine ⟨other, ?_, rfl, hvisible⟩
            obtain ⟨pre, post, hold, hnew⟩ := edit.leaves
            rw [hold, mem_append, mem_cons] at hother
            rw [hnew, mem_append, mem_cons]
            rcases hother with hother | rfl | hother
            · exact .inl hother
            · exact absurd ⟨rfl, hfocused⟩ hfocus
            · exact .inr (.inr hother)

theorem shown_keepFocusOut (h : NearlyShown explorer layout) (preferred : Option String) :
    Shown explorer (keepWorkspaceFocusOutOfExplorerSidebar layout explorer preferred) := by
  unfold keepWorkspaceFocusOutOfExplorerSidebar
  split
  · rename_i hout
    refine ⟨h.root, h.panes, ?_⟩
    intro paneId hf
    rcases h.focus paneId hf with hexplorer | hvisible
    · rcases hout with hnone | hne
      · simp [hexplorer] at hnone
      · exact absurd (hf.trans hexplorer.symm) hne
    · exact hvisible
  · refine ⟨h.root, h.panes, ?_⟩
    intro paneId hf
    obtain ⟨found, hfound, rfl⟩ := map_eq_some_iff.mp hf
    apply visibleIn_of_mem
    apply mem_of_mem_filter (p := fun pane => some pane.id != explorer)
    rcases or_eq_some_iff.mp hfound with hfirst | ⟨-, hhead⟩
    · rcases or_eq_some_iff.mp hfirst with hpref | ⟨-, hmain⟩
      · exact mem_of_find?_eq_some hpref
      · exact mem_of_find?_eq_some hmain
    · exact mem_of_head? hhead

@[simp] theorem keepFocusOut_root (layout : WorkspaceLayout) (explorer preferred : Option String) :
    (keepWorkspaceFocusOutOfExplorerSidebar layout explorer preferred).root = layout.root := by
  unfold keepWorkspaceFocusOutOfExplorerSidebar
  split <;> rfl

/-! ## Taking tabs and panes away -/

/-- Every edit keeps the other ordinary panes visible. -/
theorem Updated.anotherVisible {next : SplitNode} {edited edited' : SplitPane}
    (edit : Updated root next edited edited') (shown : edited'.hidden = edited.hidden)
    (another : AnotherVisible explorer root paneId) :
    AnotherVisible explorer next paneId := by
  obtain ⟨other, hother, hvisible, hordinary, hne⟩ := another
  obtain ⟨found, hfound, hid, hstill⟩ := edit.visibleIn (.inl shown) ⟨other, hother, rfl, hvisible⟩
  exact ⟨found, hfound, hstill, by rwa [hid], by rwa [hid]⟩

/-- An edit that keeps the tab ids of the pane leaves every tab where it was. -/
theorem Updated.findPaneContainingTab {next : SplitNode} {edited edited' : SplitPane}
    (edit : Updated root next edited edited') (tabIds : edited'.tabIds = edited.tabIds) (tabId : String) :
    (findPaneContainingTab next tabId).map (fun pane => (pane.id, pane.tabIds)) =
      (findPaneContainingTab root tabId).map fun pane => (pane.id, pane.tabIds) := by
  obtain ⟨pre, post, hold, hnew⟩ := edit.leaves
  unfold Layout.findPaneContainingTab
  rw [hnew, hold, find?_append, find?_append, find?_cons, find?_cons, tabIds]
  cases pre.find? fun pane => pane.tabIds.contains tabId with
  | some pane => rfl
  | none =>
    rw [none_or, none_or]
    split
    · simp [edit.sameId, tabIds]
    · rfl

/-- An edit that changes no visibility, read backwards. -/
theorem Updated.visibleIn_of_next {next : SplitNode} {edited edited' : SplitPane}
    (edit : Updated root next edited edited') (shown : edited'.hidden = edited.hidden)
    (visible : VisibleIn next paneId) : VisibleIn root paneId := by
  obtain ⟨pre, post, hold, hnew⟩ := edit.leaves
  obtain ⟨other, hother, hid, hvisible⟩ := visible
  rw [hnew, mem_append, mem_cons] at hother
  rcases hother with hother | rfl | hother
  · exact ⟨other, by simp [hold, hother], hid, hvisible⟩
  · exact ⟨edited, by simp [hold], edit.sameId.symm.trans hid, shown ▸ hvisible⟩
  · exact ⟨other, by simp [hold, hother], hid, hvisible⟩

theorem without_eq_nil_iff :
    pane.without tabId = [] ↔ ∀ id ∈ pane.tabIds, id = tabId := by
  simp [SplitPane.without, SplitPane.tabIds]

/-- Taking the tab out of its pane does not take the last visible ordinary pane with
it: the pane keeps a tab, is preserved, is the whole tree or the Explorer, or
can be dismissed. -/
def KeepsPane (explorer : Option String) (layout : WorkspaceLayout) (tabId : String)
    (preserve : SplitPane → Option String) : Prop :=
  ∀ pane, findPaneContainingTab layout.root tabId = some pane →
    pane.without tabId ≠ [] ∨ preserve pane = some pane.id ∨ layout.root.leaves.length = 1 ∨
      explorer = some pane.id ∨ canDismissPaneInLayout layout pane.id explorer = true

/-- Of two panes with distinct ids one has another id than the given one. -/
theorem exists_other_id {panes : List SplitPane} (hlen : 1 < panes.length)
    (hnodup : (panes.map (·.id)).Nodup) (paneId : String) :
    ∃ other ∈ panes, other.id ≠ paneId := by
  match panes, hlen, hnodup with
  | a :: b :: rest, _, hnodup =>
    by_cases ha : a.id = paneId
    · refine ⟨b, mem_cons_of_mem _ mem_cons_self, ?_⟩
      intro hb
      rw [map_cons, map_cons, nodup_cons] at hnodup
      exact hnodup.1 (by rw [ha, ← hb]; exact mem_cons_self)
    · exact ⟨a, mem_cons_self, ha⟩

/-- A visible ordinary pane other than one that can be dismissed. -/
theorem another_of_canDismiss (ok : RootOk layout.root) (ordinary : explorer ≠ some pane.id)
    (h : canDismissPaneInLayout layout pane.id explorer = true) :
    AnotherVisible explorer layout.root pane.id := by
  unfold canDismissPaneInLayout at h
  split at h
  · cases h
  · dsimp only at h
    rw [if_neg (fun heq => ordinary heq.symm)] at h
    simp only [Bool.and_eq_true, decide_eq_true_eq] at h
    obtain ⟨-, hlen⟩ := h
    have hnodup : (((collectAllPanes layout.root).filter fun candidate =>
        some candidate.id != explorer).map (·.id)).Nodup := by
      apply List.Sublist.nodup _ ok.distinct
      exact ((filter_sublist).trans filter_sublist).map _
    have hmem : ∀ other ∈ (collectAllPanes layout.root).filter fun candidate =>
        some candidate.id != explorer, other ∈ layout.root.leaves ∧ other.hidden = false ∧
          explorer ≠ some other.id := by
      intro other hother
      obtain ⟨hall, hne⟩ := mem_filter.mp hother
      obtain ⟨hleaf, hvisible⟩ := mem_collectAllPanes.mp hall
      exact ⟨hleaf, hvisible, fun heq => (bne_iff_ne.mp hne) heq.symm⟩
    obtain ⟨other, hother, hne⟩ := exists_other_id hlen hnodup pane.id
    obtain ⟨hleaf, hvisible, hordinary⟩ := hmem other hother
    exact ⟨other, hleaf, hvisible, hordinary, hne⟩

theorem PaneRemoved.shown (removed : PaneRemoved newTab layout.root root pane) (h : Shown explorer layout)
    (another : layout.root.leaves.length = 1 ∨
      AnotherVisible explorer layout.root pane.id) {excluded : Option String}
    (hexcluded : excluded = none ∨ excluded = explorer) (paneId : String) :
    Shown explorer (withRoot layout root (getFocusedPaneIdAfterTabClose root layout.focusedPaneId
      (findNearestSiblingPaneId layout.root paneId) excluded)) := by
  have hpanes := removed.panesVisible h.panes another
  refine ⟨removed.ok, hpanes, ?_⟩
  apply focusVisible_afterTabClose h.root removed.hidesNothing h.focus
  · intro id hid
    exact visibleIn_findNearestSiblingPaneId hid
  · obtain ⟨other, hother, hvisible, hne⟩ := hpanes.somewhere
    refine ⟨other, hother, hvisible, ?_⟩
    rcases hexcluded with rfl | rfl
    · simp
    · exact fun heq => hne heq.symm

/-- The focus after an edit that removes no pane. -/
theorem Updated.shown_afterTabClose {pane' : SplitPane} (edit : Updated layout.root root pane pane')
    (shown : pane'.hidden = pane.hidden) (h : Shown explorer layout) (paneId : String) :
    Shown explorer (withRoot layout root (getFocusedPaneIdAfterTabClose root layout.focusedPaneId
      (findNearestSiblingPaneId layout.root paneId) none)) := by
  have hpanes := edit.panesVisible (.inl shown) h.panes
  refine ⟨edit.ok, hpanes, ?_⟩
  apply focusVisible_afterTabClose h.root (edit.hidesNothing (.inl shown)) h.focus
  · intro id hid
    exact visibleIn_findNearestSiblingPaneId hid
  · obtain ⟨other, hother, hvisible, hne⟩ := hpanes.somewhere
    exact ⟨other, hother, hvisible, by simp⟩

theorem Detached.paneIds_subset {next : SplitNode} (h : Detached newTab tabId preserve root next pane) :
    paneIds next ⊆ paneIds root := by
  cases h with
  | kept _ updated => rw [updated.paneIds_eq]; exact fun _ h => h
  | retained _ _ updated => rw [updated.paneIds_eq]; exact fun _ h => h
  | removed _ _ removed => exact removed.paneIds_subset

section

variable (htab : TabOk newTab)
include htab

section

variable (h : Shown explorer layout)
include h

theorem shown_closeTabInLayout (keeps : KeepsPane explorer layout tabId (preservedOnClose preserve))
    (hnext : closeTabInLayout newTab layout tabId preserve = some next) :
    Shown explorer next ∧ paneIds next.root ⊆ paneIds layout.root := by
  unfold closeTabInLayout at hnext
  split at hnext
  · cases hnext
  · rename_i pane hpane
    obtain ⟨tab, -, -, -, detached⟩ :=
      detached_detachTabFromTree htab h.root hpane (preservedOnClose preserve pane)
    have hclosed : Shown explorer (withRoot layout
        (detachTabFromTree newTab layout.root tabId (preservedOnClose preserve pane)).1
        (getFocusedPaneIdAfterTabClose
          (detachTabFromTree newTab layout.root tabId (preservedOnClose preserve pane)).1
          layout.focusedPaneId (findNearestSiblingPaneId layout.root pane.id) none)) := by
      cases detached with
      | kept _ updated => exact updated.shown_afterTabClose rfl h pane.id
      | retained _ _ updated => exact updated.shown_afterTabClose rfl h pane.id
      | removed alone dropped removed =>
        apply removed.shown h _ (.inl rfl) pane.id
        rcases keeps pane hpane with hothers | hpreserve | hwhole | hexplorer | hdismiss
        · exact absurd alone hothers
        · exact absurd hpreserve dropped
        · exact .inl hwhole
        · obtain ⟨other, hother, hvisible, hne⟩ := h.panes.somewhere
          exact .inr ⟨other, hother, hvisible, hne, fun heq => hne (by rw [heq, hexplorer])⟩
        · by_cases hexplorer : explorer = some pane.id
          · obtain ⟨other, hother, hvisible, hne⟩ := h.panes.somewhere
            exact .inr ⟨other, hother, hvisible, hne, fun heq => hne (by rw [heq, hexplorer])⟩
          · exact .inr (another_of_canDismiss h.root hexplorer hdismiss)
    have hids : paneIds
        (detachTabFromTree newTab layout.root tabId (preservedOnClose preserve pane)).1 ⊆
          paneIds layout.root := detached.paneIds_subset
    dsimp only at hnext
    split at hnext
    · cases hnext
      exact ⟨hclosed, hids⟩
    · rename_i successor _
      cases hnext
      obtain ⟨hshown, heq⟩ := shown_focusTab hclosed successor
      refine ⟨hshown, ?_⟩
      rw [heq]
      exact hids

theorem shown_closePane_of_another {passed : Option String} (hpassed : passed = none ∨ passed = explorer)
    (another : AnotherVisible explorer layout.root paneId)
    (hnext : closePaneInLayout newTab layout paneId passed = some next) :
    Shown explorer next ∧ paneIds next.root ⊆ paneIds layout.root := by
  unfold closePaneInLayout at hnext
  split at hnext
  · cases hnext
  · rename_i path hpath
    dsimp only at hnext
    split at hnext
    · cases hnext
    · cases hnext
      obtain ⟨pre, pane, post, hleaves, hid, -, hget, -⟩ := located hpath
      obtain rfl : pane.id = paneId := by simpa using hid
      have removed := paneRemoved_removePaneByPath htab h.root hget
      exact ⟨removed.shown h (.inr another) hpassed pane.id, removed.paneIds_subset⟩

omit htab in
/-- The guard of `closePaneInLayout` leaves another visible ordinary pane. -/
theorem another_of_closePaneInLayout (ordinary : explorer ≠ some paneId)
    (hnext : closePaneInLayout newTab layout paneId explorer = some next) :
    AnotherVisible explorer layout.root paneId := by
  obtain ⟨other, hother, hvisible, hne⟩ := h.panes.somewhere
  by_cases hsame : other.id = paneId
  · subst hsame
    apply another_of_canDismiss h.root ordinary
    unfold closePaneInLayout at hnext
    split at hnext
    · cases hnext
    · dsimp only at hnext
      split at hnext
      · cases hnext
      · rename_i hguard
        have hlist : other.id ∈ (listPaneIds layout.root).filter fun id => some id != explorer := by
          simp only [mem_filter, bne_iff_ne, ne_eq]
          exact ⟨List.mem_map.mpr ⟨other, mem_collectAllPanes.mpr ⟨hother, hvisible⟩, rfl⟩,
            fun heq => hne heq.symm⟩
        have hlen : ((collectAllPanes layout.root).filter fun candidate =>
            some candidate.id != explorer).length =
            ((listPaneIds layout.root).filter fun id => some id != explorer).length := by
          rw [listPaneIds, List.filter_map, length_map]
          rfl
        unfold canDismissPaneInLayout
        rw [h.root.findPaneById hother]
        simp only [hvisible, hlen, if_neg (show some other.id ≠ explorer from
          fun heq => ordinary heq.symm), Bool.not_false, Bool.true_and, decide_eq_true_eq]
        by_contra hshort
        exact hguard ⟨fun heq => ordinary heq.symm, by omega, hlist⟩
  · exact ⟨other, hother, hvisible, hne, hsame⟩

theorem shown_closePaneInLayout (ordinary : explorer ≠ some paneId)
    (hnext : closePaneInLayout newTab layout paneId explorer = some next) :
    Shown explorer next ∧ paneIds next.root ⊆ paneIds layout.root :=
  shown_closePane_of_another htab h (.inr rfl) (another_of_closePaneInLayout h ordinary hnext) hnext

/-! ## Moving tabs -/

omit htab h in
theorem Detached.hidesNothing {next : SplitNode} (h : Detached newTab tabId preserve root next pane) :
    HidesNothing root next := by
  cases h with
  | kept _ updated => exact updated.hidesNothing (.inl rfl)
  | retained _ _ updated => exact updated.hidesNothing (.inl rfl)
  | removed _ _ removed => exact removed.hidesNothing

omit htab h in
theorem Detached.ok {next : SplitNode} (h : Detached newTab tabId preserve root next pane) :
    RootOk next := by
  cases h with
  | kept _ updated => exact updated.ok
  | retained _ _ updated => exact updated.ok
  | removed _ _ removed => exact removed.ok

omit htab h in
theorem Detached.visibleIn {next : SplitNode} (h : Detached newTab tabId preserve root next pane)
    (visible : VisibleIn root paneId) (other : paneId = pane.id → preserve = some pane.id) :
    VisibleIn next paneId := by
  cases h with
  | kept _ updated => exact updated.visibleIn (.inl rfl) visible
  | retained _ _ updated => exact updated.visibleIn (.inl rfl) visible
  | removed _ dropped removed => exact removed.visibleIn visible fun heq => dropped (other heq)

/-- A tab taken out of its pane and put into a visible one. -/
theorem shown_detachInsert {source : SplitPane}
    (hsource : findPaneContainingTab layout.root tabId = some source) (toPaneId : String)
    (tab : WorkspaceTab) (preserve : Option String) (target : VisibleIn layout.root toPaneId)
    (within : toPaneId = source.id → preserve = some source.id)
    (keeps : source.without tabId ≠ [] ∨ preserve = some source.id ∨
      AnotherVisible explorer layout.root source.id)
    (hdetached : (detachTabFromTree newTab layout.root tabId preserve).2 = some tab) :
    Shown explorer (withRoot layout
      (insertTabIntoPane (detachTabFromTree newTab layout.root tabId preserve).1 toPaneId tab
        (some tabId)) (some toPaneId)) ∧
      paneIds (insertTabIntoPane (detachTabFromTree newTab layout.root tabId preserve).1 toPaneId
        tab (some tabId)) ⊆ paneIds layout.root := by
  obtain ⟨found, hfound, -, hsome, detached⟩ :=
    detached_detachTabFromTree htab h.root hsource preserve
  obtain rfl : found = tab := by simpa [hsome] using hdetached
  have hmem := (findPaneContainingTab_some hsource).1
  have hfoundOk := (h.root.panes source hmem).tabOk found hfound
  obtain ⟨pane, hpane, hid, hvisible⟩ := detached.visibleIn target within
  have hpanes : PanesVisible explorer
      (detachTabFromTree newTab layout.root tabId preserve).1 := by
    cases detached with
    | kept _ updated => exact updated.panesVisible (.inl rfl) h.panes
    | retained _ _ updated => exact updated.panesVisible (.inl rfl) h.panes
    | removed alone dropped removed =>
      rcases keeps with hothers | hpreserve | hanother
      · exact absurd alone hothers
      · exact absurd hpreserve dropped
      · exact removed.panesVisible h.panes (.inr hanother)
  subst hid
  have edit := updated_insertTabIntoPane detached.ok hpane hfoundOk (some tabId)
  refine ⟨⟨edit.ok, edit.panesVisible (.inl rfl) hpanes, ?_⟩, ?_⟩
  · exact focusVisible_some.mpr (edit.visibleIn (.inl rfl) ⟨pane, hpane, rfl, hvisible⟩)
  · rw [edit.paneIds_eq]
    exact detached.paneIds_subset

/-- The store's way of moving a tab knows the Explorer. -/
theorem shown_moveTabToPaneInLayout {toPaneId : String}
    (hnext : moveTabToPaneInLayout newTab layout tabId toPaneId explorer = some next) :
    Shown explorer next ∧ paneIds next.root ⊆ paneIds layout.root := by
  unfold moveTabToPaneInLayout at hnext
  split at hnext
  · rename_i source target hsource htarget
    obtain ⟨htargetMem, htargetId⟩ := findPaneById_some htarget
    obtain rfl : target.id = toPaneId := by simpa using htargetId
    split at hnext
    · cases hnext
    · rename_i hvisible
      dsimp only at hnext
      have htargetVisible : target.hidden = false := by simpa using hvisible
      split at hnext
      · split at hnext
        · rename_i hexplorer
          subst hexplorer
          obtain ⟨hshown, hids⟩ := shown_hideExplorer h hnext
          exact ⟨hshown, by rw [hids]; exact fun _ h => h⟩
        · rename_i hordinary
          exact shown_closePaneInLayout htab h (fun heq => hordinary heq.symm) hnext
      · split at hnext
        · cases hnext
        · rename_i root tab hdetach
          cases hnext
          have hresult := shown_detachInsert htab h hsource target.id tab
            (if source.id = target.id ∨ some source.id = explorer ∨
              some target.id = explorer then some source.id else none)
            ⟨target, htargetMem, rfl, htargetVisible⟩
            (fun heq => by rw [if_pos (.inl heq.symm)]) ?_ (by rw [hdetach])
          · rwa [hdetach] at hresult
          · by_cases hkept : source.id = target.id ∨ some source.id = explorer ∨
              some target.id = explorer
            · exact .inr (.inl (if_pos hkept))
            · -- both panes are ordinary and the target stays
              rw [not_or, not_or] at hkept
              exact .inr (.inr ⟨target, htargetMem, htargetVisible,
                fun heq => hkept.2.2 heq.symm, fun heq => hkept.1 heq.symm⟩)
  · cases hnext

omit htab h in
/-- What the condition says of a move out of a pane. -/
theorem KeepsPane.another (keeps : KeepsPane explorer layout tabId fun _ => none)
    (ok : RootOk layout.root) (panes : PanesVisible explorer layout.root) {source : SplitPane}
    (hsource : findPaneContainingTab layout.root tabId = some source)
    (several : layout.root.leaves.length ≠ 1) :
    source.without tabId ≠ [] ∨ AnotherVisible explorer layout.root source.id := by
  have hexplorer : explorer = some source.id → AnotherVisible explorer layout.root source.id := by
    intro heq
    obtain ⟨other, hother, hvisible, hne⟩ := panes.somewhere
    exact ⟨other, hother, hvisible, hne, fun hid => hne (by rw [hid, heq])⟩
  rcases keeps source hsource with hothers | hnone | hwhole | heq | hdismiss
  · exact .inl hothers
  · cases hnone
  · exact absurd hwhole several
  · exact .inr (hexplorer heq)
  · by_cases heq : explorer = some source.id
    · exact .inr (hexplorer heq)
    · exact .inr (another_of_canDismiss ok heq hdismiss)

/-- A reveal moves a tab without knowing the Explorer. -/
theorem shown_moveTab_unaware {toPaneId : String} (keeps : explorer = some toPaneId → ∀ source,
      findPaneContainingTab layout.root tabId = some source →
      source.without tabId ≠ [] ∨ AnotherVisible explorer layout.root source.id)
    (elsewhere : (findPaneContainingTab layout.root tabId).map (·.id) ≠ some toPaneId)
    (hnext : moveTabToPaneInLayout newTab layout tabId toPaneId none = some next) :
    Shown explorer next ∧ paneIds next.root ⊆ paneIds layout.root := by
  unfold moveTabToPaneInLayout at hnext
  split at hnext
  · rename_i source target hsource htarget
    obtain ⟨hsourceMem, hhas⟩ := findPaneContainingTab_some hsource
    obtain ⟨htargetMem, htargetId⟩ := findPaneById_some htarget
    obtain rfl : target.id = toPaneId := by simpa using htargetId
    have hne : source.id ≠ target.id := by simpa [hsource] using elsewhere
    split at hnext
    · cases hnext
    · rename_i hvisible
      dsimp only at hnext
      have htargetVisible : target.hidden = false := by simpa using hvisible
      -- the source keeps a tab, or another ordinary pane is visible
      have hkeeps : source.without tabId ≠ [] ∨
          AnotherVisible explorer layout.root source.id := by
        by_cases hexplorer : explorer = some target.id
        · exact keeps hexplorer source hsource
        · exact .inr ⟨target, htargetMem, htargetVisible, hexplorer, fun heq => hne heq.symm⟩
      split at hnext
      · rename_i hsole
        rw [if_neg (by simp)] at hnext
        rcases hkeeps with hothers | hanother
        · -- a pane with one tab keeps none
          obtain ⟨⟨-, hlen, -⟩, -⟩ := hsole
          obtain ⟨only, honly⟩ := length_eq_one_iff.mp hlen
          exfalso
          apply hothers
          have hid : tabId = only := by simpa [honly] using hhas
          unfold SplitPane.without
          rw [filter_eq_nil_iff]
          intro tab hmem
          have hmemId : tab.tabId ∈ source.tabIds := List.mem_map_of_mem hmem
          rw [honly, mem_singleton] at hmemId
          simp [hmemId, hid]
        · exact shown_closePane_of_another htab h (.inl rfl) hanother hnext
      · split at hnext
        · cases hnext
        · rename_i root tab hdetach
          cases hnext
          have hresult := shown_detachInsert htab h hsource target.id tab
            (if source.id = target.id ∨ some source.id = none ∨
              some target.id = none then some source.id else none)
            ⟨target, htargetMem, rfl, htargetVisible⟩ (fun heq => absurd heq.symm hne)
            (hkeeps.imp_right .inr) (by rw [hdetach])
          rwa [hdetach] at hresult
  · cases hnext

/-! ## New panes -/

omit htab h in
/-- A new visible pane is somewhere to look, and takes the focus. -/
theorem PaneInserted.shown {root' : SplitNode} (inserted : PaneInserted root root' pane)
    (visible : pane.hidden = false) (ordinary : explorer ≠ some pane.id)
    (hiddenOnly : ∀ pane ∈ root.leaves, pane.hidden = true → explorer = some pane.id) :
    Shown explorer (withRoot layout root' (some pane.id)) where
  root := inserted.ok
  panes := ⟨inserted.hiddenOnly visible hiddenOnly, pane, inserted.mem', visible, ordinary⟩
  focus := focusVisible_some.mpr ⟨pane, inserted.mem', rfl, visible⟩

omit htab h in
theorem PaneInserted.paneIds_subset {next : SplitNode} (inserted : PaneInserted root next pane) :
    paneIds next ⊆ pane.id :: paneIds root := by
  obtain ⟨pre, post, hold, hnew⟩ := inserted.leaves
  intro id hid
  rw [paneIds, hnew] at hid
  rw [paneIds, hold]
  simp only [map_append, map_cons, mem_append, mem_cons] at hid ⊢
  tauto

theorem shown_splitPaneInLayout {targetPaneId groupId : String} {position : SplitPosition} {depth : ℕ}
    (hpaneId : Trimmed paneId) (hgroupId : Trimmed groupId) (fresh : paneId ∉ paneIds layout.root)
    (ordinary : explorer ≠ some paneId)
    (hresult : splitPaneInLayout newTab layout tabId targetPaneId position paneId groupId depth =
      some result) :
    Shown explorer result.layout ∧ paneIds result.layout.root ⊆ paneId :: paneIds layout.root := by
  unfold splitPaneInLayout at hresult
  split at hresult
  · cases hresult
  · rename_i hfound
    cases hsource : findPaneContainingTab layout.root tabId with
    | none => simp [hsource] at hfound
    | some source =>
      obtain ⟨tab, hmemTab, -, hsome, detached⟩ :=
        detached_detachTabFromTree htab h.root hsource (some targetPaneId)
      have htabOk := (h.root.panes source (findPaneContainingTab_some hsource).1).tabOk tab hmemTab
      rw [show detachTabFromTree newTab layout.root tabId (some targetPaneId) =
        ((detachTabFromTree newTab layout.root tabId (some targetPaneId)).1, some tab) from
        Prod.ext rfl hsome] at hresult
      dsimp only at hresult
      split at hresult
      · cases hresult
      · rename_i path hpath
        split at hresult
        · cases hresult
        · cases hresult
          obtain ⟨pre, target, post, -, -, -, hget, -⟩ := located hpath
          have hnewPane : PaneOk (createPane paneId [tab] (some tab.tabId) false) :=
            paneOk_createPane hpaneId (by simpa using htabOk) (by simp)
          have inserted := paneInserted_insertPaneBeside detached.ok hget position hgroupId hnewPane
            (fun hmem => fresh (detached.paneIds_subset hmem))
          refine ⟨inserted.shown rfl ordinary (detached.hidesNothing.hiddenOnly h.panes), ?_⟩
          intro id hid
          rcases mem_cons.mp (inserted.paneIds_subset hid) with rfl | hid
          · exact mem_cons_self
          · exact mem_cons_of_mem _ (detached.paneIds_subset hid)

end

theorem paneOk_newPane (hpaneId : Trimmed paneId) :
    PaneOk (createPane paneId [newTab] none false) :=
  paneOk_createPane hpaneId (by simpa using htab) (by simp)

theorem inserted_splitPaneEmptyInLayout (ok : RootOk layout.root) {targetPaneId groupId : String}
    {position : SplitPosition} {depth : ℕ} (hpaneId : Trimmed paneId) (hgroupId : Trimmed groupId)
    (fresh : paneId ∉ paneIds layout.root)
    (hresult : splitPaneEmptyInLayout newTab layout targetPaneId position paneId groupId depth =
      some result) :
    ∃ root, PaneInserted layout.root root (createPane paneId [newTab] none false) ∧
      result = { layout := withRoot layout root (some paneId), paneId } := by
  unfold splitPaneEmptyInLayout at hresult
  split at hresult
  · cases hresult
  · split at hresult
    · cases hresult
    · rename_i path hpath
      dsimp only at hresult
      split at hresult
      · cases hresult
      · cases hresult
        obtain ⟨pre, target, post, -, -, -, hget, -⟩ := located hpath
        exact ⟨_, paneInserted_insertPaneBeside ok hget position hgroupId
          (paneOk_newPane htab hpaneId) fresh, rfl⟩

theorem inserted_splitWorkspaceRootRight (ok : RootOk layout.root) {groupId : String} {depth : ℕ}
    (hpaneId : Trimmed paneId) (hgroupId : Trimmed groupId) (fresh : paneId ∉ paneIds layout.root)
    (hresult : splitWorkspaceRootRightInLayout newTab layout paneId groupId depth = some result) :
    ∃ root, PaneInserted layout.root root (createPane paneId [newTab] none false) ∧
      result = { layout := withRoot layout root (some paneId), paneId } := by
  unfold splitWorkspaceRootRightInLayout at hresult
  dsimp only at hresult
  split at hresult
  · cases hresult
  · cases hresult
    exact ⟨_, paneInserted_rootRight ok hgroupId (paneOk_newPane htab hpaneId) fresh, rfl⟩

end

/-! ## Tabs within panes -/

theorem replaceTabInTree_none {nextTabId : String} (h : findPaneContainingTab root tabId = none) :
    replaceTabInTree root tabId nextTabId target state = root := by
  unfold replaceTabInTree findPanePathContainingTab
  rw [SplitTree.findPath_none.mpr]
  intro pane hmem
  simpa using find?_eq_none.mp h pane hmem

theorem shown_replaceTabInTree (h : Shown explorer layout) (tabId : String) {nextTabId : String}
    (state : Option Json) (hid : Trimmed nextTabId)
    (htarget : normalizeWorkspaceTabTarget target = some target) :
    Shown explorer (withRoot layout (replaceTabInTree layout.root tabId nextTabId target state)
      layout.focusedPaneId) ∧
      paneIds (replaceTabInTree layout.root tabId nextTabId target state) =
        paneIds layout.root := by
  cases hpane : findPaneContainingTab layout.root tabId with
  | none =>
    rw [replaceTabInTree_none hpane]
    exact ⟨⟨h.root, h.panes, h.focus⟩, rfl⟩
  | some pane =>
    have edit := updated_replaceTabInTree h.root hpane state hid htarget
    exact ⟨h.sameFocus edit (.inl rfl), edit.paneIds_eq⟩

theorem reorderTabsForPane_tabs_ne_nil (h : PaneOk pane) (tabIds : List String) :
    (normalizeTabIds tabIds).filterMap (fun tabId => pane.tabs.reverse.find? (·.tabId == tabId)) ++
      pane.tabs.filter (fun tab => tab.tabId ∉ normalizeTabIds tabIds) ≠ [] := by
  obtain ⟨tab, htab⟩ := exists_mem_of_ne_nil _ h.nonempty
  intro hnil
  obtain ⟨hfirst, hrest⟩ := append_eq_nil_iff.mp hnil
  by_cases hmem : tab.tabId ∈ normalizeTabIds tabIds
  · have hnone := filterMap_eq_nil_iff.mp hfirst tab.tabId hmem
    have := find?_eq_none.mp hnone tab (mem_reverse.mpr htab)
    simp at this
  · have := filter_eq_nil_iff.mp hrest tab htab
    simp [hmem] at this

theorem paneOk_reorderTabsForPane (h : PaneOk pane) (tabIds : List String) :
    PaneOk (reorderTabsForPane tabIds pane) := by
  apply paneOk_createPane h.id
  · intro tab htab
    rcases mem_append.mp htab with hmem | hmem
    · obtain ⟨tabId, -, hfind⟩ := mem_filterMap.mp hmem
      exact h.tabOk tab (mem_reverse.mp (mem_of_find?_eq_some hfind))
    · exact h.tabOk tab (mem_of_mem_filter hmem)
  · exact reorderTabsForPane_tabs_ne_nil h tabIds

theorem shown_reorderPaneTabsInLayout (h : Shown explorer layout) {tabIds : List String}
    (hnext : reorderPaneTabsInLayout layout paneId tabIds = some next) :
    Shown explorer next ∧ paneIds next.root = paneIds layout.root := by
  unfold reorderPaneTabsInLayout at hnext
  split at hnext
  · cases hnext
  · rename_i hfound
    cases hnext
    cases hpane : findPaneById layout.root (some paneId) with
    | none => simp [hpane] at hfound
    | some pane =>
      obtain ⟨hmem, hid⟩ := findPaneById_some hpane
      obtain rfl : pane.id = paneId := by simpa using hid
      have hok := paneOk_reorderTabsForPane (h.root.panes pane hmem) tabIds
      have edit := updated_updatePaneInTree h.root hmem (reorderTabsForPane tabIds)
        (hok.withTabs rfl rfl) rfl
      exact ⟨h.sameFocus edit (.inl rfl), edit.paneIds_eq⟩

theorem tabOk_of_find? (ok : RootOk layout.root)
    (h : (collectAllTabs layout.root).find? (·.tabId == tabId) = some tab) :
    TabOk tab ∧ tab.tabId = tabId := by
  refine ⟨?_, by simpa using find?_some h⟩
  obtain ⟨pane, hpane, htab⟩ := mem_flatMap.mp (mem_of_find?_eq_some h)
  exact (ok.panes pane hpane).tabOk tab htab

theorem shown_setTabStateInLayout (h : Shown explorer layout)
    (hnext : setTabStateInLayout layout tabId state = some next) :
    Shown explorer next ∧ paneIds next.root = paneIds layout.root := by
  obtain ⟨tab, hfind, rfl⟩ := map_eq_some_iff.mp hnext
  obtain ⟨hok, rfl⟩ := tabOk_of_find? h.root hfind
  obtain ⟨hid, htarget⟩ := tabOk_iff.mp hok
  exact shown_replaceTabInTree h tab.tabId state hid htarget

theorem trimmed_replacementTabId {current : WorkspaceTab} (hcurrent : Trimmed current.tabId)
    (hcreated : Trimmed createdTabId) (htarget : normalizeWorkspaceTabTarget target = some target) :
    Trimmed (replacementTabId current target createdTabId) := by
  unfold replacementTabId
  split
  · exact hcurrent
  · split
    · exact trimmed_deterministic htarget rfl
    · exact hcreated

theorem shown_replaceTabTargetInLayout (h : Shown explorer layout) (hcreated : Trimmed createdTabId)
    (htarget : normalizeWorkspaceTabTarget target = some target)
    (hnext : replaceTabTargetInLayout layout tabId target createdTabId state = some next) :
    Shown explorer next ∧ paneIds next.root = paneIds layout.root := by
  unfold replaceTabTargetInLayout at hnext
  split at hnext
  · cases hnext
  · rename_i current hfind
    obtain ⟨hok, rfl⟩ := tabOk_of_find? h.root hfind
    have hid := (tabOk_iff.mp hok).1
    split at hnext
    · split at hnext
      · cases hnext
        exact ⟨h, rfl⟩
      · cases hnext
        exact shown_replaceTabInTree h current.tabId state hid htarget
    · cases hnext
      have hparents : Shown explorer { layout with
          parentTabIdByTabId := transferReplacedTabParent layout.parentTabIdByTabId current.tabId
            (replacementTabId current target createdTabId) } := ⟨h.root, h.panes, h.focus⟩
      exact shown_replaceTabInTree hparents current.tabId _
        (trimmed_replacementTabId hid hcreated htarget) htarget

theorem normalize_agent {agentId : String} (h : Trimmed agentId) :
    normalizeWorkspaceTabTarget (.agent agentId) = some (.agent agentId) := by
  have hid : trimNonEmpty agentId = some agentId := h
  simp [normalizeWorkspaceTabTarget, hid]

theorem shown_convertDraftToAgentInLayout (htab : TabOk newTab) (h : Shown explorer layout)
    {agentId : String} (hagent : Trimmed agentId)
    (keeps : ∀ current, (collectAllTabs layout.root).find? (·.tabId == tabId) = some current →
      current.target.kind = .draft → "agent_" ++ agentId ∈ openTabIds layout.root →
      "agent_" ++ agentId ≠ tabId → KeepsPane explorer layout tabId (preservedOnClose none))
    (hnext : convertDraftToAgentInLayout newTab layout tabId agentId = some next) :
    Shown explorer next ∧ paneIds next.root ⊆ paneIds layout.root := by
  unfold convertDraftToAgentInLayout at hnext
  split at hnext
  · cases hnext
  · rename_i current hcurrent
    split at hnext
    · cases hnext
    · rename_i hdraft
      dsimp only at hnext
      split at hnext
      · rename_i hexisting
        cases hnext
        cases hclose : closeTabInLayout newTab layout tabId none with
        | none =>
          obtain ⟨hshown, hids⟩ := shown_focusTab h ("agent_" ++ agentId)
          exact ⟨hshown, by rw [getD_none, hids]; exact fun _ h => h⟩
        | some closed =>
          obtain ⟨hclosed, hsub⟩ := shown_closeTabInLayout htab h
            (keeps current hcurrent (not_not.mp hdraft) hexisting.1 hexisting.2) hclose
          obtain ⟨hshown, hids⟩ := shown_focusTab hclosed ("agent_" ++ agentId)
          exact ⟨hshown, by rw [getD_some, hids]; exact hsub⟩
      · cases hnext
        obtain ⟨hshown, hids⟩ := shown_replaceTabInTree h tabId none
          (trimmed_deterministic (normalize_agent hagent) rfl) (normalize_agent hagent)
        exact ⟨hshown, by rw [withRoot_root, hids]; exact fun _ h => h⟩

/-! ## Opening tabs -/

theorem resolvePlacementPane_mem (h : resolvePlacementPane layout target placement explorer = some pane) :
    pane ∈ layout.root.leaves := by
  unfold resolvePlacementPane at h
  have hfilter : ∀ {o : Option SplitPane} {p : SplitPane → Bool} {found : SplitPane},
      o.filter p = some found → o = some found := fun h => (filter_eq_some_iff.mp h).1
  rcases or_eq_some_iff.mp h with hplaced | ⟨-, hexplorer⟩
  · rcases or_eq_some_iff.mp hplaced with hrequested | ⟨-, hfocused⟩
    · have hcandidate := hfilter hrequested
      split at hcandidate
      · exact (findPaneById_some hcandidate).1
      · exact (findPaneById_some hcandidate).1
      · cases hcandidate
    · rcases or_eq_some_iff.mp hfocused with hcandidate | ⟨-, hvisible⟩
      · exact (findPaneById_some (hfilter hcandidate)).1
      · exact (mem_collectAllPanes.mp (mem_of_find?_eq_some hvisible)).1
  · exact (findPaneById_some (hfilter hexplorer)).1

/-- The pane that a tab is put into holds it, so that a search by the tab leads there. -/
theorem exists_findPaneContainingTab (hpane : pane ∈ root.leaves) (htab : tab ∈ pane.tabs) :
    ∃ found, findPaneContainingTab root tab.tabId = some found := by
  cases hfound : findPaneContainingTab root tab.tabId with
  | some found => exact ⟨found, rfl⟩
  | none =>
    have hnot := find?_eq_none.mp hfound pane hpane
    have hhas : tab.tabId ∈ pane.tabIds := List.mem_map_of_mem htab
    simp [hhas] at hnot

/-- Placing a tab edits one pane and hides none. -/
theorem updated_placeNewTab (ok : RootOk root) (hpane : pane ∈ root.leaves) (htab : TabOk tab)
    (focus : Bool) :
    ∃ edited edited', Updated root (placeNewTab root pane tab focus) edited edited' ∧
      edited'.hidden = edited.hidden := by
  unfold placeNewTab
  dsimp only
  split
  · rename_i current hcurrent
    have hmem : current ∈ pane.tabs := by
      split at hcurrent
      · exact mem_of_head? hcurrent
      · cases hcurrent
    obtain ⟨found, hfound⟩ := exists_findPaneContainingTab hpane hmem
    obtain ⟨hid, htarget⟩ := tabOk_iff.mp htab
    exact ⟨_, _, updated_replaceTabInTree ok hfound tab.state hid htarget, rfl⟩
  · exact ⟨_, _, updated_insertTabIntoPane ok hpane htab _, rfl⟩

/-- A new tab may land in the hidden Explorer; everywhere else it is seen. -/
theorem nearlyShown_insertNewTabIntoPane (h : Shown explorer layout) {now : ℕ} {newTabId : Option String}
    {focus : Bool} (htarget : normalizeWorkspaceTabTarget target = some target)
    (hid : ∀ tabId, newTabId = some tabId → Trimmed tabId) {result : OpenTabInLayoutResult}
    (hresult : insertNewTabIntoPane layout target now placement explorer newTabId state focus =
      some result) :
    NearlyShown explorer result.layout ∧ paneIds result.layout.root = paneIds layout.root ∧
      (focus = false → Shown explorer result.layout) := by
  unfold insertNewTabIntoPane at hresult
  split at hresult
  · rename_i pane tabId hpane
    have hmem := resolvePlacementPane_mem hpane
    have htab : TabOk { tabId, target, createdAt := now, state } :=
      tabOk_iff.mpr ⟨hid tabId rfl, htarget⟩
    obtain ⟨edited, edited', edit, hhidden⟩ := updated_placeNewTab h.root hmem htab focus
    have hvisible := fun {paneId : String} (visible : VisibleIn layout.root paneId) =>
      edit.visibleIn (.inl hhidden) visible
    have hpanes := edit.panesVisible (.inl hhidden) h.panes
    rw [Option.some.injEq] at hresult
    subst hresult
    refine ⟨⟨edit.ok, hpanes, ?_⟩, edit.paneIds_eq, ?_⟩
    · intro paneId hf
      rw [withRoot_focusedPaneId] at hf
      split at hf
      · obtain rfl : pane.id = paneId := by simpa using hf
        cases hhide : pane.hidden with
        | true => exact .inl (h.panes.hiddenOnly pane hmem hhide)
        | false => exact .inr (hvisible ⟨pane, hmem, rfl, hhide⟩)
      · exact .inr (hvisible (h.focus paneId hf))
    · intro hf
      refine ⟨edit.ok, hpanes, ?_⟩
      intro paneId hfocused
      rw [withRoot_focusedPaneId, if_neg (by simp [hf])] at hfocused
      exact hvisible (h.focus paneId hfocused)
  · cases hresult

theorem tabOk_of_existing (ok : RootOk layout.root)
    (h : findExistingTabForTarget layout.root target = some tab) :
    TabOk tab := by
  unfold findExistingTabForTarget at h
  split at h
  · cases h
  · obtain ⟨pane, hpane, htab⟩ := mem_flatMap.mp (mem_of_find?_eq_some h)
    exact (ok.panes pane hpane).tabOk tab htab

theorem shown_updateExistingTabTarget (h : Shown explorer layout) (hid : Trimmed tab.tabId)
    (htarget : normalizeWorkspaceTabTarget target = some target) :
    Shown explorer (updateExistingTabTarget layout tab target) ∧
      paneIds (updateExistingTabTarget layout tab target).root = paneIds layout.root := by
  unfold updateExistingTabTarget
  split
  · exact ⟨h, rfl⟩
  · exact shown_replaceTabInTree h tab.tabId tab.state hid htarget

/-- A tab that gets a new target keeps its id and its place. -/
theorem replaceTab_tabIds (h : PaneOk pane) (hid : Trimmed tabId)
    (htarget : normalizeWorkspaceTabTarget target = some target) :
    (replaceTab tabId tabId target state pane).tabIds = pane.tabIds := by
  have hmap : (pane.tabs.map fun tab => if tab.tabId ≠ tabId then tab
      else { tabId := tabId, target, createdAt := tab.createdAt, state }).map (·.tabId) =
      pane.tabIds := by
    rw [List.map_map, SplitPane.tabIds]
    apply map_congr_left
    intro tab _
    by_cases heq : tab.tabId = tabId <;> simp [heq]
  unfold SplitPane.tabIds replaceTab
  rw [normalizePane_tabs]
  dsimp only
  rw [normalizeWorkspaceTabs_eq _ (by rw [hmap]; exact h.nodup), hmap]
  · rfl
  · intro other hother
    obtain ⟨tab, htab, rfl⟩ := List.mem_map.mp hother
    split
    · exact h.tabOk tab htab
    · exact tabOk_iff.mpr ⟨hid, htarget⟩

/-- A tab gets a new target: nothing moves and nothing is hidden. -/
theorem updated_updateExistingTabTarget (ok : RootOk layout.root) (hid : Trimmed tab.tabId)
    (htarget : normalizeWorkspaceTabTarget target = some target) :
    (updateExistingTabTarget layout tab target).root = layout.root ∨
      ∃ pane pane', Updated layout.root (updateExistingTabTarget layout tab target).root pane pane' ∧
        pane'.hidden = pane.hidden ∧ pane'.tabIds = pane.tabIds := by
  unfold updateExistingTabTarget
  split
  · exact .inl rfl
  · rw [withRoot_root]
    cases hpane : findPaneContainingTab layout.root tab.tabId with
    | none => exact .inl (replaceTabInTree_none hpane)
    | some pane =>
      have hok := ok.panes pane (findPaneContainingTab_some hpane).1
      exact .inr ⟨pane, _, updated_replaceTabInTree ok hpane tab.state hid htarget, rfl,
        replaceTab_tabIds hok hid htarget⟩

/-- The condition on a move, asked before the tab gets the target it is revealed for. -/
theorem keeps_updateExistingTabTarget (ok : RootOk layout.root) (hid : Trimmed tab.tabId)
    (htarget : normalizeWorkspaceTabTarget target = some target) (keeps : VisibleIn layout.root paneId →
      (findPaneContainingTab layout.root tab.tabId).map (·.id) ≠ some paneId →
      ∀ source, findPaneContainingTab layout.root tab.tabId = some source →
      source.without tab.tabId ≠ [] ∨ AnotherVisible explorer layout.root source.id)
    (visible : VisibleIn (updateExistingTabTarget layout tab target).root paneId)
    (elsewhere : (findPaneContainingTab (updateExistingTabTarget layout tab target).root
      tab.tabId).map (·.id) ≠ some paneId) :
    ∀ source,
      findPaneContainingTab (updateExistingTabTarget layout tab target).root tab.tabId =
        some source →
      source.without tab.tabId ≠ [] ∨
        AnotherVisible explorer (updateExistingTabTarget layout tab target).root source.id := by
  rcases updated_updateExistingTabTarget ok hid htarget with hsame |
    ⟨pane, pane', edit, hhidden, htabIds⟩
  · rw [hsame] at visible elsewhere ⊢
    exact keeps visible elsewhere
  · intro source' hsource'
    have hfound := edit.findPaneContainingTab htabIds tab.tabId
    rw [hsource', map_some, eq_comm, map_eq_some_iff] at hfound
    obtain ⟨source, hsource, heq⟩ := hfound
    rw [Prod.mk.injEq] at heq
    have helsewhere : (findPaneContainingTab layout.root tab.tabId).map (·.id) ≠ some paneId := by
      rw [hsource', map_some] at elsewhere
      rwa [hsource, map_some, heq.1]
    rcases keeps (edit.visibleIn_of_next hhidden visible) helsewhere source hsource with
      hothers | hanother
    · left
      rw [Ne, without_eq_nil_iff] at hothers ⊢
      rwa [← heq.2]
    · right
      rw [← heq.1]
      exact edit.anotherVisible hhidden hanother

/-- Revealing a tab that is already open. -/
theorem shown_revealExistingTab (htab : TabOk newTab) (h : Shown explorer layout) (tabId : String)
    (placement : WorkspaceTabPlacement)
    (keeps : ∀ paneId, placement = .pane paneId → explorer = some paneId →
      VisibleIn layout.root paneId →
      (findPaneContainingTab layout.root tabId).map (·.id) ≠ some paneId → ∀ source,
      findPaneContainingTab layout.root tabId = some source →
      source.without tabId ≠ [] ∨ AnotherVisible explorer layout.root source.id) :
    Shown explorer (revealExistingTab newTab layout tabId placement) ∧
      paneIds (revealExistingTab newTab layout tabId placement).root ⊆ paneIds layout.root := by
  have hfocus : Shown explorer ((focusTabInLayout layout tabId).getD layout) ∧
      paneIds ((focusTabInLayout layout tabId).getD layout).root ⊆ paneIds layout.root := by
    obtain ⟨hshown, hids⟩ := shown_focusTab h tabId
    exact ⟨hshown, by rw [hids]; exact fun _ h => h⟩
  unfold revealExistingTab
  dsimp only
  cases placement with
  | prefer _ | focused | ambient => exact hfocus
  | pane paneId =>
    split
    · rename_i moved hmoved
      dsimp only at hmoved
      split at hmoved
      · rename_i elsewhere
        apply shown_moveTab_unaware htab h _ elsewhere hmoved
        intro hexplorer
        -- a move into a hidden pane is refused
        have hvisible : VisibleIn layout.root paneId := by
          unfold moveTabToPaneInLayout at hmoved
          split at hmoved
          · rename_i source target _ htarget
            obtain ⟨hmem, hid⟩ := findPaneById_some htarget
            split at hmoved
            · cases hmoved
            · rename_i hshown
              exact ⟨target, hmem, by simpa using hid, by simpa using hshown⟩
          · cases hmoved
        exact keeps paneId rfl hexplorer hvisible elsewhere
      · cases hmoved
    · exact hfocus

end Orqara.Layout
