import Orqara.Layout.LayoutStore

/-!
# What the edits of the tree do to its panes

Trees whose panes, tabs and groups are all in normal form, and for each edit the
list of panes it leaves. Normalizing such a tree changes nothing.
-/

namespace Orqara.Layout

open SplitTree List Option

/-! ## Tabs in normal form -/

/-- A tab that normalizing leaves as it is. -/
def TabOk (tab : WorkspaceTab) : Prop := normalizeWorkspaceTab tab = some tab

variable {tab : WorkspaceTab}

theorem tabOk_iff :
    TabOk tab ↔ Trimmed tab.tabId ∧ normalizeWorkspaceTabTarget tab.target = some tab.target := by
  unfold TabOk normalizeWorkspaceTab
  constructor
  · intro h
    split at h
    · cases h
    · rename_i target htarget
      split at h
      · cases h
      · rename_i tabId htabId
        have heq := some.inj h
        have hid : tabId = tab.tabId := congrArg WorkspaceTab.tabId heq
        have hnormal : target = tab.target := congrArg WorkspaceTab.target heq
        subst hid hnormal
        refine ⟨?_, htarget⟩
        cases hraw : trimNonEmpty tab.tabId with
        | some raw =>
          rw [hraw] at htabId
          obtain rfl : raw = tab.tabId := by simpa using htabId
          exact hraw
        | none =>
          rw [hraw] at htabId
          exact trimmed_deterministic htarget (by simpa using htabId)
  · rintro ⟨hid, htarget⟩
    have hraw : trimNonEmpty tab.tabId = some tab.tabId := hid
    simp [htarget, hraw]

theorem tabOk_of_normalize {value : WorkspaceTab} (h : normalizeWorkspaceTab value = some tab) :
    TabOk tab := by
  apply tabOk_iff.mpr
  unfold normalizeWorkspaceTab at h
  split at h
  · cases h
  · rename_i target htarget
    have hnormal := normalizeWorkspaceTabTarget_twice htarget
    split at h
    · cases h
    · rename_i tabId htabId
      cases h
      refine ⟨?_, hnormal⟩
      cases hraw : trimNonEmpty value.tabId with
      | some raw =>
        rw [hraw] at htabId
        obtain rfl : raw = tabId := by simpa using htabId
        exact trimNonEmpty_trimmed hraw
      | none =>
        rw [hraw] at htabId
        exact trimmed_deterministic hnormal (by simpa using htabId)

theorem normalizeTabsFrom_ok (values : List WorkspaceTab) (seen : List String) :
    (∀ tab ∈ normalizeTabsFrom seen values, TabOk tab ∧ tab.tabId ∉ seen) ∧
      ((normalizeTabsFrom seen values).map (·.tabId)).Nodup := by
  induction values generalizing seen with
  | nil => simp [normalizeTabsFrom]
  | cons value values ih =>
    rw [normalizeTabsFrom]
    split
    · exact ih seen
    · rename_i tab htab
      split
      · exact ih seen
      · rename_i hseen
        obtain ⟨hok, hnodup⟩ := ih (tab.tabId :: seen)
        constructor
        · intro other hother
          rcases mem_cons.mp hother with rfl | hother
          · exact ⟨tabOk_of_normalize htab, hseen⟩
          · exact ⟨(hok other hother).1, fun h => (hok other hother).2 (mem_cons_of_mem _ h)⟩
        · rw [map_cons, nodup_cons]
          refine ⟨?_, hnodup⟩
          intro hmem
          obtain ⟨other, hother, heq⟩ := List.mem_map.mp hmem
          exact (hok other hother).2 (by simp [heq])

variable {tabs : List WorkspaceTab} {pane : SplitPane} {tabId : String} {root : SplitNode} {path : List ℕ}
  {newTab : WorkspaceTab} {f : SplitPane → SplitPane} {target : WorkspaceTabTarget} {groupId : String}

section

variable (ok : ∀ tab ∈ tabs, TabOk tab)
include ok

theorem normalizeTabsFrom_eq {seen : List String}
    (unseen : ∀ tab ∈ tabs, tab.tabId ∉ seen) (nodup : (tabs.map (·.tabId)).Nodup) :
    normalizeTabsFrom seen tabs = tabs := by
  induction tabs generalizing seen with
  | nil => rfl
  | cons tab tabs ih =>
    have htab : normalizeWorkspaceTab tab = some tab := ok tab (by simp)
    rw [map_cons, nodup_cons] at nodup
    have hrest : normalizeTabsFrom (tab.tabId :: seen) tabs = tabs := by
      apply ih (fun other h => ok other (by simp [h])) _ nodup.2
      intro other hother hmem
      rcases mem_cons.mp hmem with heq | hmem
      · exact nodup.1 (List.mem_map.mpr ⟨other, hother, heq⟩)
      · exact unseen other (by simp [hother]) hmem
    simp [normalizeTabsFrom, htab, unseen tab (by simp), hrest]

theorem normalizeWorkspaceTabs_eq (nodup : (tabs.map (·.tabId)).Nodup) :
    normalizeWorkspaceTabs tabs = tabs :=
  normalizeTabsFrom_eq ok (by simp) nodup

omit ok in
@[simp] theorem normalizeWorkspaceTabs_twice (tabs : List WorkspaceTab) :
    normalizeWorkspaceTabs (normalizeWorkspaceTabs tabs) = normalizeWorkspaceTabs tabs := by
  obtain ⟨hok, hnodup⟩ := normalizeTabsFrom_ok tabs []
  exact normalizeWorkspaceTabs_eq (fun tab h => (hok tab h).1) hnodup

theorem normalizeWorkspaceTabs_ne_nil (ne : tabs ≠ []) :
    normalizeWorkspaceTabs tabs ≠ [] := by
  cases tabs with
  | nil => exact absurd rfl ne
  | cons tab tabs =>
    have htab : normalizeWorkspaceTab tab = some tab := ok tab (by simp)
    simp [normalizeWorkspaceTabs, normalizeTabsFrom, htab]

end

/-! ## Panes in normal form -/

section

variable (id : String)

@[simp] theorem createPane_id (tabs : List WorkspaceTab) (focused : Option String)
    (hidden : Bool) : (createPane id tabs focused hidden).id = id := rfl

@[simp] theorem createPane_hidden (tabs : List WorkspaceTab)
    (focused : Option String) (hidden : Bool) :
    (createPane id tabs focused hidden).hidden = hidden := rfl

@[simp] theorem createPane_tabs (tabs : List WorkspaceTab) (focused : Option String)
    (hidden : Bool) : (createPane id tabs focused hidden).tabs = normalizeWorkspaceTabs tabs := rfl

@[simp] theorem normalizePane_id (pane : SplitPane) :
    (normalizePaneAfterTabChange pane).id = pane.id := rfl

@[simp] theorem normalizePane_hidden (pane : SplitPane) :
    (normalizePaneAfterTabChange pane).hidden = pane.hidden := rfl

@[simp] theorem normalizePane_tabs (pane : SplitPane) :
    (normalizePaneAfterTabChange pane).tabs = normalizeWorkspaceTabs pane.tabs := rfl

@[simp] theorem normalizePane_createPane (tabs : List WorkspaceTab)
    (focused : Option String) (hidden : Bool) :
    normalizePaneAfterTabChange (createPane id tabs focused hidden) =
      createPane id tabs focused hidden := by
  have hlast : ∀ ids : List String, ids.getLast?.getD "" ∈ ids ∨ ids = [] := by
    intro ids
    cases ids with
    | nil => exact .inr rfl
    | cons x xs => exact .inl (by simp [getLast?_eq_some_getLast (cons_ne_nil x xs)])
  simp only [normalizePaneAfterTabChange, createPane, normalizeWorkspaceTabs_twice]
  congr 1
  split
  · simp_all
  · rcases hlast ((normalizeWorkspaceTabs tabs).map (·.tabId)) with h | h
    · rw [if_pos h]
    · simp [h]

end

/-- A pane with an id, at least one tab and nothing left to normalize. -/
structure PaneOk (pane : SplitPane) : Prop where
  id : Trimmed pane.id
  normal : normalizePaneAfterTabChange pane = pane
  nonempty : pane.tabs ≠ []

theorem PaneOk.tabs_eq (h : PaneOk pane) :
    normalizeWorkspaceTabs pane.tabs = pane.tabs :=
  congrArg SplitPane.tabs h.normal

theorem PaneOk.tabOk (h : PaneOk pane) : ∀ tab ∈ pane.tabs, TabOk tab := by
  intro tab htab
  rw [← h.tabs_eq] at htab
  exact ((normalizeTabsFrom_ok pane.tabs []).1 tab htab).1

theorem PaneOk.nodup (h : PaneOk pane) : pane.tabIds.Nodup := by
  have := (normalizeTabsFrom_ok pane.tabs []).2
  rwa [show normalizeTabsFrom [] pane.tabs = pane.tabs from h.tabs_eq] at this

theorem paneOk_createPane {id : String} {focused : Option String} {hidden : Bool} (hid : Trimmed id)
    (ok : ∀ tab ∈ tabs, TabOk tab) (ne : tabs ≠ []) :
    PaneOk (createPane id tabs focused hidden) where
  id := hid
  normal := normalizePane_createPane id tabs focused hidden
  nonempty := normalizeWorkspaceTabs_ne_nil ok ne

theorem paneOk_normalizePane (hid : Trimmed pane.id) (ok : ∀ tab ∈ pane.tabs, TabOk tab)
    (ne : pane.tabs ≠ []) :
    PaneOk (normalizePaneAfterTabChange pane) :=
  paneOk_createPane hid ok ne

/-- Hiding, showing and focusing keep the tabs. -/
theorem PaneOk.withTabs {other : SplitPane} (h : PaneOk pane) (hid : other.id = pane.id)
    (htabs : other.tabs = pane.tabs) : PaneOk (normalizePaneAfterTabChange other) := by
  apply paneOk_normalizePane
  · exact hid ▸ h.id
  · exact htabs ▸ h.tabOk
  · exact htabs ▸ h.nonempty

/-- A new tab as `createNewWorkspaceTab` makes it. -/
theorem tabOk_newTab {env : StepEnv} (h : Trimmed tabId) :
    TabOk (env.createNewWorkspaceTab tabId) :=
  tabOk_iff.mpr ⟨h, rfl⟩

/-! ## Trees in normal form -/

/-- A tree of panes and groups in normal form, with distinct pane ids. -/
structure RootOk (root : SplitNode) : Prop where
  full : root.Full fun group => Trimmed group.id
  panes : ∀ pane ∈ root.leaves, PaneOk pane
  distinct : (root.leaves.map (·.id)).Nodup

theorem normalizePane_eq (h : PaneOk pane) (now : ℕ) :
    normalizePane now pane = some pane := by
  have hid : trimNonEmpty pane.id = some pane.id := h.id
  have hfocused : ∀ focused, pane.focusedTabId = some focused → Trimmed focused := by
    intro focused hf
    have hnormal := congrArg SplitPane.focusedTabId h.normal
    simp only [normalizePaneAfterTabChange, createPane, h.tabs_eq] at hnormal
    have hmem : focused ∈ pane.tabs.map (·.tabId) := by
      split at hnormal
      · rename_i hmem
        simpa [hf] using hmem
      · exact mem_of_getLast? (hnormal.trans hf)
    obtain ⟨tab, htab, rfl⟩ := List.mem_map.mp hmem
    exact (tabOk_iff.mp (h.tabOk tab htab)).1
  have hsame : pane.focusedTabId.bind trimNonEmpty = pane.focusedTabId := by
    cases hf : pane.focusedTabId with
    | none => rfl
    | some focused => exact hfocused focused hf
  simp only [normalizePane, hid, h.tabs_eq, hsame]
  rw [if_neg (by simp [h.nonempty])]
  exact congrArg some h.normal

theorem normalizeNodes_eq {now : ℕ} {children : List SplitNode}
    (h : ∀ child ∈ children, normalizeNode now child = some child) :
    normalizeNodes now children = children := by
  induction children with
  | nil => simp [normalizeNodes]
  | cons child children ih =>
    rw [normalizeNodes, h child (by simp)]
    simp [ih fun other hother => h other (by simp [hother])]

/-- Normalizing changes nothing in a tree in normal form. -/
theorem normalizeNode_eq (full : root.Full fun group => Trimmed group.id)
    (panes : ∀ pane ∈ root.leaves, PaneOk pane) (now : ℕ) :
    normalizeNode now root = some root := by
  induction root using childInduction with
  | leaf pane => simp [normalizeNode, normalizePane_eq (panes pane (by simp))]
  | node group children ih =>
    cases full with
    | node label wide all =>
      have hchildren : normalizeNodes now children = children := by
        apply normalizeNodes_eq
        intro child hchild
        apply ih child hchild (all child hchild)
        intro pane hpane
        exact panes pane (by rw [leaves_node, mem_leavesAll]
                             exact ⟨child, hchild, hpane⟩)
      have hlabel : trimNonEmpty group.id = some group.id := label
      match children, wide, hchildren with
      | a :: b :: rest, _, hchildren =>
        rw [normalizeNode, hlabel, hchildren]

/-! ## Finding panes -/

theorem findPaneById_some {paneId : Option String} (h : findPaneById root paneId = some pane) :
    pane ∈ root.leaves ∧ some pane.id = paneId := by
  unfold findPaneById at h
  split at h
  · cases h
  · split at h
    · cases h
    · exact ⟨mem_of_find?_eq_some h, by simpa using find?_some h⟩

/-- An id names one pane only. -/
theorem eq_of_id (h : (root.leaves.map (·.id)).Nodup) {other : SplitPane} (hpane : pane ∈ root.leaves)
    (hother : other ∈ root.leaves) (hid : pane.id = other.id) :
    pane = other :=
  inj_on_of_nodup_map h hpane hother hid

theorem RootOk.findPaneById (h : RootOk root) (hpane : pane ∈ root.leaves) :
    findPaneById root (some pane.id) = some pane := by
  have hne : pane.id ≠ "" := (h.panes pane hpane).id.ne_empty
  simp only [Layout.findPaneById, if_neg hne]
  cases hfind : root.leaves.find? (·.id == pane.id) with
  | none => simpa using find?_eq_none.mp hfind pane hpane
  | some other =>
    have hid : other.id = pane.id := by simpa using find?_some hfind
    rw [eq_of_id h.distinct (mem_of_find?_eq_some hfind) hpane hid]

theorem findPaneContainingTab_some (h : findPaneContainingTab root tabId = some pane) :
    pane ∈ root.leaves ∧ tabId ∈ pane.tabIds :=
  ⟨mem_of_find?_eq_some h, by simpa using find?_some h⟩

/-- The pane a search leads to, between the panes before and after it. -/
theorem located {p : SplitPane → Bool} (h : root.findPath p = some path) :
    ∃ pre pane post, root.leaves = pre ++ pane :: post ∧ p pane = true ∧
      (∀ other ∈ pre, p other = false) ∧ root.getAt path = some (.leaf pane) ∧
      pre = root.before path ∧ post = root.after path := by
  obtain ⟨pane, hget, hp, hbefore⟩ := findPath_some h
  refine ⟨root.before path, pane, root.after path, ?_, hp, hbefore, hget, rfl, rfl⟩
  simpa using leaves_getAt hget

theorem leaves_replacePaneAtPath (h : root.getAt path = some (.leaf pane)) (f : SplitPane → SplitPane) :
    (replacePaneAtPath root path f).leaves =
      root.before path ++ f pane :: root.after path := by
  rw [replacePaneAtPath, leaves_replaceAt h]
  simp

/-- What one edit of a pane leaves of the tree. -/
theorem RootOk.replacePane (h : RootOk root) (hget : root.getAt path = some (.leaf pane))
    (ok : PaneOk (f pane)) (hid : (f pane).id = pane.id) :
    RootOk (replacePaneAtPath root path f) := by
  have hold := leaves_getAt hget
  have hnew := leaves_replacePaneAtPath hget f
  constructor
  · exact h.full.replaceAt hget (.leaf _)
  · intro other hother
    rw [hnew, mem_append, mem_cons] at hother
    rcases hother with hother | rfl | hother
    · exact h.panes other (by rw [hold]; simp [hother])
    · exact ok
    · exact h.panes other (by rw [hold]; simp [hother])
  · rw [hnew]
    have := h.distinct
    rw [hold] at this
    simpa [hid] using this

theorem RootOk.pathById (h : RootOk root) (hpane : pane ∈ root.leaves) :
    ∃ path, findPanePathById root pane.id = some path ∧ root.getAt path = some (.leaf pane) := by
  cases hfind : findPanePathById root pane.id with
  | none => simpa using findPath_none.mp hfind pane hpane
  | some path =>
    obtain ⟨pre, found, post, hleaves, hid, -, hget, -⟩ := located hfind
    have hmem : found ∈ root.leaves := by simp [hleaves]
    obtain rfl : found = pane := eq_of_id h.distinct hmem hpane (by simpa using hid)
    exact ⟨path, rfl, hget⟩

theorem RootOk.normalizeLayout {layout : WorkspaceLayout} (h : RootOk layout.root) (now : ℕ)
    (newTab : WorkspaceTab) : (normalizeLayout now newTab layout).root = layout.root := by
  simp [Layout.normalizeLayout, normalizeNode_eq h.full h.panes]

@[simp] theorem withRoot_root (layout : WorkspaceLayout) (root : SplitNode)
    (focused : Option String) : (withRoot layout root focused).root = root := rfl

@[simp] theorem withRoot_focusedPaneId (layout : WorkspaceLayout) (root : SplitNode)
    (focused : Option String) : (withRoot layout root focused).focusedPaneId = focused := rfl

/-! ## Edits of one pane -/

/-- One pane is rewritten, and the tree is still in normal form. -/
structure Updated (root next : SplitNode) (pane pane' : SplitPane) : Prop where
  ok : RootOk next
  sameId : pane'.id = pane.id
  leaves : ∃ pre post, root.leaves = pre ++ pane :: post ∧ next.leaves = pre ++ pane' :: post

theorem Updated.mem' {next : SplitNode} {pane' : SplitPane} (h : Updated root next pane pane') :
    pane' ∈ next.leaves := by
  obtain ⟨pre, post, -, hnew⟩ := h.leaves
  simp [hnew]

section

variable (h : RootOk root)
include h

theorem RootOk.updated (hget : root.getAt path = some (.leaf pane))
    (ok : PaneOk (f pane)) (hid : (f pane).id = pane.id) :
    Updated root (replacePaneAtPath root path f) pane (f pane) where
  ok := h.replacePane hget ok hid
  sameId := hid
  leaves := ⟨root.before path, root.after path, by simpa using leaves_getAt hget,
    leaves_replacePaneAtPath hget f⟩

section

variable (hpane : pane ∈ root.leaves)
include hpane

theorem updated_insertTabIntoPane (htab : TabOk tab)
    (focusTabId : Option String) :
    Updated root (insertTabIntoPane root pane.id tab focusTabId) pane
      (insertTab tab focusTabId pane) := by
  obtain ⟨path, hpath, hget⟩ := h.pathById hpane
  rw [insertTabIntoPane, hpath]
  apply h.updated hget _ rfl
  have hok := h.panes pane hpane
  apply paneOk_createPane hok.id
  · intro other hother
    dsimp only at hother
    split at hother
    · rw [mem_singleton.mp hother]
      exact htab
    · split at hother
      · rcases mem_or_eq_of_mem_set hother with hmem | heq
        · exact hok.tabOk other hmem
        · exact heq ▸ htab
      · rcases mem_append.mp hother with hmem | heq
        · exact hok.tabOk other hmem
        · exact (mem_singleton.mp heq) ▸ htab
  · dsimp only
    split
    · simp
    · split
      · simpa using hok.nonempty
      · simp

theorem updated_focusTabInPane (tabId : String) :
    Updated root (focusTabInPane root pane.id tabId) pane
      (normalizePaneAfterTabChange { pane with focusedTabId := some tabId, hidden := false }) := by
  obtain ⟨path, hpath, hget⟩ := h.pathById hpane
  rw [focusTabInPane, hpath]
  exact h.updated hget ((h.panes pane hpane).withTabs rfl rfl) rfl

theorem updated_updatePaneInTree
    (updater : SplitPane → SplitPane) (ok : PaneOk (normalizePaneAfterTabChange (updater pane)))
    (hid : (updater pane).id = pane.id) :
    Updated root (updatePaneInTree root pane.id updater) pane
      (normalizePaneAfterTabChange (updater pane)) := by
  obtain ⟨path, hpath, hget⟩ := h.pathById hpane
  rw [updatePaneInTree, hpath]
  exact h.updated hget ok hid

end

end

/-- The pane that holds a tab, where a search by tab leads. -/
theorem RootOk.pathByTab (hpane : findPaneContainingTab root tabId = some pane) :
    ∃ path, findPanePathContainingTab root tabId = some path ∧
      root.getAt path = some (.leaf pane) := by
  cases hfind : findPanePathContainingTab root tabId with
  | none =>
    have hnone := findPath_none.mp hfind
    have hmem := mem_of_find?_eq_some hpane
    have hp := find?_some hpane
    rw [hnone pane hmem] at hp
    cases hp
  | some path =>
    obtain ⟨pre, found, post, -, -, -, hget, -⟩ := located hfind
    have hsame := find?_leaves hfind hget
    obtain rfl : found = pane := by
      have := hsame.symm.trans hpane
      simpa using this
    exact ⟨path, rfl, hget⟩

theorem paneOk_replaceTab (h : PaneOk pane) {nextTabId : String} {state : Option Json}
    (hid : Trimmed nextTabId) (htarget : normalizeWorkspaceTabTarget target = some target) :
    PaneOk (replaceTab tabId nextTabId target state pane) := by
  apply paneOk_createPane h.id
  · intro other hother
    obtain ⟨tab, htab, rfl⟩ := List.mem_map.mp hother
    split
    · exact h.tabOk tab htab
    · exact tabOk_iff.mpr ⟨hid, htarget⟩
  · simpa using h.nonempty

theorem updated_replaceTabInTree (h : RootOk root) {nextTabId : String}
    (hpane : findPaneContainingTab root tabId = some pane) (state : Option Json) (hid : Trimmed nextTabId)
    (htarget : normalizeWorkspaceTabTarget target = some target) :
    Updated root (replaceTabInTree root tabId nextTabId target state) pane
      (replaceTab tabId nextTabId target state pane) := by
  obtain ⟨path, hpath, hget⟩ := RootOk.pathByTab hpane
  have hmem := (findPaneContainingTab_some hpane).1
  rw [replaceTabInTree, hpath]
  exact h.updated hget (paneOk_replaceTab (h.panes pane hmem) hid htarget) rfl

/-! ## Panes that come and go -/

/-- A pane is taken out of the tree, or emptied when it is the whole tree. -/
inductive PaneRemoved (newTab : WorkspaceTab) (root next : SplitNode) (pane : SplitPane) : Prop
  | emptied (ok : RootOk next) (whole : root.leaves = [pane])
      (left : next.leaves = [createPane pane.id [newTab] none false])
  | removed {pre post : List SplitPane} (ok : RootOk next) (whole : root.leaves = pre ++ pane :: post)
      (left : next.leaves = pre ++ post) (others : pre ++ post ≠ [])

theorem paneRemoved_removePaneByPath (htab : TabOk newTab) (h : RootOk root)
    (hget : root.getAt path = some (.leaf pane)) :
    PaneRemoved newTab root (removePaneByPath newTab root path) pane := by
  have hleaves := leaves_getAt hget
  rcases eq_nil_or_concat' path with rfl | ⟨init, i, rfl⟩
  · obtain rfl : root = .leaf pane := by simpa [getAt] using hget
    have hok : PaneOk (createPane pane.id [newTab] none false) := by
      apply paneOk_createPane (h.panes pane (by simp)).id _ (by simp)
      intro tab hmem
      rw [mem_singleton.mp hmem]
      exact htab
    apply PaneRemoved.emptied _ (by simp) (by simp [removePaneByPath])
    exact ⟨.leaf _, by simpa [removePaneByPath] using hok, by simp [removePaneByPath]⟩
  · have hremove : removePaneByPath newTab root (init ++ [i]) = root.removeAt (init ++ [i]) := by
      cases init <;> rfl
    have hnext := leaves_removeAt hget
    have hfull := h.full.removeAt hget
    rw [hremove]
    apply PaneRemoved.removed _ (by simpa using hleaves) hnext
    · rw [← hnext]
      exact hfull.leaves_ne_nil
    · refine ⟨hfull, ?_, ?_⟩
      · intro other hother
        apply h.panes
        rw [hleaves]
        rw [hnext, mem_append] at hother
        rcases hother with hother | hother <;> simp [hother]
      · have hsub : (root.removeAt (init ++ [i])).leaves.Sublist root.leaves := by
          rw [hnext, hleaves]
          simp
        exact (hsub.map _).nodup h.distinct

/-- Two rewritings of the pane at one path are one. -/
theorem replacePaneAtPath_twice (root : SplitNode) (path : List ℕ) (next next' : SplitPane) :
    (replacePaneAtPath (replacePaneAtPath root path fun _ => next) path fun _ => next') =
      replacePaneAtPath root path fun _ => next' := by
  unfold replacePaneAtPath
  rw [replaceAt_replaceAt]
  congr 1
  funext node
  cases node <;> rfl

/-- A pane that goes need not be rewritten first. -/
theorem removePaneByPath_replaced (newTab : WorkspaceTab) {next : SplitPane}
    (hget : root.getAt path = some (.leaf pane)) (hid : next.id = pane.id) :
    removePaneByPath newTab (replacePaneAtPath root path fun _ => next) path =
      removePaneByPath newTab root path := by
  rcases eq_nil_or_concat' path with rfl | ⟨init, i, rfl⟩
  · obtain rfl : root = .leaf pane := by simpa [getAt] using hget
    simp [removePaneByPath, replacePaneAtPath, replaceAt, hid]
  · have hremove : ∀ tree, removePaneByPath newTab tree (init ++ [i]) =
        tree.removeAt (init ++ [i]) := by
      intro tree
      cases init <;> rfl
    rw [hremove, hremove, replacePaneAtPath, removeAt_replaceAt]

/-- The tabs of a pane other than one. -/
def SplitPane.without (pane : SplitPane) (tabId : String) : List WorkspaceTab :=
  pane.tabs.filter (·.tabId != tabId)

/-- What taking a tab out of its pane leaves of the tree. -/
inductive Detached (newTab : WorkspaceTab) (tabId : String) (preserve : Option String)
    (root next : SplitNode) (pane : SplitPane) : Prop
  | kept (others : pane.without tabId ≠ [])
      (updated : Updated root next pane
        (normalizePaneAfterTabChange { pane with tabs := pane.without tabId }))
  | retained (alone : pane.without tabId = []) (preserved : preserve = some pane.id)
      (updated : Updated root next pane
        (normalizePaneAfterTabChange
          { pane with tabs := [newTab], focusedTabId := some newTab.tabId }))
  | removed (alone : pane.without tabId = []) (dropped : preserve ≠ some pane.id)
      (removed : PaneRemoved newTab root next pane)

theorem PaneOk.without_tabOk (h : PaneOk pane) (tabId : String) :
    ∀ tab ∈ pane.without tabId, TabOk tab :=
  fun tab htab => h.tabOk tab (mem_of_mem_filter htab)

theorem PaneOk.without_eq (h : PaneOk pane) (tabId : String) :
    normalizeWorkspaceTabs (pane.without tabId) = pane.without tabId := by
  apply normalizeWorkspaceTabs_eq (h.without_tabOk tabId)
  exact ((filter_sublist).map _).nodup h.nodup

theorem paneOk_retained (htab : TabOk newTab) (h : PaneOk pane) (focused : Option String) :
    PaneOk (normalizePaneAfterTabChange
      { pane with tabs := [newTab], focusedTabId := focused }) := by
  apply paneOk_createPane h.id _ (by simp)
  intro other hother
  rw [mem_singleton.mp hother]
  exact htab

/-- The found tab, with what is left of the tree. -/
theorem detached_detachTabFromTree (htab : TabOk newTab) (h : RootOk root)
    (hpane : findPaneContainingTab root tabId = some pane) (preserve : Option String) :
    ∃ tab ∈ pane.tabs, tab.tabId = tabId ∧
      (detachTabFromTree newTab root tabId preserve).2 = some tab ∧
      Detached newTab tabId preserve root (detachTabFromTree newTab root tabId preserve).1 pane := by
  obtain ⟨path, hpath, hget⟩ := RootOk.pathByTab hpane
  obtain ⟨hmem, hhas⟩ := findPaneContainingTab_some hpane
  have hok := h.panes pane hmem
  obtain ⟨held, hheld, hheldId⟩ := List.mem_map.mp hhas
  have hfound : ∃ tab, pane.tabs.find? (·.tabId == tabId) = some tab := by
    cases hf : pane.tabs.find? (·.tabId == tabId) with
    | some tab => exact ⟨tab, rfl⟩
    | none =>
      have := find?_eq_none.mp hf held hheld
      simp [hheldId] at this
  obtain ⟨tab, hf⟩ := hfound
  refine ⟨tab, mem_of_find?_eq_some hf, by simpa using find?_some hf, ?_⟩
  have hnext : (normalizePaneAfterTabChange { pane with tabs := pane.without tabId }).tabs =
      pane.without tabId := hok.without_eq tabId
  rw [detachTabFromTree, hpath]
  simp only [hget, hf]
  rw [show (pane.tabs.filter fun x => x.tabId != tabId) = pane.without tabId from rfl, hnext]
  by_cases hothers : pane.without tabId = []
  · rw [if_neg (by simp [hothers])]
    by_cases hpreserve : preserve = some pane.id
    · rw [if_pos (by simp [hpreserve])]
      apply And.intro rfl
      apply Detached.retained hothers hpreserve
      have hensure : ensureRetainedPaneHasTab newTab
          (normalizePaneAfterTabChange { pane with tabs := pane.without tabId }) =
          normalizePaneAfterTabChange
            { pane with tabs := [newTab], focusedTabId := some newTab.tabId } := by
        unfold ensureRetainedPaneHasTab
        rw [if_pos (by rw [hnext, hothers]; rfl)]
        rfl
      rw [hensure]
      dsimp only
      rw [replacePaneAtPath_twice]
      exact h.updated hget (paneOk_retained htab hok _) rfl
    · rw [if_neg (by simpa [eq_comm] using hpreserve)]
      apply And.intro rfl
      apply Detached.removed hothers hpreserve
      have hsame : removePaneByPath newTab (replacePaneAtPath root path fun _ =>
          normalizePaneAfterTabChange { pane with tabs := pane.without tabId }) path =
          removePaneByPath newTab root path := removePaneByPath_replaced newTab hget rfl
      exact hsame ▸ paneRemoved_removePaneByPath htab h hget
  · rw [if_pos (by simpa using hothers)]
    apply And.intro rfl
    apply Detached.kept hothers
    apply h.updated hget _ rfl
    exact paneOk_createPane hok.id (hok.without_tabOk tabId) hothers

/-- A new pane stands somewhere among the others. -/
structure PaneInserted (root next : SplitNode) (pane : SplitPane) : Prop where
  ok : RootOk next
  leaves : ∃ pre post, root.leaves = pre ++ post ∧ next.leaves = pre ++ pane :: post

theorem rootOk_inserted {next : SplitNode} (h : RootOk root)
    (full : next.Full fun group => Trimmed group.id) (ok : PaneOk pane)
    (fresh : pane.id ∉ root.leaves.map (·.id))
    (leaves : ∃ pre post, root.leaves = pre ++ post ∧ next.leaves = pre ++ pane :: post) :
    PaneInserted root next pane := by
  refine ⟨?_, leaves⟩
  obtain ⟨pre, post, hold, hnew⟩ := leaves
  have hperm : next.leaves.Perm (pane :: root.leaves) := by
    rw [hnew, hold]
    exact perm_middle
  constructor
  · exact full
  · intro other hother
    rcases mem_cons.mp (hperm.mem_iff.mp hother) with rfl | hother
    · exact ok
    · exact h.panes other hother
  · rw [(hperm.map _).nodup_iff, map_cons, nodup_cons]
    exact ⟨fresh, h.distinct⟩

theorem full_groupNode (hgroup : Trimmed groupId) (direction : SplitDirection) {a b : SplitNode}
    (ha : a.Full fun group => Trimmed group.id) (hb : b.Full fun group => Trimmed group.id) :
    (groupNode groupId direction [a, b]).Full fun group => Trimmed group.id := by
  apply SplitTree.Full.node
  · exact hgroup
  · simp
  · intro child hchild
    simp only [mem_cons, not_mem_nil, or_false] at hchild
    rcases hchild with rfl | rfl
    · exact ha
    · exact hb

theorem paneInserted_insertPaneBeside (h : RootOk root) {target newPane : SplitPane}
    (hget : root.getAt path = some (.leaf target)) (position : SplitPosition) (hgroup : Trimmed groupId)
    (ok : PaneOk newPane) (fresh : newPane.id ∉ root.leaves.map (·.id)) :
    PaneInserted root (insertPaneBeside root path position groupId newPane) newPane := by
  have hold := leaves_getAt hget
  -- the two ways of standing beside the target, whatever the shape of the tree
  have hbeside : ∀ next : SplitNode, next.leaves = root.before path ++
      (if position.insertAfter then [target, newPane] else [newPane, target]) ++ root.after path →
      ∃ pre post, root.leaves = pre ++ post ∧ next.leaves = pre ++ newPane :: post := by
    intro next hnext
    by_cases hafter : position.insertAfter
    · exact ⟨root.before path ++ [target], root.after path, by simpa using hold,
        by simp [hnext, hafter]⟩
    · exact ⟨root.before path, target :: root.after path, by simpa using hold,
        by simp [hnext, hafter]⟩
  have hsplit : PaneInserted root (root.replaceAt (fun target =>
      groupNode groupId position.direction
        (if position.insertAfter then [target, paneNode newPane]
          else [paneNode newPane, target])) path) newPane := by
    apply rootOk_inserted h _ ok fresh
    · apply hbeside
      rw [leaves_replaceAt hget]
      by_cases hafter : position.insertAfter <;> simp [hafter]
    · apply h.full.replaceAt hget
      split
      · exact full_groupNode hgroup _ (.leaf _) (.leaf _)
      · exact full_groupNode hgroup _ (.leaf _) (.leaf _)
  unfold insertPaneBeside
  dsimp only
  split
  · rename_i i group children hlast hparent
    split
    · obtain ⟨init, rfl⟩ := getLast?_eq_some_iff.mp hlast
      rw [dropLast_concat] at hparent ⊢
      obtain ⟨group', children', hparent', hchild⟩ := getAt_concat.mp hget
      obtain ⟨rfl, rfl⟩ : group = group' ∧ children = children' := by
        simpa [hparent] using hparent'
      apply rootOk_inserted h _ ok fresh
      · apply hbeside
        rw [leaves_insertAt hparent hchild]
        by_cases hafter : position.insertAfter <;> simp [hafter]
      · exact h.full.insertAt hparent _ (.leaf _)
    · exact hsplit
  · exact hsplit

theorem paneInserted_rootRight (h : RootOk root) {newPane : SplitPane} (hgroup : Trimmed groupId)
    (ok : PaneOk newPane) (fresh : newPane.id ∉ root.leaves.map (·.id)) :
    PaneInserted root (groupNode groupId .horizontal [root, paneNode newPane]) newPane := by
  apply rootOk_inserted h _ ok fresh ⟨root.leaves, [], by simp, by simp⟩
  exact full_groupNode hgroup _ h.full (.leaf _)

end Orqara.Layout
