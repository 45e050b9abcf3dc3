import Orqara.Layout.SomewhereToLook

/-!
# Runs of the store

The other operations keep the invariant, and so does every run whose steps keep
the last visible ordinary pane. Without that condition a run of four steps leaves
a workspace in which only the hidden Explorer is left.
-/

namespace Orqara.Layout

open StepEnv List Option

/-! ## Reconciliation -/

section Reconcile

variable {explorer : Option String} {env : StepEnv} {layout : WorkspaceLayout} {current : WorkspaceLayout × ℕ}
  {group : EntityTabGroup} {keeper : WorkspaceTab} {target : WorkspaceTabTarget}

theorem shown_closeTabsInLayout (tabs : ∀ n, TabOk (env.newTab n)) (tabIds : List String)
    (h : Shown explorer current.1) (keeps : ClosesKeepPane explorer env current tabIds) :
    Shown explorer (closeTabsInLayout env current tabIds).1 ∧
      paneIds (closeTabsInLayout env current tabIds).1.root ⊆ paneIds current.1.root := by
  induction tabIds generalizing current with
  | nil => exact ⟨h, fun _ hid => hid⟩
  | cons tabId tabIds ih =>
    obtain ⟨layout, made⟩ := current
    obtain ⟨hkeeps, hrest⟩ := keeps
    cases hclose : closeTabInLayout (env.newTab made) layout tabId none with
    | none =>
      rw [hclose] at hrest
      rw [closeTabsInLayout, hclose]
      exact ih h hrest
    | some closed =>
      obtain ⟨hclosed, hids⟩ := shown_closeTabInLayout (tabs made) h hkeeps hclose
      rw [hclose] at hrest
      rw [closeTabsInLayout, hclose]
      obtain ⟨hshown, hrestIds⟩ := ih hclosed hrest
      exact ⟨hshown, fun id hid => hids (hrestIds hid)⟩

/-- A group of tabs that show one agent or terminal. -/
structure GroupOk (tabs : List WorkspaceTab) (group : EntityTabGroup) : Prop where
  target : normalizeWorkspaceTabTarget group.target = some group.target
  tabs : ∀ tab ∈ group.tabs, tab ∈ tabs

theorem groupOk_buildEntityTabGroups (initialTabs : List WorkspaceTab) :
    ∀ group ∈ buildEntityTabGroups initialTabs, GroupOk initialTabs group := by
  unfold buildEntityTabGroups
  apply List.foldlRecOn (motive := fun groups => ∀ group ∈ groups, GroupOk initialTabs group)
  · simp
  · intro groups hgroups tab htab
    -- a tab that is not counted, one that joins its group, and one that begins a group
    split
    · exact hgroups
    · split
      · exact hgroups
      · rename_i target htarget
        split
        · exact hgroups
        · split
          · intro group hgroup
            obtain ⟨before, hbefore, rfl⟩ := List.mem_map.mp hgroup
            split
            · refine ⟨(hgroups before hbefore).target, ?_⟩
              intro other hother
              rcases mem_append.mp hother with hold | hnew
              · exact (hgroups before hbefore).tabs other hold
              · rwa [mem_singleton.mp hnew]
            · exact hgroups before hbefore
          · intro group hgroup
            rcases mem_append.mp hgroup with hold | hnew
            · exact hgroups group hold
            · rw [mem_singleton.mp hnew]
              refine ⟨normalizeWorkspaceTabTarget_twice htarget, ?_⟩
              intro other hother
              rwa [mem_singleton.mp hother]

theorem EntityTabGroup.keeper_mem (h : group.keeper = some keeper) : keeper ∈ group.tabs := by
  rcases or_eq_some_iff.mp h with hfound | ⟨-, hhead⟩
  · exact mem_of_find?_eq_some hfound
  · exact mem_of_head? hhead

theorem shown_retargetKeeper (h : Shown explorer layout)
    (htarget : normalizeWorkspaceTabTarget group.target = some group.target) (hkeeper : TabOk keeper) :
    Shown explorer (retargetKeeper layout group keeper) ∧
      paneIds (retargetKeeper layout group keeper).root = paneIds layout.root := by
  unfold retargetKeeper
  split
  · exact ⟨h, rfl⟩
  · exact shown_replaceTabInTree h keeper.tabId none (tabOk_iff.mp hkeeper).1 htarget

theorem shown_collapseDuplicates (tabs : ∀ n, TabOk (env.newTab n)) {initialTabs : List WorkspaceTab}
    (initial : ∀ tab ∈ initialTabs, TabOk tab) (groups : List EntityTabGroup)
    (groupsOk : ∀ group ∈ groups, GroupOk initialTabs group) (h : Shown explorer current.1)
    (keeps : DuplicatesKeepPane explorer env current groups) :
    Shown explorer (collapseDuplicateEntityTabs env current groups).1 ∧
      paneIds (collapseDuplicateEntityTabs env current groups).1.root ⊆ paneIds current.1.root := by
  induction groups generalizing current with
  | nil => exact ⟨h, fun _ hid => hid⟩
  | cons group groups ih =>
    obtain ⟨layout, made⟩ := current
    have hrestOk := fun other (hother : other ∈ groups) =>
      groupsOk other (mem_cons_of_mem _ hother)
    unfold DuplicatesKeepPane at keeps
    unfold collapseDuplicateEntityTabs
    cases hkeeper : group.keeper with
    | none =>
      rw [hkeeper] at keeps
      exact ih hrestOk h keeps
    | some keeper =>
      rw [hkeeper] at keeps
      obtain ⟨hcloses, hrest⟩ := keeps
      have hok := groupsOk group mem_cons_self
      have htab := initial keeper (hok.tabs keeper (EntityTabGroup.keeper_mem hkeeper))
      obtain ⟨hretargeted, hsame⟩ := shown_retargetKeeper h hok.target htab
      have hretargeted' : Shown explorer (retargetKeeper layout group keeper, made).1 := hretargeted
      obtain ⟨hclosed, hids⟩ := shown_closeTabsInLayout tabs _ hretargeted' hcloses
      obtain ⟨hshown, hrestIds⟩ := ih hrestOk hclosed hrest
      refine ⟨hshown, ?_⟩
      intro id hid
      rw [← hsame]
      exact hids (hrestIds hid)

theorem shown_openEntityTab (env : StepEnv) (h : Shown explorer layout)
    (htarget : normalizeWorkspaceTabTarget target = some target) :
    Shown explorer (openEntityTabWithoutFocusing env explorer layout target) ∧
      paneIds (openEntityTabWithoutFocusing env explorer layout target).root =
        paneIds layout.root := by
  unfold openEntityTabWithoutFocusing
  cases hresult : insertNewTabIntoPane layout target env.now .ambient explorer
      (buildDeterministicWorkspaceTabId target) none false with
  | none => exact ⟨h, rfl⟩
  | some result =>
    obtain ⟨-, hids, hshown⟩ := nearlyShown_insertNewTabIntoPane h htarget
      (fun tabId => trimmed_deterministic htarget) hresult
    exact ⟨hshown rfl, hids⟩

theorem shown_openMissing (env : StepEnv) (targets : List WorkspaceTabTarget)
    (normal : ∀ target ∈ targets, normalizeWorkspaceTabTarget target = some target)
    (current : List WorkspaceTabTarget) (h : Shown explorer layout) :
    Shown explorer (openMissingEntityTabs env explorer layout current targets) ∧
      paneIds (openMissingEntityTabs env explorer layout current targets).root =
        paneIds layout.root := by
  induction targets generalizing layout current with
  | nil => exact ⟨h, rfl⟩
  | cons target targets ih =>
    have hrest := fun other (hother : other ∈ targets) =>
      normal other (mem_cons_of_mem _ hother)
    unfold openMissingEntityTabs
    split
    · exact ih hrest _ h
    · obtain ⟨hopened, hsame⟩ := shown_openEntityTab env h (normal target mem_cons_self)
      obtain ⟨hshown, hids⟩ := ih hrest (target :: current) hopened
      exact ⟨hshown, hids.trans hsame⟩

theorem trimmed_normalizeStringSet {values : List String} {value : String}
    (h : value ∈ normalizeStringSet values) : Trimmed value := by
  unfold normalizeStringSet at h
  obtain ⟨raw, -, hraw⟩ := mem_filterMap.mp (mem_eraseDups.mp h)
  exact trimNonEmpty_trimmed hraw

theorem trimmed_applyPinnedAndHidden {base pinned pending hidden known : List String}
    (hbase : ∀ id ∈ base, Trimmed id) (hpinned : ∀ id ∈ pinned, Trimmed id) {agentId : String}
    (h : agentId ∈ applyPinnedAndHidden base pinned pending hidden known) : Trimmed agentId := by
  rcases mem_append.mp (mem_of_mem_filter h) with hmem | hmem
  · exact hbase agentId hmem
  · exact hpinned agentId (mem_of_mem_filter hmem)

theorem normalize_terminal {terminalId : String} (h : Trimmed terminalId) :
    normalizeWorkspaceTabTarget (.terminal terminalId) = some (.terminal terminalId) := by
  have hid : trimNonEmpty terminalId = some terminalId := h
  simp [normalizeWorkspaceTabTarget, hid]

/-- The agents and terminals to open are known by trimmed ids. -/
theorem normal_missingEntityTargets {state : WorkspaceState}
    (pinned : ∀ agentId ∈ state.pinnedAgentIds, Trimmed agentId) (snapshot : WorkspaceTabSnapshot)
    (represented : List String)
    (h : target ∈ missingEntityTargets snapshot (snapshotIds state snapshot) represented) :
    normalizeWorkspaceTabTarget target = some target := by
  rcases mem_append.mp h with hagent | hterminal
  · obtain ⟨agentId, hmem, rfl⟩ := List.mem_map.mp hagent
    apply normalize_agent
    have hsorted := (mem_insertionSort _).mp (mem_of_mem_filter hmem)
    exact trimmed_applyPinnedAndHidden (fun id => trimmed_normalizeStringSet) pinned hsorted
  · obtain ⟨terminalId, hmem, rfl⟩ := List.mem_map.mp hterminal
    apply normalize_terminal
    split at hmem
    · cases hmem
    · exact trimmed_normalizeStringSet ((mem_insertionSort _).mp hmem)

theorem nearlyShown_seedDraft (h : Shown explorer layout) (draft : Trimmed env.ids.draftId)
    (snapshot : WorkspaceTabSnapshot) (ids : SnapshotIds) :
    NearlyShown explorer (seedDraftForEmptyWorkspace env explorer layout snapshot ids) ∧
      paneIds (seedDraftForEmptyWorkspace env explorer layout snapshot ids).root =
        paneIds layout.root := by
  unfold seedDraftForEmptyWorkspace
  dsimp only
  split
  · exact ⟨h.nearly, rfl⟩
  · cases hresult : createTabInLayout layout (.draft env.ids.draftId none) env.now .focused explorer
        (some env.ids.draftId) none with
    | none => exact ⟨h.nearly, rfl⟩
    | some result =>
      have hnormal : normalizeWorkspaceTabTarget (.draft env.ids.draftId none) =
          some (.draft env.ids.draftId none) := by
        have hid : trimNonEmpty env.ids.draftId = some env.ids.draftId := draft
        simp [normalizeWorkspaceTabTarget, hid]
      obtain ⟨hnearly, hids, -⟩ := nearlyShown_insertNewTabIntoPane h hnormal
        (fun tabId heq => by cases heq; exact draft) hresult
      exact ⟨hnearly, hids⟩

end Reconcile

/-! ## The other operations -/

section Step

variable {state : WorkspaceState} {env : StepEnv}

section

variable (h : Sound state) (fresh : FreshPane state env)
include h fresh

theorem sound_closeTab {tabId : String} (keeps : ¬ IsSoleNewTab (env.getWorkspaceLayout state) tabId →
      KeepsPane (explorerOf state) (env.getWorkspaceLayout state) tabId
        (closePreserve (explorerOf state))) : Sound (env.closeTab state tabId) := by
  unfold closeTab
  split
  · exact h
  · rename_i next hnext
    exact h.next_subset fresh (shown_closedTab h fresh keeps hnext) rfl h.pinned

section

variable (paneId : String)

theorem sound_closePane :
    Sound (env.closePane state paneId) := by
  unfold closePane
  rw [h.explorerPaneId env]
  dsimp only
  split
  · exact h
  · rename_i next hnext
    exact h.next_subset fresh (shown_closePane h fresh hnext) rfl h.pinned

omit h fresh in
/-- A pane in normal form has a tab, so there is nothing to restore. -/
theorem shown_restoreEmptyPanes {layout : WorkspaceLayout} {explorer : Option String}
    (h : Shown explorer layout) (env : StepEnv) :
    Shown explorer (restoreEmptyPanesInLayout env.now env.layoutTab env.paneTab layout explorer) ∧
      paneIds (restoreEmptyPanesInLayout env.now env.layoutTab env.paneTab layout explorer).root =
        paneIds layout.root := by
  obtain ⟨hnormal, hids⟩ := focusVisible_normalizeLayout h env.now env.layoutTab
  have hfixed : (normalizeLayout env.now env.layoutTab layout).root.mapLeaves
      (restoreEmptyPane env.now env.paneTab explorer) =
      (normalizeLayout env.now env.layoutTab layout).root := by
    apply SplitTree.mapLeaves_of_fixed
    intro pane hpane
    unfold restoreEmptyPane
    apply if_pos
    simpa using (hnormal.root.panes pane hpane).nonempty
  unfold restoreEmptyPanesInLayout
  dsimp only
  rw [hfixed]
  exact ⟨⟨hnormal.root, hnormal.panes, hnormal.focus⟩, hids⟩

theorem sound_moveTabToPane (tabId toPaneId : String) : Sound (env.moveTabToPane state tabId toPaneId) := by
  obtain ⟨hlayout, hids⟩ := h.layout env
  unfold moveTabToPane
  split
  · exact h
  · rename_i next hnext
    refine h.next_subset fresh ?_ rfl h.pinned
    unfold movedTab at hnext
    rw [h.explorerPaneId env] at hnext
    dsimp only at hnext
    generalize (if some toPaneId = explorerOf state then PaneHost.explorer else .main) = host
      at hnext
    split at hnext
    · cases hnext
    · obtain ⟨moved, hmoved, rfl⟩ := map_eq_some_iff.mp hnext
      obtain ⟨hshown, hsub⟩ := shown_moveTabToPaneInLayout (fresh.newTab 0) hlayout hmoved
      rw [hids] at hsub
      rw [keepFocusOut_root]
      split
      · obtain ⟨hrestored, hsame⟩ := shown_restoreEmptyPanes hshown env
        exact ⟨shown_keepFocusOut hrestored.nearly _, by rw [hsame]; exact hsub⟩
      · exact ⟨shown_keepFocusOut hshown.nearly _, hsub⟩

theorem sound_splitPane (tabId targetPaneId : String) (position : SplitPosition) :
    Sound (env.splitPane state tabId targetPaneId position) := by
  obtain ⟨hlayout, hids⟩ := h.layout env
  unfold splitPane
  dsimp only
  split
  · exact h
  · split
    · exact h
    · rename_i result hresult
      obtain ⟨hshown, hsub⟩ := shown_splitPaneInLayout (fresh.newTab 0) hlayout
        fresh.clean.paneId fresh.clean.groupId (by rw [hids]; exact fresh.unused) fresh.ordinary
        hresult
      rw [hids] at hsub
      exact h.next fresh hshown hsub rfl h.pinned

/-- A step whose layout shows the same panes. -/
theorem Sound.next_same {next : WorkspaceState} (result : Shown (explorerOf state) next.layout ∧
      paneIds next.layout.root = paneIds (env.getWorkspaceLayout state).root)
    (same : next.explorerSidebarPaneId = state.explorerSidebarPaneId)
    (pinned : ∀ agentId ∈ next.pinnedAgentIds, Trimmed agentId) : Sound next := by
  refine h.next_subset fresh ⟨result.1, ?_⟩ same pinned
  rw [result.2, (h.layout env).2]
  exact fun _ hid => hid

section

variable (tabId : String)

theorem sound_focusTab :
    Sound (env.focusTab state tabId) := by
  have hlayout := (h.layout env).1
  unfold focusTab
  dsimp only
  split
  · exact h
  · rename_i next hnext
    refine h.next_same fresh ?_ rfl h.pinned
    rw [h.explorerPaneId env] at hnext
    split at hnext
    · exact shown_focusTabInLayout hlayout.nearly hnext
    · rename_i explorer hexplorer
      split at hnext
      · -- a tab of the Explorer: the Explorer is shown, the focus stays
        cases hnext
        have hrevealed : Shown (explorerOf state)
            ((setPaneHiddenInLayout (env.getWorkspaceLayout state) explorer false).getD
              (env.getWorkspaceLayout state)) ∧
            paneIds ((setPaneHiddenInLayout (env.getWorkspaceLayout state) explorer false).getD
              (env.getWorkspaceLayout state)).root = paneIds (env.getWorkspaceLayout state).root := by
          cases hshow : setPaneHiddenInLayout (env.getWorkspaceLayout state) explorer false with
          | none => exact ⟨hlayout, rfl⟩
          | some revealed => exact shown_showPane hlayout hshow
        obtain ⟨hshown, hsame⟩ := hrevealed
        dsimp only
        cases hselect : selectTabInPaneInLayout
            ((setPaneHiddenInLayout (env.getWorkspaceLayout state) explorer false).getD
              (env.getWorkspaceLayout state)) explorer tabId with
        | none => exact ⟨hshown, hsame⟩
        | some selected =>
          obtain ⟨hselected, hids⟩ := shown_selectTabInPaneInLayout hshown hselect
          exact ⟨hselected, hids.trans hsame⟩
      · exact shown_focusTabInLayout hlayout.nearly hnext

theorem sound_selectTabInPane (paneId tabId : String) : Sound (env.selectTabInPane state paneId tabId) := by
  unfold selectTabInPane
  split
  · exact h
  · rename_i next hnext
    exact h.next_same fresh (shown_selectTabInPaneInLayout (h.layout env).1 hnext) rfl h.pinned

theorem sound_focusPane :
    Sound (env.focusPane state paneId) := by
  unfold focusPane
  split
  · exact h
  · split
    · exact h
    · rename_i next hnext
      exact h.next_same fresh (shown_focusPaneInLayout (h.layout env).1 hnext) rfl h.pinned

theorem sound_unfocusPane :
    Sound (env.unfocusPane state) := by
  have hlayout := (h.layout env).1
  refine h.next_same fresh ?_ rfl h.pinned
  exact ⟨⟨hlayout.root, hlayout.panes, focusVisible_none⟩, rfl⟩

theorem sound_restorePaneFocus (token : String) :
    Sound (env.restorePaneFocus state token) := by
  have hlayout := (h.layout env).1
  unfold restorePaneFocus
  split
  · exact h
  · split
    · exact h
    · dsimp only
      split
      · exact h.sameLayout rfl rfl h.pinned
      · split
        · exact h.sameLayout rfl rfl h.pinned
        · split
          · exact h.sameLayout rfl rfl h.pinned
          · rename_i pane hpane
            -- the pane to restore is looked up and asked to be visible
            obtain ⟨hfound, hvisible⟩ := filter_eq_some_iff.mp hpane
            refine h.next_same fresh ?_ rfl h.pinned
            refine ⟨⟨hlayout.root, hlayout.panes, ?_⟩, rfl⟩
            apply focusVisible_some.mpr
            exact ⟨pane, (findPaneById_some hfound).1, rfl, by simpa using hvisible⟩

theorem sound_replaceTab {target : WorkspaceTabTarget}
    (htarget : normalizeWorkspaceTabTarget target = some target) (tabState : Option Json) :
    Sound (env.replaceTab state tabId target tabState) := by
  unfold StepEnv.replaceTab
  split
  · exact h
  · rename_i next hnext
    exact h.next_same fresh (shown_replaceTabTargetInLayout (h.layout env).1
      fresh.clean.tabInstanceId htarget hnext) rfl h.pinned

theorem sound_setTabState (tabState : Option Json) :
    Sound (env.setTabState state tabId tabState) := by
  unfold setTabState
  split
  · exact h
  · rename_i next hnext
    exact h.next_same fresh (shown_setTabStateInLayout (h.layout env).1 hnext) rfl h.pinned

end

theorem sound_convertDraftToAgent {tabId agentId : String} (hagent : Trimmed agentId)
    (keeps : ∀ current, (collectAllTabs (env.getWorkspaceLayout state).root).find?
        (·.tabId == tabId) = some current → current.target.kind = .draft →
      "agent_" ++ agentId ∈ openTabIds (env.getWorkspaceLayout state).root →
      "agent_" ++ agentId ≠ tabId →
      KeepsPane (explorerOf state) (env.getWorkspaceLayout state) tabId (preservedOnClose none)) :
    Sound (env.convertDraftToAgent state tabId agentId) := by
  obtain ⟨hlayout, hids⟩ := h.layout env
  unfold convertDraftToAgent
  split
  · exact h
  · rename_i next hnext
    obtain ⟨hshown, hsub⟩ :=
      shown_convertDraftToAgentInLayout (fresh.newTab 0) hlayout hagent keeps hnext
    rw [hids] at hsub
    exact h.next_subset fresh ⟨hshown, hsub⟩ rfl h.pinned

theorem sound_reorderTabs (tabIds : List String) :
    Sound (env.reorderTabs state tabIds) := by
  unfold reorderTabs
  split
  · exact h
  · rename_i next hnext
    obtain ⟨paneId, -, hreorder⟩ := bind_eq_some_iff.mp hnext
    exact h.next_same fresh (shown_reorderPaneTabsInLayout (h.layout env).1 hreorder) rfl h.pinned

theorem sound_reorderTabsInPane (tabIds : List String) :
    Sound (env.reorderTabsInPane state paneId tabIds) := by
  unfold reorderTabsInPane
  split
  · exact h
  · rename_i next hnext
    exact h.next_same fresh (shown_reorderPaneTabsInLayout (h.layout env).1 hnext) rfl h.pinned

end

/-- Duplicates and stale tabs closed in turn, missing ones opened, a draft for an empty
workspace, and at last the focus back on its tab. -/
theorem sound_reconcileTabs (snapshot : WorkspaceTabSnapshot)
    (keeps : KeepsLastPane state env (.reconcileTabs snapshot)) :
    Sound (env.reconcileTabs state snapshot) := by
  obtain ⟨hlayout, hids⟩ := h.layout env
  obtain ⟨hduplicates, hstale⟩ := keeps
  have hinput : Shown (explorerOf state) (env.reconcileInput state) ∧
      paneIds (env.reconcileInput state).root = paneIds state.layout.root := by
    unfold reconcileInput
    rw [h.explorerPaneId env, keepFocusOut_root]
    exact ⟨shown_keepFocusOut hlayout.nearly _, hids⟩
  have hinitial : ∀ tab ∈ collectAllTabs (env.reconcileInput state).root, TabOk tab := by
    intro tab htab
    obtain ⟨pane, hpane, hmem⟩ := mem_flatMap.mp htab
    exact (hinput.1.root.panes pane hpane).tabOk tab hmem
  obtain ⟨hunique, huniqueIds⟩ := shown_collapseDuplicates fresh.newTab hinitial
    (buildEntityTabGroups (collectAllTabs (env.reconcileInput state).root))
    (groupOk_buildEntityTabGroups _) hinput.1 hduplicates
  obtain ⟨hlive, hliveIds⟩ := shown_closeTabsInLayout fresh.newTab _ hunique hstale
  have hfull := fun represented => shown_openMissing env
    (missingEntityTargets snapshot (snapshotIds state snapshot) represented)
    (fun target => normal_missingEntityTargets h.pinned snapshot represented)
    ((collectAllTabs (collapseStaleEntityTabs env (reconcileDuplicates env
      (env.reconcileInput state)) snapshot (snapshotIds state snapshot)).root).map (·.target)) hlive
  unfold reconcileTabs
  rw [h.explorerPaneId env]
  dsimp only
  unfold reconcileWorkspaceTabs
  dsimp only
  obtain ⟨hfullShown, hfullIds⟩ := hfull
    ((collectAllTabs (env.reconcileInput state).root).filterMap fun tab => agentIdOf tab.target)
  obtain ⟨hseeded, hseededIds⟩ :=
    nearlyShown_seedDraft hfullShown fresh.clean.draftId snapshot (snapshotIds state snapshot)
  refine h.next_subset fresh ?_ rfl h.pinned
  rw [keepFocusOut_root]
  have hresult : ∀ focused : Option String, ∀ seeded : WorkspaceLayout,
      NearlyShown (explorerOf state) seeded → paneIds seeded.root ⊆ paneIds state.layout.root →
      NearlyShown (explorerOf state) ((focused.bind (focusTabInLayout seeded)).getD seeded) ∧
        paneIds ((focused.bind (focusTabInLayout seeded)).getD seeded).root ⊆
          paneIds state.layout.root := by
    intro focused seeded hnearly hsub
    cases focused with
    | none => exact ⟨hnearly, hsub⟩
    | some tabId =>
      obtain ⟨hfocused, hsame⟩ := nearlyShown_focusTab hnearly tabId
      exact ⟨hfocused, by rw [bind_some, hsame]; exact hsub⟩
  obtain ⟨hnearly, hsub⟩ := hresult (reconciledFocusedTabId (env.reconcileInput state)) _ hseeded
    (by
      rw [hseededIds]
      intro id hid
      rw [hfullIds] at hid
      rw [← hinput.2]
      exact huniqueIds (hliveIds hid))
  exact ⟨shown_keepFocusOut hnearly _, hsub⟩

omit fresh in
theorem Sound.withId (raw : String) {op : String → WorkspaceState}
    (hop : ∀ id, trimNonEmpty raw = some id → Sound (op id)) :
    Sound (StepEnv.withId state raw op) := by
  unfold StepEnv.withId
  split
  · exact h
  · rename_i id hid
    exact hop id hid

omit fresh in
theorem Sound.withTarget (raw : WorkspaceTabTarget) {op : WorkspaceTabTarget → WorkspaceState}
    (hop : ∀ target, normalizeWorkspaceTabTarget raw = some target → Sound (op target)) :
    Sound (StepEnv.withTarget state raw op) := by
  unfold StepEnv.withTarget
  split
  · exact h
  · rename_i target htarget
    exact hop target htarget

/-- Every step keeps the invariant. -/
theorem Sound.step {op : Operation} (keeps : KeepsLastPane state env op) : Sound (env.step state op) := by
  unfold StepEnv.step
  cases op with
  | openTab input =>
    exact h.withTarget input.target fun target htarget => sound_openTab h fresh keeps htarget
  | showExplorerSidebar => exact sound_showExplorerSidebar h fresh
  | hideExplorerSidebar => exact sound_hideExplorerSidebar h fresh
  | ensureSidePane => exact sound_ensureSidePane h fresh
  | closeTab tabId => exact h.withId tabId fun id hid => sound_closeTab h fresh (keeps id hid)
  | focusTab tabId => exact h.withId tabId fun id _ => sound_focusTab h fresh id
  | selectTabInPane paneId tabId =>
    exact h.withId paneId fun paneId _ => h.withId tabId fun tabId _ =>
      sound_selectTabInPane h fresh paneId tabId
  | replaceTab tabId target tabState =>
    exact h.withId tabId fun tabId _ => h.withTarget target fun target htarget =>
      sound_replaceTab h fresh tabId (normalizeWorkspaceTabTarget_twice htarget) tabState
  | setTabState tabId tabState =>
    exact h.withId tabId fun tabId _ => sound_setTabState h fresh tabId tabState
  | convertDraftToAgent tabId agentId =>
    apply h.withId tabId
    intro id hid
    apply h.withId agentId
    intro agent hagent
    apply sound_convertDraftToAgent h fresh (trimNonEmpty_trimmed hagent)
    intro current hcurrent
    exact keeps id agent current hid hagent hcurrent
  | reconcileTabs snapshot => exact sound_reconcileTabs h fresh snapshot keeps
  | resolvePendingAgent agentId =>
    exact h.withId agentId fun _ _ => h.sameLayout rfl rfl h.pinned
  | reorderTabs tabIds => exact sound_reorderTabs h fresh tabIds
  | reorderTabsInPane paneId tabIds =>
    exact h.withId paneId fun paneId _ => sound_reorderTabsInPane h fresh paneId tabIds
  | splitPane tabId targetPaneId position =>
    exact h.withId tabId fun tabId _ => h.withId targetPaneId fun targetPaneId _ =>
      sound_splitPane h fresh tabId targetPaneId position
  | splitPaneEmpty targetPaneId position =>
    exact h.withId targetPaneId fun _ _ => sound_splitPaneEmpty h fresh
  | moveTabToPane tabId toPaneId =>
    exact h.withId tabId fun tabId _ => h.withId toPaneId fun toPaneId _ =>
      sound_moveTabToPane h fresh tabId toPaneId
  | closePane paneId => exact h.withId paneId fun paneId _ => sound_closePane h fresh paneId
  | focusPane paneId => exact h.withId paneId fun paneId _ => sound_focusPane h fresh paneId
  | unfocusPane => exact sound_unfocusPane h fresh
  | restorePaneFocus token =>
    exact h.withId token fun token _ => sound_restorePaneFocus h fresh token
  | unpinAgent agentId =>
    apply h.withId agentId
    intro agentId _
    unfold unpinAgent
    split
    · exact h
    · exact h.sameLayout rfl rfl fun id hid => h.pinned id (mem_of_mem_filter hid)
  | hideAgent agentId | unhideAgent agentId =>
    exact h.withId agentId fun _ _ => h.sameLayout rfl rfl h.pinned

end

end Step

/-! ## Runs -/

/-- The store before the first operation, with the new tab that the layout starts with. -/
abbrev startOf (env : StepEnv) : WorkspaceState :=
  initialState env.now env.layoutTab

theorem sound_startOf {env : StepEnv} (clean : env.ids.Clean) : Sound (startOf env) := by
  have hnewTab : TabOk env.layoutTab := tabOk_newTab clean.layoutTabId
  have htabs : ∀ tab ∈ createDefaultExplorerSidebarTabs env.now, TabOk tab := by
    intro tab htab
    simp only [createDefaultExplorerSidebarTabs, mem_cons, not_mem_nil, or_false] at htab
    apply tabOk_iff.mpr
    rcases htab with rfl | rfl
    · exact ⟨show Trimmed "files" by decide, rfl⟩
    · exact ⟨show Trimmed "changes_tree" by decide, rfl⟩
  have hroot : RootOk (startOf env).layout.root := by
    refine ⟨?_, ?_, by simp [initialState, createWorkspaceLayoutWithExplorerSidebar, defaultPaneId,
      explorerSidebarPaneIdLiteral]⟩
    · exact full_groupNode (by decide) _ (.leaf _) (.leaf _)
    · intro pane hpane
      simp only [initialState, createWorkspaceLayoutWithExplorerSidebar, SplitTree.leaves_node,
        SplitTree.mem_leavesAll, mem_cons, not_mem_nil, or_false] at hpane
      obtain ⟨child, hchild, hleaf⟩ := hpane
      rcases hchild with rfl | rfl
      · rw [mem_singleton.mp hleaf]
        exact paneOk_newPane hnewTab (by decide)
      · rw [mem_singleton.mp hleaf]
        exact paneOk_createPane (by decide) htabs (cons_ne_nil _ _)
  have hexplorer : explorerOf (startOf env) = some explorerSidebarPaneIdLiteral := by
    unfold explorerOf
    rw [resolve_unregistered hroot (by simp [initialState])]
    apply if_pos
    simp [initialState, createWorkspaceLayoutWithExplorerSidebar, paneIds]
  have hmain : createPane defaultPaneId [env.layoutTab] none false ∈
      (startOf env).layout.root.leaves := by
    simp [initialState, createWorkspaceLayoutWithExplorerSidebar]
  refine ⟨⟨hroot, ⟨?_, ?_⟩, ?_⟩, by simp [RegisteredOnly, initialState], by simp [initialState]⟩
  · intro pane hpane hhidden
    rw [hexplorer]
    simp only [initialState, createWorkspaceLayoutWithExplorerSidebar, SplitTree.leaves_node,
      SplitTree.mem_leavesAll, mem_cons, not_mem_nil, or_false] at hpane
    obtain ⟨child, hchild, hleaf⟩ := hpane
    rcases hchild with rfl | rfl
    · rw [mem_singleton.mp hleaf] at hhidden
      cases hhidden
    · rw [mem_singleton.mp hleaf]
      rfl
  · refine ⟨_, hmain, rfl, ?_⟩
    rw [hexplorer]
    exact show some explorerSidebarPaneIdLiteral ≠ some defaultPaneId by decide
  · exact focusVisible_some.mpr ⟨_, hmain, rfl, rfl⟩

variable {state : WorkspaceState} {events : List (StepEnv × Operation)}

theorem AlongRun.take {P : WorkspaceState → StepEnv → Operation → Prop} (h : AlongRun P state events)
    (n : ℕ) :
    AlongRun P state (events.take n) := by
  induction events generalizing state n with
  | nil => simpa using h
  | cons event events ih =>
    cases n with
    | zero => trivial
    | succ n => exact ⟨h.1, ih h.2 n⟩

/-- Every run whose steps keep the last visible ordinary pane keeps the invariant. -/
theorem Sound.runFrom (h : Sound state)
    (fresh : AlongRun (fun state env _ => FreshPane state env) state events)
    (keeps : AlongRun KeepsLastPane state events) : Sound (runFrom state events) := by
  induction events generalizing state with
  | nil => exact h
  | cons event events ih => exact ih (h.step fresh.1 keeps.1) fresh.2 keeps.2

/-- A workspace has somewhere to look in every state of such a run. -/
theorem workspaceRuns_somewhereToLook (env : StepEnv) (clean : env.ids.Clean)
    (events : List (StepEnv × Operation))
    (fresh : AlongRun (fun state env _ => FreshPane state env) (startOf env) events)
    (keeps : AlongRun KeepsLastPane (startOf env) events) (n : ℕ) :
    SomewhereToLook (runFrom (startOf env) (events.take n)) :=
  ((sound_startOf clean).runFrom (fresh.take n) (keeps.take n)).somewhereToLook

/-! ## Two runs -/

/-- The surroundings of one event, whose ids all end in a text of its own. -/
def surroundings (name : String) : StepEnv :=
  { now := 0
    ids :=
      { paneId := "pane_" ++ name
        groupId := "group_" ++ name
        tabInstanceId := "tab_instance_" ++ name
        draftId := "draft_" ++ name
        focusRestorationToken := "token_" ++ name
        layoutTabId := "tab_layout_" ++ name
        newTabId := fun n => "tab_" ++ toString n ++ "_" ++ name
        paneTabId := fun paneId => "tab_" ++ paneId ++ "_" ++ name }
    pluginSupportsHost := fun _ _ => true }

theorem surroundings_clean {name : String} (h : Trimmed name) : (surroundings name).ids.Clean where
  paneId := trimmed_prefixed 'p' (by simp) (by decide) h
  groupId := trimmed_prefixed 'g' (by simp) (by decide) h
  tabInstanceId := trimmed_prefixed 't' (by simp) (by decide) h
  draftId := trimmed_prefixed 'd' (by simp) (by decide) h
  layoutTabId := trimmed_prefixed 't' (by simp) (by decide) h
  newTabId := fun n => trimmed_prefixed 't' (by simp) (by decide) h
  paneTabId := fun paneId => trimmed_prefixed 't' (by simp) (by decide) h

theorem freshPane_surroundings {name : String} (h : Trimmed name)
    (unused : "pane_" ++ name ∉ paneIds state.layout.root)
    (notRegistered : state.explorerSidebarPaneId ≠ some ("pane_" ++ name)) :
    FreshPane state (surroundings name) where
  clean := surroundings_clean h
  unused := unused
  notDefault := by
    intro heq
    have hhead := congrArg (fun s : String => s.toList.head?) heq
    simp [surroundings, explorerSidebarPaneIdLiteral] at hhead
  notRegistered := notRegistered

def openAgentA : Operation :=
  .openTab
    { target := .agent "A", intent := .reveal, pin := false, placement := none, parentTabId := none,
      state := none }

/-- A second pane is split off, an agent opened in it, and its tab closed. -/
def closedBeside : List (StepEnv × Operation) :=
  [(surroundings "1", .splitPaneEmpty "main" .right), (surroundings "2", openAgentA),
    (surroundings "3", .closeTab "agent_A")]

/-- A second pane is split off, the first closed, and in the second an agent opened and
its tab closed. -/
def closedAlone : List (StepEnv × Operation) :=
  [(surroundings "1", .splitPaneEmpty "main" .right), (surroundings "2", .closePane "main"),
    (surroundings "3", openAgentA), (surroundings "4", .closeTab "agent_A")]

/-- Opening an agent that has no tab yet moves none. -/
theorem keepsLastPane_openAgentA {env : StepEnv}
    (absent : findExistingTabForTarget (env.getWorkspaceLayout state).root (.agent "A") = none) :
    KeepsLastPane state env openAgentA := by
  intro target existing paneId _ htarget hexisting
  obtain rfl : target = .agent "A" := (some.inj htarget).symm
  rw [absent] at hexisting
  cases hexisting

theorem workspaceRuns_somewhereToLook_beside :
    SomewhereToLook (runFrom (startOf (surroundings "0")) (closedBeside.take 3)) := by
  apply workspaceRuns_somewhereToLook (surroundings "0") (surroundings_clean (by decide))
  · refine ⟨?_, ?_, ?_, trivial⟩
    · exact freshPane_surroundings (by decide) (by decide +kernel) (by decide +kernel)
    · exact freshPane_surroundings (by decide) (by decide +kernel) (by decide +kernel)
    · exact freshPane_surroundings (by decide) (by decide +kernel) (by decide +kernel)
  · refine ⟨trivial, keepsLastPane_openAgentA (by decide +kernel), ?_, trivial⟩
    -- the pane of the agent can be dismissed beside the first one
    intro id hid _ pane hpane
    obtain rfl : id = "agent_A" := (Option.some.inj hid).symm
    have hfound : (findPaneContainingTab ((surroundings "3").getWorkspaceLayout
        (runFrom (startOf (surroundings "0")) (closedBeside.take 2))).root "agent_A").map (·.id) =
        some "pane_1" := by decide +kernel
    have hpaneId : pane.id = "pane_1" := by
      have := congrArg (Option.map (·.id)) hpane
      exact Option.some.inj (this.symm.trans hfound)
    rw [hpaneId]
    exact .inr (.inr (.inr (.inr (by decide +kernel))))

/-- Closing the last tab of the last visible ordinary pane removes the pane: the hidden
Explorer is left, and the focus names a pane that is gone. -/
theorem closedAlone_nowhereToLook :
    AlongRun (fun state env _ => FreshPane state env) (startOf (surroundings "0")) closedAlone ∧
      (∀ pane ∈ (runFrom (startOf (surroundings "0")) closedAlone).layout.root.leaves,
        pane.hidden = true) ∧
      (runFrom (startOf (surroundings "0")) closedAlone).layout.focusedPaneId = some "main" ∧
      "main" ∉ paneIds (runFrom (startOf (surroundings "0")) closedAlone).layout.root := by
  refine ⟨⟨?_, ?_, ?_, ?_, trivial⟩, by decide +kernel, by decide +kernel, by decide +kernel⟩
  · exact freshPane_surroundings (by decide) (by decide +kernel) (by decide +kernel)
  · exact freshPane_surroundings (by decide) (by decide +kernel) (by decide +kernel)
  · exact freshPane_surroundings (by decide) (by decide +kernel) (by decide +kernel)
  · exact freshPane_surroundings (by decide) (by decide +kernel) (by decide +kernel)

end Orqara.Layout
