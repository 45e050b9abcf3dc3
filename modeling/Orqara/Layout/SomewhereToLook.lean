import Orqara.Layout.ShownLayouts

/-!
# A workspace always has somewhere to look

Over every run of the store in which no step takes the last tab of the last
visible ordinary pane away: a visible pane other than the Explorer is left, and
the focused pane is visible.
-/

namespace Orqara.Layout

/-- The ids an event draws need no trimming. -/
structure FreshIds.Clean (ids : FreshIds) : Prop where
  paneId : Trimmed ids.paneId
  groupId : Trimmed ids.groupId
  tabInstanceId : Trimmed ids.tabInstanceId
  draftId : Trimmed ids.draftId
  layoutTabId : Trimmed ids.layoutTabId
  newTabId : ∀ n, Trimmed (ids.newTabId n)
  paneTabId : ∀ paneId, Trimmed (ids.paneTabId paneId)

/-- The pane id an event draws has not been used. -/
structure FreshPane (state : WorkspaceState) (env : StepEnv) : Prop where
  clean : env.ids.Clean
  unused : env.ids.paneId ∉ paneIds state.layout.root
  notDefault : env.ids.paneId ≠ explorerSidebarPaneIdLiteral
  notRegistered : state.explorerSidebarPaneId ≠ some env.ids.paneId

/-- A condition on every event of a run, in the state the event finds. -/
def AlongRun (P : WorkspaceState → StepEnv → Operation → Prop) :
    WorkspaceState → List (StepEnv × Operation) → Prop
  | _, [] => True
  | state, (env, op) :: events => P state env op ∧ AlongRun P (env.step state op) events

def explorerOf (state : WorkspaceState) : Option String :=
  resolveExplorerSidebarPaneId state.layout state.explorerSidebarPaneId

/-- A pane other than the Explorer is visible, and the focus is on no pane or on a
visible one. -/
structure SomewhereToLook (state : WorkspaceState) : Prop where
  somewhere : ∃ pane ∈ state.layout.root.leaves, pane.hidden = false ∧
    explorerOf state ≠ some pane.id
  focus : FocusVisible state.layout.root state.layout.focusedPaneId

/-! ## The condition on a step -/

/-- The pane that the store preserves when a tab of it is closed. -/
def closePreserve (explorer : Option String) (pane : SplitPane) : Option String :=
  preservedOnClose (if pane.id = defaultPaneId ∨ some pane.id = explorer then some pane.id
    else none) pane

/-- Tabs closed one after another, none of which is the last of the last visible pane. -/
def ClosesKeepPane (explorer : Option String) (env : StepEnv) :
    WorkspaceLayout × ℕ → List String → Prop
  | _, [] => True
  | (layout, made), tabId :: tabIds =>
    KeepsPane explorer layout tabId (preservedOnClose none) ∧
      ClosesKeepPane explorer env
        ((closeTabInLayout (env.newTab made) layout tabId none).getD layout, made + 1) tabIds

/-- The same for the duplicates of each agent and terminal. -/
def DuplicatesKeepPane (explorer : Option String) (env : StepEnv) :
    WorkspaceLayout × ℕ → List EntityTabGroup → Prop
  | _, [] => True
  | (layout, made), group :: groups =>
    match group.keeper with
    | none => DuplicatesKeepPane explorer env (layout, made) groups
    | some keeper =>
      ClosesKeepPane explorer env (retargetKeeper layout group keeper, made)
          (group.duplicates keeper) ∧
        DuplicatesKeepPane explorer env
          (closeTabsInLayout env (retargetKeeper layout group keeper, made)
            (group.duplicates keeper)) groups

/-- The tab alone in a pane is a new tab: closing it is closing the pane. -/
def IsSoleNewTab (layout : WorkspaceLayout) (tabId : String) : Prop :=
  ∃ pane, findPaneContainingTab layout.root tabId = some pane ∧ pane.tabIds.length = 1 ∧
    ((collectAllTabs layout.root).find? (·.tabId == tabId)).any isNewTab = true

/-- No tab that the operation closes or moves is the only tab of the last visible
ordinary pane. -/
def KeepsLastPane (state : WorkspaceState) (env : StepEnv) : Operation → Prop
  | .openTab input =>
    let layout := env.getWorkspaceLayout state
    ∀ target existing paneId, input.intent = .reveal →
      normalizeWorkspaceTabTarget input.target = some target →
      findExistingTabForTarget layout.root target = some existing →
      env.getOpenTabPlacement state target input.placement = .pane paneId →
      explorerOf state = some paneId → VisibleIn layout.root paneId →
      (findPaneContainingTab layout.root existing.tabId).map (·.id) ≠ some paneId →
      KeepsPane (explorerOf state) layout existing.tabId fun _ => none
  | .closeTab tabId =>
    ∀ id, trimNonEmpty tabId = some id → ¬ IsSoleNewTab (env.getWorkspaceLayout state) id →
      KeepsPane (explorerOf state) (env.getWorkspaceLayout state) id
        (closePreserve (explorerOf state))
  | .convertDraftToAgent tabId agentId =>
    let layout := env.getWorkspaceLayout state
    ∀ id agent current, trimNonEmpty tabId = some id → trimNonEmpty agentId = some agent →
      (collectAllTabs layout.root).find? (·.tabId == id) = some current →
      current.target.kind = .draft → "agent_" ++ agent ∈ openTabIds layout.root →
      "agent_" ++ agent ≠ id →
      KeepsPane (explorerOf state) layout id (preservedOnClose none)
  | .reconcileTabs snapshot =>
    let layout := env.reconcileInput state
    DuplicatesKeepPane (explorerOf state) env (layout, 0)
        (buildEntityTabGroups (collectAllTabs layout.root)) ∧
      ClosesKeepPane (explorerOf state) env (reconcileDuplicates env layout)
        (staleEntityTabIds (reconcileDuplicates env layout).1 snapshot
          (snapshotIds state snapshot))
  | _ => True

/-! ## The Explorer of the next state -/

section Explorer

variable {layout next : WorkspaceLayout} {registered : Option String}

theorem findPaneById_map {root : SplitNode} (ok : RootOk root) (paneId : String) :
    (findPaneById root (some paneId)).map (·.id) =
      if paneId ∈ paneIds root then some paneId else none := by
  split
  · rename_i hmem
    obtain ⟨pane, hpane, rfl⟩ := List.mem_map.mp hmem
    rw [ok.findPaneById hpane]
    rfl
  · rename_i hmem
    cases hfind : findPaneById root (some paneId) with
    | none => rfl
    | some pane =>
      obtain ⟨hpane, hid⟩ := findPaneById_some hfind
      obtain rfl : pane.id = paneId := by simpa using hid
      exact absurd (mem_paneIds hpane) hmem

section

variable (ok : RootOk layout.root)
include ok

theorem resolve_registered {paneId : String}
    (h : paneId ∈ paneIds layout.root) :
    resolveExplorerSidebarPaneId layout (some paneId) = some paneId := by
  unfold resolveExplorerSidebarPaneId
  rw [findPaneById_map ok, if_pos h]
  rfl

theorem resolve_unregistered
    (h : ∀ paneId, registered = some paneId → paneId ∉ paneIds layout.root) :
    resolveExplorerSidebarPaneId layout registered =
      if explorerSidebarPaneIdLiteral ∈ paneIds layout.root then
        some explorerSidebarPaneIdLiteral else none := by
  unfold resolveExplorerSidebarPaneId
  have hnone : (findPaneById layout.root registered).map (·.id) = none := by
    cases registered with
    | none => rfl
    | some paneId => rw [findPaneById_map ok, if_neg (h paneId rfl)]
  rw [hnone, Option.none_or, findPaneById_map ok]

/-- Once a pane is registered the default Explorer is not in the tree. -/
def RegisteredOnly (registered : Option String) (root : SplitNode) : Prop :=
  ∀ paneId, registered = some paneId → paneId ≠ explorerSidebarPaneIdLiteral →
    explorerSidebarPaneIdLiteral ∉ paneIds root

/-- As long as the Explorer pane is in the tree it stays the Explorer; when it is
gone there is none. -/
theorem resolve_next (okNext : RootOk next.root)
    (only : RegisteredOnly registered layout.root) {newId : String}
    (notDefault : newId ≠ explorerSidebarPaneIdLiteral) (notRegistered : registered ≠ some newId)
    (hids : paneIds next.root ⊆ newId :: paneIds layout.root) :
    resolveExplorerSidebarPaneId next registered =
        resolveExplorerSidebarPaneId layout registered ∨
      resolveExplorerSidebarPaneId next registered = none ∧
        ∀ paneId, resolveExplorerSidebarPaneId layout registered = some paneId →
          paneId ∉ paneIds next.root := by
  have hstays : ∀ paneId, paneId ≠ newId → paneId ∉ paneIds layout.root →
      paneId ∉ paneIds next.root := by
    intro paneId hne hout hin
    rcases List.mem_cons.mp (hids hin) with heq | hmem
    · exact hne heq
    · exact hout hmem
  by_cases hreg : ∃ paneId, registered = some paneId ∧ paneId ∈ paneIds layout.root
  · obtain ⟨paneId, rfl, hmem⟩ := hreg
    by_cases hnext : paneId ∈ paneIds next.root
    · left
      rw [resolve_registered ok hmem, resolve_registered okNext hnext]
    · right
      constructor
      · rw [resolve_unregistered okNext (by rintro other heq; cases heq; exact hnext)]
        apply if_neg
        by_cases hdefault : paneId = explorerSidebarPaneIdLiteral
        · rwa [← hdefault]
        · exact hstays _ (fun heq => notDefault heq.symm) (only paneId rfl hdefault)
      · rw [resolve_registered ok hmem]
        rintro other heq
        cases heq
        exact hnext
  · have hout : ∀ paneId, registered = some paneId → paneId ∉ paneIds layout.root :=
      fun paneId heq hmem => hreg ⟨paneId, heq, hmem⟩
    have houtNext : ∀ paneId, registered = some paneId → paneId ∉ paneIds next.root := by
      intro paneId heq
      exact hstays paneId (fun hsame => notRegistered (by rw [heq, hsame])) (hout paneId heq)
    rw [resolve_unregistered ok hout, resolve_unregistered okNext houtNext]
    by_cases hdefault : explorerSidebarPaneIdLiteral ∈ paneIds layout.root
    · by_cases hnext : explorerSidebarPaneIdLiteral ∈ paneIds next.root
      · exact .inl (by rw [if_pos hdefault, if_pos hnext])
      · right
        rw [if_neg hnext, if_pos hdefault]
        refine ⟨rfl, ?_⟩
        rintro paneId heq
        cases heq
        exact hnext
    · left
      rw [if_neg hdefault, if_neg (hstays _ (fun heq => notDefault heq.symm) hdefault)]

end

/-- Without its pane in the tree the Explorer hides nothing. -/
theorem Shown.explorerGone {explorer explorer' : Option String} (h : Shown explorer layout)
    (gone : explorer' = explorer ∨
      explorer' = none ∧ ∀ paneId, explorer = some paneId → paneId ∉ paneIds layout.root) :
    Shown explorer' layout := by
  rcases gone with rfl | ⟨rfl, hgone⟩
  · exact h
  · refine ⟨h.root, ⟨?_, ?_⟩, h.focus⟩
    · intro pane hpane hhidden
      exact absurd (mem_paneIds hpane) (hgone pane.id (h.panes.hiddenOnly pane hpane hhidden))
    · obtain ⟨pane, hpane, hvisible, -⟩ := h.panes.somewhere
      exact ⟨pane, hpane, hvisible, by simp⟩

end Explorer

/-! ## The invariant -/

/-- What every state of a run satisfies. -/
structure Sound (state : WorkspaceState) : Prop where
  shown : Shown (explorerOf state) state.layout
  only : RegisteredOnly state.explorerSidebarPaneId state.layout.root
  pinned : ∀ agentId ∈ state.pinnedAgentIds, Trimmed agentId

theorem Sound.somewhereToLook {state : WorkspaceState} (h : Sound state) : SomewhereToLook state :=
  ⟨h.shown.panes.somewhere, h.shown.focus⟩

section Step

variable {state : WorkspaceState} {env : StepEnv} {paneId : String}

section

variable (h : Sound state) (fresh : FreshPane state env) {explorer : Option String}
  {target : WorkspaceTabTarget} {input : OpenWorkspaceTabInput} {targetPaneId : String}
  {position : SplitPosition}
include h fresh

/-- A step that keeps the registered Explorer and shows its layout. -/
theorem Sound.next {next : WorkspaceState} (shown : Shown (explorerOf state) next.layout)
    (hids : paneIds next.layout.root ⊆ env.ids.paneId :: paneIds state.layout.root)
    (same : next.explorerSidebarPaneId = state.explorerSidebarPaneId)
    (pinned : ∀ agentId ∈ next.pinnedAgentIds, Trimmed agentId) : Sound next := by
  refine ⟨?_, ?_, pinned⟩
  · apply shown.explorerGone
    unfold explorerOf
    rw [same]
    exact resolve_next h.shown.root shown.root h.only fresh.notDefault fresh.notRegistered hids
  · intro paneId heq hne hin
    rw [same] at heq
    rcases List.mem_cons.mp (hids hin) with hnew | hmem
    · exact fresh.notDefault hnew.symm
    · exact h.only paneId heq hne hmem

theorem Sound.next_subset {next : WorkspaceState} (result : Shown (explorerOf state) next.layout ∧
      paneIds next.layout.root ⊆ paneIds state.layout.root)
    (same : next.explorerSidebarPaneId = state.explorerSidebarPaneId)
    (pinned : ∀ agentId ∈ next.pinnedAgentIds, Trimmed agentId) : Sound next :=
  h.next fresh result.1 (fun _ hid => List.mem_cons_of_mem _ (result.2 hid)) same pinned

omit fresh in
/-- A step that changes neither the layout nor the registered Explorer. -/
theorem Sound.sameLayout {next : WorkspaceState} (layout : next.layout = state.layout)
    (same : next.explorerSidebarPaneId = state.explorerSidebarPaneId)
    (pinned : ∀ agentId ∈ next.pinnedAgentIds, Trimmed agentId) : Sound next := by
  refine ⟨?_, ?_, pinned⟩
  · unfold explorerOf
    rw [layout, same]
    exact h.shown
  · rw [layout, same]
    exact h.only

omit h fresh in
theorem focusVisible_normalizeLayout {layout : WorkspaceLayout} (h : Shown explorer layout) (now : ℕ)
    (newTab : WorkspaceTab) :
    Shown explorer (normalizeLayout now newTab layout) ∧
      paneIds (normalizeLayout now newTab layout).root = paneIds layout.root := by
  have hroot := h.root.normalizeLayout now newTab
  refine ⟨⟨by rw [hroot]; exact h.root, by rw [hroot]; exact h.panes, ?_⟩, by rw [hroot]⟩
  rw [hroot]
  have hfocused : (normalizeLayout now newTab layout).focusedPaneId = layout.focusedPaneId := by
    unfold normalizeLayout
    dsimp only
    rw [normalizeNode_eq h.root.full h.root.panes]
    cases hf : layout.focusedPaneId with
    | none => rfl
    | some paneId =>
      obtain ⟨pane, hpane, rfl, -⟩ := h.focus paneId hf
      have htrim : trimNonEmpty pane.id = some pane.id := (h.root.panes pane hpane).id
      simp [htrim, h.root.findPaneById hpane]
  rw [hfocused]
  exact h.focus

omit fresh in
theorem Sound.layout (env : StepEnv) :
    Shown (explorerOf state) (env.getWorkspaceLayout state) ∧
      paneIds (env.getWorkspaceLayout state).root = paneIds state.layout.root :=
  focusVisible_normalizeLayout h.shown env.now env.layoutTab

omit fresh in
@[simp] theorem Sound.explorerPaneId (env : StepEnv) :
    env.explorerPaneId state = explorerOf state := by
  unfold StepEnv.explorerPaneId explorerOf resolveExplorerSidebarPaneId
  rw [show (env.getWorkspaceLayout state).root = state.layout.root from
    h.shown.root.normalizeLayout env.now env.layoutTab]

omit h in
theorem FreshPane.newTab (n : ℕ) : TabOk (env.newTab n) :=
  tabOk_newTab (fresh.clean.newTabId n)

/-! ## Opening -/

theorem shown_openedTab (htarget : normalizeWorkspaceTabTarget input.target = some target)
    (keeps : KeepsLastPane state env (.openTab input)) {result : OpenTabInLayoutResult}
    (hresult : env.openedTab state target input = some result) :
    NearlyShown (explorerOf state) result.layout ∧
      paneIds result.layout.root ⊆ paneIds state.layout.root := by
  obtain ⟨hlayout, hids⟩ := h.layout env
  have hnormal := normalizeWorkspaceTabTarget_twice htarget
  have hdeterministic : ∀ tabId, buildDeterministicWorkspaceTabId target = some tabId →
      Trimmed tabId := fun tabId => trimmed_deterministic hnormal
  unfold StepEnv.openedTab at hresult
  rw [h.explorerPaneId env] at hresult
  dsimp only at hresult
  split at hresult
  · -- a tab of its own
    obtain ⟨hnearly, heq, -⟩ := nearlyShown_insertNewTabIntoPane hlayout hnormal
      (fun tabId heq => by cases heq; exact fresh.clean.tabInstanceId) hresult
    exact ⟨hnearly, by rw [heq, hids]; exact fun _ h => h⟩
  · -- in the background
    unfold openTabInLayoutBackground at hresult
    split at hresult
    · rename_i existing hexisting
      cases hresult
      obtain ⟨hshown, heq⟩ := shown_updateExistingTabTarget hlayout
        (tabOk_iff.mp (tabOk_of_existing hlayout.root hexisting)).1 hnormal
      exact ⟨hshown.nearly, by rw [heq, hids]; exact fun _ h => h⟩
    · obtain ⟨hnearly, heq, -⟩ :=
        nearlyShown_insertNewTabIntoPane hlayout hnormal hdeterministic hresult
      exact ⟨hnearly, by rw [heq, hids]; exact fun _ h => h⟩
  · -- revealed
    rename_i hintent
    unfold revealTargetInLayout at hresult
    split at hresult
    · rename_i existing hexisting
      cases hresult
      have hid := (tabOk_iff.mp (tabOk_of_existing hlayout.root hexisting)).1
      obtain ⟨hupdated, heq⟩ := shown_updateExistingTabTarget hlayout hid hnormal
      have hreveal := shown_revealExistingTab (fresh.newTab 0) hupdated existing.tabId
        (env.getOpenTabPlacement state target input.placement) ?_
      · refine ⟨hreveal.1.nearly, ?_⟩
        intro id hmem
        have := hreveal.2 hmem
        rwa [heq, hids] at this
      · intro paneId hplacement hexplorer
        apply keeps_updateExistingTabTarget hlayout.root hid hnormal
        intro hvisible helsewhere source hsource
        have hkeeps := keeps target existing paneId hintent htarget hexisting hplacement hexplorer
          hvisible helsewhere
        apply hkeeps.another hlayout.root hlayout.panes hsource
        -- the pane to move to is another than the one the tab is in
        intro hone
        obtain ⟨only, honly⟩ := List.length_eq_one_iff.mp hone
        obtain ⟨pane, hpane, hpaneId, -⟩ := hvisible
        have hmem := (findPaneContainingTab_some hsource).1
        rw [honly, List.mem_singleton] at hpane hmem
        exact helsewhere (by rw [hsource, Option.map_some, hmem, ← hpaneId, hpane])
    · obtain ⟨hnearly, heq, -⟩ :=
        nearlyShown_insertNewTabIntoPane hlayout hnormal hdeterministic hresult
      exact ⟨hnearly, by rw [heq, hids]; exact fun _ h => h⟩

omit h fresh in
/-- Attaching a parent normalizes a layout in normal form. -/
theorem shown_attachParentTab {layout : WorkspaceLayout} (h : Shown explorer layout) (env : StepEnv)
    (child parent : String) :
    Shown explorer (attachParentTab env layout child parent) ∧
      paneIds (attachParentTab env layout child parent).root = paneIds layout.root := by
  unfold attachParentTab
  split
  · split
    · exact focusVisible_normalizeLayout h env.now env.layoutTab
    · rename_i child' parent' _ _ _
      have hmap : Shown explorer { layout with
          parentTabIdByTabId := setParent layout.parentTabIdByTabId child' parent' } :=
        ⟨h.root, h.panes, h.focus⟩
      exact focusVisible_normalizeLayout hmap env.now env.layoutTab
  · exact focusVisible_normalizeLayout h env.now env.layoutTab

omit fresh in
/-- An agent that is pinned when its tab opens. -/
theorem pinned_addAgentId {raw : WorkspaceTabTarget} {agentId : String}
    (hagent : normalizeWorkspaceTabTarget raw = some (.agent agentId)) (pin : Bool) :
    ∀ id ∈ (if pin then addAgentId state.pinnedAgentIds agentId else state.pinnedAgentIds),
      Trimmed id := by
  have htrimmed : Trimmed agentId := by
    have hnormal := normalizeWorkspaceTabTarget_twice hagent
    obtain ⟨id, hid, heq⟩ := Option.map_eq_some_iff.mp hnormal
    cases heq
    exact hid
  intro id hid
  split at hid
  · unfold addAgentId at hid
    split at hid
    · exact h.pinned id hid
    · rcases List.mem_append.mp hid with hold | hnew
      · exact h.pinned id hold
      · rw [List.mem_singleton.mp hnew]
        exact htrimmed
  · exact h.pinned id hid

theorem sound_openTab (keeps : KeepsLastPane state env (.openTab input))
    (htarget : normalizeWorkspaceTabTarget input.target = some target) :
    Sound (env.openTab state target input) := by
  unfold StepEnv.openTab
  split
  · exact h
  · rename_i result hresult
    obtain ⟨hnearly, hids⟩ := shown_openedTab h fresh htarget keeps hresult
    rw [h.explorerPaneId env]
    have hkept := shown_keepFocusOut hnearly (env.getWorkspaceLayout state).focusedPaneId
    have hkeptIds : paneIds (keepWorkspaceFocusOutOfExplorerSidebar result.layout (explorerOf state)
        (env.getWorkspaceLayout state).focusedPaneId).root ⊆ paneIds state.layout.root := by
      rw [keepFocusOut_root]
      exact hids
    have hattached : ∀ parentTabId, Shown (explorerOf state)
        (attachParentTab env (keepWorkspaceFocusOutOfExplorerSidebar result.layout
          (explorerOf state) (env.getWorkspaceLayout state).focusedPaneId) result.tabId
          parentTabId) ∧
        paneIds (attachParentTab env (keepWorkspaceFocusOutOfExplorerSidebar result.layout
          (explorerOf state) (env.getWorkspaceLayout state).focusedPaneId) result.tabId
          parentTabId).root ⊆ paneIds state.layout.root := by
      intro parentTabId
      obtain ⟨hshown, hsame⟩ := shown_attachParentTab hkept env result.tabId parentTabId
      exact ⟨hshown, by rw [hsame]; exact hkeptIds⟩
    dsimp only
    split
    · refine h.next_subset fresh ?_ rfl h.pinned
      dsimp only
      split
      · exact ⟨hkept, hkeptIds⟩
      · split
        · exact ⟨hkept, hkeptIds⟩
        · exact hattached _
    · rename_i agentId hagent
      have hnormal : normalizeWorkspaceTabTarget input.target = some (.agent agentId) := by
        rw [htarget]
        cases target <;> cases hagent
        rfl
      refine h.next_subset fresh ?_ rfl (pinned_addAgentId h hnormal input.pin)
      dsimp only
      split
      · exact ⟨hkept, hkeptIds⟩
      · split
        · exact ⟨hkept, hkeptIds⟩
        · exact hattached _

/-! ## The Explorer shown and hidden -/

/-- Splitting off an empty pane, which a workspace without an Explorer may take for it. -/
theorem splitPaneEmpty_inserted {result : WorkspaceState × String}
    (hresult : env.splitPaneEmpty state targetPaneId position = some result) :
    ∃ root, PaneInserted state.layout.root root
        (createPane env.ids.paneId [env.newTab 0] none false) ∧
      result.1.layout = withRoot (env.getWorkspaceLayout state) root (some env.ids.paneId) ∧
      result.1.explorerSidebarPaneId = state.explorerSidebarPaneId ∧
      result.1.pinnedAgentIds = state.pinnedAgentIds ∧ result.2 = env.ids.paneId := by
  obtain ⟨hlayout, hids⟩ := h.layout env
  unfold StepEnv.splitPaneEmpty at hresult
  split at hresult
  · cases hresult
  · obtain ⟨split, hsplit, rfl⟩ := Option.map_eq_some_iff.mp hresult
    obtain ⟨root, inserted, rfl⟩ := inserted_splitPaneEmptyInLayout (fresh.newTab 0) hlayout.root
      fresh.clean.paneId fresh.clean.groupId (by rw [hids]; exact fresh.unused) hsplit
    rw [show (env.getWorkspaceLayout state).root = state.layout.root from
      h.shown.root.normalizeLayout env.now env.layoutTab] at inserted
    exact ⟨root, inserted, rfl, rfl, rfl, rfl⟩

omit h in
/-- The pane id an event draws does not name the Explorer. -/
theorem FreshPane.ordinary :
    explorerOf state ≠ some env.ids.paneId := by
  intro heq
  unfold explorerOf resolveExplorerSidebarPaneId at heq
  have hmem : env.ids.paneId ∈ paneIds state.layout.root := by
    rcases Option.or_eq_some_iff.mp heq with hfound | ⟨-, hfound⟩ <;>
    · obtain ⟨pane, hpane, hid⟩ := Option.map_eq_some_iff.mp hfound
      rw [← hid]
      exact mem_paneIds (findPaneById_some hpane).1
  exact fresh.unused hmem

theorem sound_inserted {root : SplitNode} {next : WorkspaceState}
    (inserted : PaneInserted state.layout.root root
      (createPane env.ids.paneId [env.newTab 0] none false))
    (layout : next.layout = withRoot (env.getWorkspaceLayout state) root (some env.ids.paneId))
    (same : next.explorerSidebarPaneId = state.explorerSidebarPaneId)
    (pinned : next.pinnedAgentIds = state.pinnedAgentIds) : Sound next := by
  have hshown : Shown (explorerOf state)
      (withRoot (env.getWorkspaceLayout state) root (some env.ids.paneId)) :=
    inserted.shown rfl fresh.ordinary h.shown.panes.hiddenOnly
  apply h.next fresh _ _ same (pinned ▸ h.pinned)
  · rw [layout]
    exact hshown
  · rw [layout]
    exact inserted.paneIds_subset

theorem sound_splitPaneEmpty :
    Sound (((env.splitPaneEmpty state targetPaneId position).map (·.1)).getD state) := by
  cases hresult : env.splitPaneEmpty state targetPaneId position with
  | none => exact h
  | some result =>
    obtain ⟨root, inserted, hlayout, hsame, hpinned, -⟩ := splitPaneEmpty_inserted h fresh hresult
    exact sound_inserted h fresh inserted hlayout hsame hpinned

theorem sound_ensureSidePane :
    Sound (env.ensureSidePane state) := by
  obtain ⟨hlayout, hids⟩ := h.layout env
  unfold StepEnv.ensureSidePane
  dsimp only
  split
  · exact h
  · split
    · exact h
    · rename_i result hresult
      obtain ⟨root, inserted, rfl⟩ := inserted_splitWorkspaceRootRight (fresh.newTab 0)
        hlayout.root fresh.clean.paneId fresh.clean.groupId (by rw [hids]; exact fresh.unused)
        hresult
      rw [show (env.getWorkspaceLayout state).root = state.layout.root from
        h.shown.root.normalizeLayout env.now env.layoutTab] at inserted
      exact sound_inserted h fresh inserted rfl rfl rfl

omit h fresh in
/-- A state whose Explorer is registered under its own id. -/
theorem sound_registered {next : WorkspaceState} (shown : Shown (some paneId) next.layout)
    (hmem : paneId ∈ paneIds next.layout.root) (only : RegisteredOnly (some paneId) next.layout.root)
    (registered : next.explorerSidebarPaneId = some paneId)
    (pinned : ∀ agentId ∈ next.pinnedAgentIds, Trimmed agentId) : Sound next := by
  refine ⟨?_, ?_, pinned⟩
  · unfold explorerOf
    rw [registered, resolve_registered shown.root hmem]
    exact shown
  · rw [registered]
    exact only

omit fresh in
theorem explorerOf_mem (heq : explorerOf state = some paneId) :
    paneId ∈ paneIds state.layout.root ∧ RegisteredOnly (some paneId) state.layout.root := by
  have hregistered := h.only
  unfold explorerOf at heq
  by_cases hreg : ∃ r, state.explorerSidebarPaneId = some r ∧ r ∈ paneIds state.layout.root
  · obtain ⟨r, hr, hmem⟩ := hreg
    rw [hr, resolve_registered h.shown.root hmem] at heq
    cases heq
    exact ⟨hmem, hr ▸ hregistered⟩
  · rw [resolve_unregistered h.shown.root fun r hr hmem => hreg ⟨r, hr, hmem⟩] at heq
    split at heq
    · rename_i hdefault
      cases heq
      refine ⟨hdefault, ?_⟩
      rintro r hr hne
      cases hr
      exact absurd rfl hne
    · cases heq

omit h fresh in
/-- The Explorer made visible, the focus kept out of it, and its pane registered. -/
theorem shown_revealExplorer {layout : WorkspaceLayout} (h : Shown (some paneId) layout)
    (preferred : Option String) :
    Shown (some paneId) (keepWorkspaceFocusOutOfExplorerSidebar
        ((setPaneHiddenInLayout layout paneId false).getD layout) (some paneId) preferred) ∧
      paneIds (keepWorkspaceFocusOutOfExplorerSidebar
        ((setPaneHiddenInLayout layout paneId false).getD layout) (some paneId) preferred).root =
        paneIds layout.root := by
  rw [keepFocusOut_root]
  cases hshow : setPaneHiddenInLayout layout paneId false with
  | none => exact ⟨shown_keepFocusOut h.nearly preferred, rfl⟩
  | some revealed =>
    obtain ⟨hrevealed, hids⟩ := shown_showPane h hshow
    exact ⟨shown_keepFocusOut hrevealed.nearly preferred, hids⟩

theorem sound_showExplorerSidebar :
    Sound (env.showExplorerSidebar state) := by
  unfold StepEnv.showExplorerSidebar
  rw [h.explorerPaneId env]
  cases hexplorer : explorerOf state with
  | some paneId =>
    obtain ⟨hlayout, hids⟩ := h.layout env
    obtain ⟨hmem, only⟩ := explorerOf_mem h hexplorer
    rw [hexplorer] at hlayout
    obtain ⟨hshown, hsame⟩ :=
      shown_revealExplorer hlayout (env.getWorkspaceLayout state).focusedPaneId
    refine sound_registered hshown ?_ ?_ rfl h.pinned
    · rw [hsame, hids]
      exact hmem
    · intro r hr hne hin
      rw [hsame, hids] at hin
      exact only r hr hne hin
  | none =>
    dsimp only
    split
    · exact h
    · rename_i current paneId hcreated
      unfold StepEnv.createExplorerSidebarPane at hcreated
      obtain ⟨targetPaneId, -, hsplit⟩ := Option.bind_eq_some_iff.mp hcreated
      obtain ⟨root, inserted, hcurrent, -, hpinned, hpaneId⟩ :=
        splitPaneEmpty_inserted h fresh hsplit
      dsimp only at hcurrent hpinned hpaneId
      subst hpaneId
      -- nothing is hidden in a workspace without an Explorer
      have hpanes := h.shown.panes
      rw [hexplorer] at hpanes
      have hshownAs : Shown (some env.ids.paneId) current.layout := by
        rw [hcurrent]
        refine ⟨inserted.ok, ⟨?_, ?_⟩, ?_⟩
        · apply inserted.hiddenOnly rfl
          intro pane hpane hhidden
          cases hpanes.hiddenOnly pane hpane hhidden
        · obtain ⟨pane, hpane, hvisible, -⟩ := hpanes.somewhere
          obtain ⟨found, hfound, hid, hstill⟩ := inserted.visibleIn ⟨pane, hpane, rfl, hvisible⟩
          refine ⟨found, hfound, hstill, ?_⟩
          intro heq
          apply fresh.unused
          rw [Option.some.inj heq, hid]
          exact mem_paneIds hpane
        · exact focusVisible_some.mpr ⟨_, inserted.mem', rfl, rfl⟩
      have hnormal : Shown (some env.ids.paneId) (env.getWorkspaceLayout current) ∧
          paneIds (env.getWorkspaceLayout current).root = paneIds current.layout.root :=
        focusVisible_normalizeLayout hshownAs env.now env.layoutTab
      have hlayoutIds : paneIds (env.getWorkspaceLayout current).root = paneIds root := by
        rw [hnormal.2, hcurrent, withRoot_root]
      obtain ⟨hshown, hsame⟩ :=
        shown_revealExplorer hnormal.1 (env.getWorkspaceLayout current).focusedPaneId
      refine sound_registered hshown ?_ ?_ rfl (hpinned ▸ h.pinned)
      · rw [hsame]
        exact hlayoutIds ▸ mem_paneIds inserted.mem'
      · intro r hr hne hin
        rw [hsame] at hin
        rcases List.mem_cons.mp (inserted.paneIds_subset (hlayoutIds ▸ hin)) with hnew | hold
        · exact fresh.notDefault hnew.symm
        · -- a default Explorer in the tree would have been the Explorer
          have hnone : ∀ r, state.explorerSidebarPaneId = some r →
              r ∉ paneIds state.layout.root := by
            intro r hr hmem
            unfold explorerOf at hexplorer
            rw [hr, resolve_registered h.shown.root hmem] at hexplorer
            cases hexplorer
          unfold explorerOf at hexplorer
          rw [resolve_unregistered h.shown.root hnone, if_pos hold] at hexplorer
          cases hexplorer

theorem sound_hideExplorerSidebar :
    Sound (env.hideExplorerSidebar state) := by
  obtain ⟨hlayout, hids⟩ := h.layout env
  unfold StepEnv.hideExplorerSidebar
  rw [h.explorerPaneId env]
  split
  · exact h
  · rename_i next hnext
    obtain ⟨paneId, hexplorer, hhide⟩ := Option.bind_eq_some_iff.mp hnext
    rw [hexplorer] at hlayout
    obtain ⟨hshown, hsame⟩ := shown_hideExplorer hlayout hhide
    refine h.next_subset fresh ?_ rfl h.pinned
    exact ⟨by rw [hexplorer]; exact hshown, by rw [hsame, hids]; exact fun _ h => h⟩

/-! ## Closing -/

theorem shown_closedTab {tabId : String} (keeps : ¬ IsSoleNewTab (env.getWorkspaceLayout state) tabId →
      KeepsPane (explorerOf state) (env.getWorkspaceLayout state) tabId
        (closePreserve (explorerOf state))) {next : WorkspaceLayout}
    (hnext : env.closedTab state tabId = some next) :
    Shown (explorerOf state) next ∧ paneIds next.root ⊆ paneIds state.layout.root := by
  obtain ⟨hlayout, hids⟩ := h.layout env
  rw [← hids]
  unfold StepEnv.closedTab at hnext
  rw [h.explorerPaneId env] at hnext
  dsimp only at hnext
  split at hnext
  · cases hnext
  · rename_i pane hpane
    split at hnext
    · -- the new tab alone in its pane: the pane is dismissed
      split at hnext
      · rename_i hexplorer
        rw [← hexplorer] at hlayout ⊢
        obtain ⟨hshown, hsame⟩ := shown_hideExplorer hlayout hnext
        exact ⟨hshown, by rw [hsame]; exact fun _ h => h⟩
      · rename_i hordinary
        exact shown_closePaneInLayout (fresh.newTab 0) hlayout (fun heq => hordinary heq.symm) hnext
    · rename_i hnotSole
      obtain ⟨closed, hclosed, rfl⟩ := Option.map_eq_some_iff.mp hnext
      have hkeeps : KeepsPane (explorerOf state) (env.getWorkspaceLayout state) tabId
          (preservedOnClose (if pane.id = defaultPaneId ∨ some pane.id = explorerOf state then
            some pane.id else none)) := by
        intro found hfound
        obtain rfl : pane = found := by simpa [hpane] using hfound
        apply keeps _ pane hpane
        rintro ⟨other, hother, hlen, hnew⟩
        obtain rfl : pane = other := by simpa [hpane] using hother
        exact hnotSole ⟨hlen, hnew⟩
      obtain ⟨hshown, hsub⟩ := shown_closeTabInLayout (fresh.newTab 0) hlayout hkeeps hclosed
      rw [keepFocusOut_root]
      split
      · rename_i hempty
        cases hhide : setPaneHiddenInLayout closed pane.id true with
        | none => exact ⟨shown_keepFocusOut hshown.nearly _, hsub⟩
        | some hidden =>
          rw [← hempty.1] at hshown ⊢
          obtain ⟨hhidden, hsame⟩ := shown_hideExplorer hshown hhide
          exact ⟨shown_keepFocusOut hhidden.nearly _, by rw [Option.getD_some, hsame]; exact hsub⟩
      · exact ⟨shown_keepFocusOut hshown.nearly _, hsub⟩

theorem shown_closePane {next : WorkspaceLayout} (hnext : (if explorerOf state = some paneId then
      setPaneHiddenInLayout (env.getWorkspaceLayout state) paneId true
      else closePaneInLayout (env.newTab 0) (env.getWorkspaceLayout state) paneId
        (explorerOf state)) = some next) :
    Shown (explorerOf state) next ∧ paneIds next.root ⊆ paneIds state.layout.root := by
  obtain ⟨hlayout, hids⟩ := h.layout env
  rw [← hids]
  split at hnext
  · rename_i hexplorer
    rw [hexplorer] at hlayout ⊢
    obtain ⟨hshown, hsame⟩ := shown_hideExplorer hlayout hnext
    exact ⟨hshown, by rw [hsame]; exact fun _ h => h⟩
  · rename_i hordinary
    exact shown_closePaneInLayout (fresh.newTab 0) hlayout hordinary hnext

end

end Step

end Orqara.Layout
