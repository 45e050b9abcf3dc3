import Orqara.Layout.LayoutActions

/-!
# The workspace layout store

The state the store keeps for one workspace and its operations. Arguments that
are ids arrive as the user interface gives them and are trimmed first. Ids that
the source draws at random come with the event that uses them.
-/

namespace Orqara.Layout

/-- What one event draws at random. -/
structure FreshIds where
  /-- `createNodeId("pane")` -/
  paneId : String
  /-- `createNodeId("group")` -/
  groupId : String
  /-- `createWorkspaceTabInstanceId()` -/
  tabInstanceId : String
  /-- `generateDraftId()` -/
  draftId : String
  /-- `createFocusRestorationToken()` -/
  focusRestorationToken : String
  /-- The tab of a default layout. -/
  layoutTabId : String
  /-- The tabs that `createNewWorkspaceTab` makes, one after another. -/
  newTabId : ℕ → String
  /-- The tabs made for panes found empty. -/
  paneTabId : String → String

/-- What an event finds around it. -/
structure StepEnv where
  now : ℕ
  ids : FreshIds
  /-- `pluginPanelSupportsLocation` for the plugins registered at the time. -/
  pluginSupportsHost : WorkspaceTabTarget → PaneHost → Bool

def StepEnv.createNewWorkspaceTab (env : StepEnv) (tabId : String) : WorkspaceTab :=
  { tabId, target := .newTab, createdAt := env.now, state := none }

def StepEnv.newTab (env : StepEnv) (n : ℕ) : WorkspaceTab :=
  env.createNewWorkspaceTab (env.ids.newTabId n)

def StepEnv.layoutTab (env : StepEnv) : WorkspaceTab :=
  env.createNewWorkspaceTab env.ids.layoutTabId

def StepEnv.paneTab (env : StepEnv) (paneId : String) : WorkspaceTab :=
  env.createNewWorkspaceTab (env.ids.paneTabId paneId)

structure WorkspaceFocusRestorationState where
  restorePaneId : Option String
  tokens : List String

/-- The entries of the store for one workspace. -/
structure WorkspaceState where
  layout : WorkspaceLayout
  pinnedAgentIds : List String
  pendingAgentIds : List String
  hiddenAgentIds : List String
  focusRestoration : Option WorkspaceFocusRestorationState
  explorerSidebarPaneId : Option String
  sidePaneId : Option String

/-- Placing split levels deeper than this is refused. -/
def maxTreeDepth : ℕ := 5

inductive WorkspaceTabOpenIntent
  | new
  | reveal
  | background
  deriving DecidableEq

structure OpenWorkspaceTabInput where
  target : WorkspaceTabTarget
  intent : WorkspaceTabOpenIntent
  pin : Bool
  placement : Option WorkspaceTabPlacement
  parentTabId : Option String
  state : Option Json

/-- What the daemon reports about agents and terminals. -/
structure WorkspaceTabSnapshot where
  agentsHydrated : Bool
  terminalsHydrated : Bool
  activeAgentIds : List String
  autoOpenAgentIds : List String
  knownAgentIds : List String
  knownTerminalIds : Option (List String)
  standaloneTerminalIds : List String
  hasActivePendingTerminalCreate : Bool
  hasActivePendingDraftCreate : Bool

/-! ## The Explorer pane -/

def resolveExplorerSidebarPaneId (layout : WorkspaceLayout) (registeredPaneId : Option String) :
    Option String :=
  ((findPaneById layout.root registeredPaneId).map (·.id)).or
    ((findPaneById layout.root (some explorerSidebarPaneIdLiteral)).map (·.id))

/-- Focus in the Explorer moves to an ordinary pane. -/
def keepWorkspaceFocusOutOfExplorerSidebar (layout : WorkspaceLayout)
    (explorerSidebarPaneId preferredMainPaneId : Option String) : WorkspaceLayout :=
  if explorerSidebarPaneId.isNone ∨ layout.focusedPaneId ≠ explorerSidebarPaneId then layout
  else
    let ordinary := (collectAllPanes layout.root).filter fun pane =>
      some pane.id != explorerSidebarPaneId
    let mainPane := ((ordinary.find? fun pane => some pane.id == preferredMainPaneId).or
      (ordinary.find? fun pane => pane.id == defaultPaneId)).or ordinary.head?
    { layout with focusedPaneId := mainPane.map (·.id) }

def attachParentTab (env : StepEnv) (layout : WorkspaceLayout) (childTabId parentTabId : String) :
    WorkspaceLayout :=
  match trimNonEmpty childTabId, trimNonEmpty parentTabId with
  | some child, some parent =>
    if child = parent ∨ child ∉ openTabIds layout.root ∨ parent ∉ openTabIds layout.root then
      normalizeLayout env.now env.layoutTab layout
    else
      normalizeLayout env.now env.layoutTab
        { layout with parentTabIdByTabId := setParent layout.parentTabIdByTabId child parent }
  | _, _ => normalizeLayout env.now env.layoutTab layout

namespace StepEnv

def panelTargetSupportsHost (env : StepEnv) (target : WorkspaceTabTarget) (host : PaneHost) :
    Bool :=
  if target.kind ≠ .plugin then panelSupportsHost target.kind host
  else env.pluginSupportsHost target host

def getWorkspaceLayout (env : StepEnv) (state : WorkspaceState) : WorkspaceLayout :=
  normalizeLayout env.now env.layoutTab state.layout

/-- The Explorer pane of the state's layout. -/
def explorerPaneId (env : StepEnv) (state : WorkspaceState) : Option String :=
  resolveExplorerSidebarPaneId (env.getWorkspaceLayout state) state.explorerSidebarPaneId

def getOpenTabPlacement (env : StepEnv) (state : WorkspaceState) (target : WorkspaceTabTarget)
    (placement : Option WorkspaceTabPlacement) : WorkspaceTabPlacement :=
  let layout := env.getWorkspaceLayout state
  let requestedPlacement := placement.getD .ambient
  let supportsPane := fun pane =>
    env.panelTargetSupportsHost target (paneHost (env.explorerPaneId state) pane)
  let requestedPaneId :=
    match requestedPlacement with
    | .pane paneId | .prefer paneId => some paneId
    | _ => layout.focusedPaneId
  let requestedPane := findPaneById layout.root requestedPaneId
  match requestedPane.filter supportsPane, (collectAllPanes layout.root).find? supportsPane with
  | none, some fallbackPane =>
    match requestedPlacement with
    | .pane _ => .pane fallbackPane.id
    | _ => .prefer fallbackPane.id
  | _, _ => requestedPlacement

end StepEnv

/-- A remembered side pane that has left the tree is forgotten. -/
def reconcileRememberedSidePane (state : WorkspaceState) (layout : WorkspaceLayout) :
    Option String :=
  if state.sidePaneId.isSome ∧ (findPaneById layout.root state.sidePaneId).isNone then none
  else state.sidePaneId

/-! ## Reconciliation with the daemon's snapshot -/

/-- The values of a set, in the order of their first appearance. -/
def normalizeStringSet (values : List String) : List String :=
  (values.filterMap trimNonEmpty).eraseDups

def applyPinnedAndHidden (baseAgentIds pinned pending hidden known : List String) : List String :=
  (baseAgentIds ++ pinned.filter fun agentId =>
    agentId ∉ baseAgentIds ∧ (agentId ∈ known ∨ agentId ∈ pending)).filter (· ∉ hidden)

def agentIdOf : WorkspaceTabTarget → Option String
  | .agent agentId => some agentId
  | _ => none

def terminalIdOf : WorkspaceTabTarget → Option String
  | .terminal terminalId => some terminalId
  | _ => none

structure EntityTabGroup where
  canonicalTabId : String
  target : WorkspaceTabTarget
  tabs : List WorkspaceTab

/-- The agent and terminal tabs by the id their target gives. -/
def buildEntityTabGroups (initialTabs : List WorkspaceTab) : List EntityTabGroup :=
  initialTabs.foldl (fun groups tab =>
    if tab.target.kind ≠ .agent ∧ tab.target.kind ≠ .terminal then groups
    else
      match normalizeWorkspaceTabTarget tab.target with
      | none => groups
      | some target =>
        match buildDeterministicWorkspaceTabId target with
        | none => groups
        | some canonicalTabId =>
          if groups.any (·.canonicalTabId == canonicalTabId) then
            groups.map fun group =>
              if group.canonicalTabId = canonicalTabId then
                { group with tabs := group.tabs ++ [tab] }
              else group
          else groups ++ [{ canonicalTabId, target, tabs := [tab] }]) []

/-- Tabs closed one after another; the number counts the new tabs made so far. -/
def closeTabsInLayout (env : StepEnv) : WorkspaceLayout × ℕ → List String → WorkspaceLayout × ℕ
  | current, [] => current
  | (layout, made), tabId :: tabIds =>
    closeTabsInLayout env
      ((closeTabInLayout (env.newTab made) layout tabId none).getD layout, made + 1) tabIds

/-- The tab of a group that stays. -/
def EntityTabGroup.keeper (group : EntityTabGroup) : Option WorkspaceTab :=
  (group.tabs.find? (·.tabId == group.canonicalTabId)).or group.tabs.head?

/-- The tabs of a group that go. -/
def EntityTabGroup.duplicates (group : EntityTabGroup) (keeper : WorkspaceTab) : List String :=
  (group.tabs.map (·.tabId)).filter (· != keeper.tabId)

/-- The keeper takes the normal form of the target. -/
def retargetKeeper (layout : WorkspaceLayout) (group : EntityTabGroup) (keeper : WorkspaceTab) :
    WorkspaceLayout :=
  if workspaceTabTargetsEqual keeper.target group.target then layout
  else
    withRoot layout (replaceTabInTree layout.root keeper.tabId keeper.tabId group.target none)
      layout.focusedPaneId

def collapseDuplicateEntityTabs (env : StepEnv) :
    WorkspaceLayout × ℕ → List EntityTabGroup → WorkspaceLayout × ℕ
  | current, [] => current
  | (layout, made), group :: groups =>
    match group.keeper with
    | none => collapseDuplicateEntityTabs env (layout, made) groups
    | some keeper =>
      collapseDuplicateEntityTabs env
        (closeTabsInLayout env (retargetKeeper layout group keeper, made)
          (group.duplicates keeper)) groups

/-- The ids in a snapshot, with what the user pinned and hid. -/
structure SnapshotIds where
  activeAgentIds : List String
  visibleAgentIds : List String
  autoOpenSet : List String
  standaloneTerminalIds : List String
  knownTerminalIds : List String

def snapshotIds (state : WorkspaceState) (snapshot : WorkspaceTabSnapshot) : SnapshotIds :=
  let activeAgentIds := normalizeStringSet snapshot.activeAgentIds
  let knownAgentIds := normalizeStringSet snapshot.knownAgentIds
  let standaloneTerminalIds := normalizeStringSet snapshot.standaloneTerminalIds
  let pinnedAndHidden := fun base =>
    applyPinnedAndHidden base state.pinnedAgentIds state.pendingAgentIds state.hiddenAgentIds
      knownAgentIds
  { activeAgentIds
    visibleAgentIds := pinnedAndHidden activeAgentIds
    autoOpenSet := pinnedAndHidden (normalizeStringSet snapshot.autoOpenAgentIds)
    standaloneTerminalIds
    knownTerminalIds :=
      (snapshot.knownTerminalIds.map normalizeStringSet).getD standaloneTerminalIds }

/-- A tab whose agent or terminal the daemon no longer reports. -/
def isStaleEntityTab (snapshot : WorkspaceTabSnapshot) (ids : SnapshotIds) (tab : WorkspaceTab) :
    Bool :=
  match tab.target with
  | .agent agentId => snapshot.agentsHydrated && agentId ∉ ids.visibleAgentIds
  | .terminal terminalId => snapshot.terminalsHydrated && terminalId ∉ ids.knownTerminalIds
  | _ => false

def staleEntityTabIds (layout : WorkspaceLayout) (snapshot : WorkspaceTabSnapshot)
    (ids : SnapshotIds) : List String :=
  ((collectAllTabs layout.root).filter (isStaleEntityTab snapshot ids)).map (·.tabId)

def collapseStaleEntityTabs (env : StepEnv) (current : WorkspaceLayout × ℕ)
    (snapshot : WorkspaceTabSnapshot) (ids : SnapshotIds) : WorkspaceLayout :=
  (closeTabsInLayout env current (staleEntityTabIds current.1 snapshot ids)).1

def openEntityTabWithoutFocusing (env : StepEnv) (explorerSidebarPaneId : Option String)
    (layout : WorkspaceLayout) (target : WorkspaceTabTarget) : WorkspaceLayout :=
  ((insertNewTabIntoPane layout target env.now .ambient explorerSidebarPaneId
    (buildDeterministicWorkspaceTabId target) none false).map (·.layout)).getD layout

/-- The targets that are not open yet, each opened once. -/
def openMissingEntityTabs (env : StepEnv) (explorerSidebarPaneId : Option String) :
    WorkspaceLayout → List WorkspaceTabTarget → List WorkspaceTabTarget → WorkspaceLayout
  | layout, _, [] => layout
  | layout, current, target :: targets =>
    if target ∈ current then openMissingEntityTabs env explorerSidebarPaneId layout current targets
    else
      openMissingEntityTabs env explorerSidebarPaneId
        (openEntityTabWithoutFocusing env explorerSidebarPaneId layout target)
        (target :: current) targets

/-- The agents and terminals to open, in order. -/
def missingEntityTargets (snapshot : WorkspaceTabSnapshot) (ids : SnapshotIds)
    (representedAgentIds : List String) : List WorkspaceTabTarget :=
  let agentIds := (ids.autoOpenSet.insertionSort fun s t => codeUnitLE s t).filter fun agentId =>
    ¬ (snapshot.hasActivePendingDraftCreate ∧ agentId ∉ representedAgentIds)
  let terminalIds := if snapshot.hasActivePendingTerminalCreate then []
    else ids.standaloneTerminalIds.insertionSort fun s t => codeUnitLE s t
  agentIds.map .agent ++ terminalIds.map .terminal

def addMissingEntityTabs (env : StepEnv) (explorerSidebarPaneId : Option String)
    (layout : WorkspaceLayout) (targets : List WorkspaceTabTarget) : WorkspaceLayout :=
  openMissingEntityTabs env explorerSidebarPaneId layout
    ((collectAllTabs layout.root).map (·.target)) targets

def seedDraftForEmptyWorkspace (env : StepEnv) (explorerSidebarPaneId : Option String)
    (layout : WorkspaceLayout) (snapshot : WorkspaceTabSnapshot) (ids : SnapshotIds) :
    WorkspaceLayout :=
  let ready := snapshot.agentsHydrated && snapshot.terminalsHydrated
  let creatingContent :=
    snapshot.hasActivePendingDraftCreate || snapshot.hasActivePendingTerminalCreate
  let hasWorkspaceEntities := !ids.activeAgentIds.isEmpty || !ids.knownTerminalIds.isEmpty
  let explorerTabIds :=
    ((findPaneById layout.root explorerSidebarPaneId).map (·.tabIds)).getD []
  let hasContentTab := (collectAllTabs layout.root).any fun tab =>
    tab.target.kind ≠ .newTab ∧ tab.tabId ∉ explorerTabIds
  if !ready || creatingContent || hasWorkspaceEntities || hasContentTab then layout
  else
    ((createTabInLayout layout (.draft env.ids.draftId none) env.now .focused
      explorerSidebarPaneId (some env.ids.draftId) none).map (·.layout)).getD layout

/-- The layout after duplicate tabs of one agent or terminal are closed. -/
def reconcileDuplicates (env : StepEnv) (layout : WorkspaceLayout) : WorkspaceLayout × ℕ :=
  collapseDuplicateEntityTabs env (layout, 0) (buildEntityTabGroups (collectAllTabs layout.root))

/-- The tab that keeps the focus. -/
def reconciledFocusedTabId (layout : WorkspaceLayout) : Option String :=
  let original := (findPaneById layout.root layout.focusedPaneId).bind (·.focusedTabId)
  (buildEntityTabGroups (collectAllTabs layout.root)).foldl (fun focused group =>
    match group.keeper with
    | none => focused
    | some keeper =>
      if group.tabs.any fun tab => some tab.tabId == original then some keeper.tabId
      else focused) original

def reconcileWorkspaceTabs (env : StepEnv) (state : WorkspaceState) (layout : WorkspaceLayout)
    (explorerSidebarPaneId : Option String) (snapshot : WorkspaceTabSnapshot) : WorkspaceLayout :=
  let ids := snapshotIds state snapshot
  let represented := (collectAllTabs layout.root).filterMap fun tab => agentIdOf tab.target
  let live := collapseStaleEntityTabs env (reconcileDuplicates env layout) snapshot ids
  let full := addMissingEntityTabs env explorerSidebarPaneId live
    (missingEntityTargets snapshot ids represented)
  let seeded := seedDraftForEmptyWorkspace env explorerSidebarPaneId full snapshot ids
  ((reconciledFocusedTabId layout).bind (focusTabInLayout seeded)).getD seeded

/-! ## Operations -/

inductive Operation
  | openTab (input : OpenWorkspaceTabInput)
  | showExplorerSidebar
  | hideExplorerSidebar
  | ensureSidePane
  | closeTab (tabId : String)
  | focusTab (tabId : String)
  | selectTabInPane (paneId tabId : String)
  | replaceTab (tabId : String) (target : WorkspaceTabTarget) (state : Option Json)
  | setTabState (tabId : String) (state : Option Json)
  | convertDraftToAgent (tabId agentId : String)
  | reconcileTabs (snapshot : WorkspaceTabSnapshot)
  | resolvePendingAgent (agentId : String)
  | reorderTabs (tabIds : List String)
  | reorderTabsInPane (paneId : String) (tabIds : List String)
  | splitPane (tabId targetPaneId : String) (position : SplitPosition)
  | splitPaneEmpty (targetPaneId : String) (position : SplitPosition)
  | moveTabToPane (tabId toPaneId : String)
  | closePane (paneId : String)
  | focusPane (paneId : String)
  | unfocusPane
  | restorePaneFocus (token : String)
  | unpinAgent (agentId : String)
  | hideAgent (agentId : String)
  | unhideAgent (agentId : String)

/-- `addAgentIdToWorkspaceSet`. -/
def addAgentId (agentIds : List String) (agentId : String) : List String :=
  if agentId ∈ agentIds then agentIds else agentIds ++ [agentId]

/-- `removeAgentIdFromWorkspaceSet`. -/
def removeAgentId (agentIds : List String) (agentId : String) : List String :=
  agentIds.filter (· != agentId)

namespace StepEnv

variable (env : StepEnv) (state : WorkspaceState)

/-- The layout an open leads to, and the id of the tab. -/
def openedTab (target : WorkspaceTabTarget) (input : OpenWorkspaceTabInput) :
    Option OpenTabInLayoutResult :=
  let layout := env.getWorkspaceLayout state
  let explorerSidebarPaneId := env.explorerPaneId state
  let placement := env.getOpenTabPlacement state target input.placement
  match input.intent with
  | .new =>
    createTabInLayout layout target env.now placement explorerSidebarPaneId
      (some env.ids.tabInstanceId) input.state
  | .background =>
    openTabInLayoutBackground layout target env.now placement explorerSidebarPaneId
  | .reveal =>
    revealTargetInLayout (env.newTab 0) layout target env.now placement explorerSidebarPaneId

def openTab (target : WorkspaceTabTarget) (input : OpenWorkspaceTabInput) : WorkspaceState :=
  match env.openedTab state target input with
  | none => state
  | some result =>
    let nextLayout := keepWorkspaceFocusOutOfExplorerSidebar result.layout
      (env.explorerPaneId state) (env.getWorkspaceLayout state).focusedPaneId
    let layout :=
      match input.parentTabId with
      | none => nextLayout
      | some parentTabId =>
        if parentTabId = "" then nextLayout
        else attachParentTab env nextLayout result.tabId parentTabId
    match agentIdOf target with
    | none => { state with layout, focusRestoration := none }
    | some agentId =>
      { state with
        layout
        focusRestoration := none
        hiddenAgentIds := removeAgentId state.hiddenAgentIds agentId
        pinnedAgentIds := if input.pin then addAgentId state.pinnedAgentIds agentId
          else state.pinnedAgentIds
        pendingAgentIds := if input.pin then addAgentId state.pendingAgentIds agentId
          else state.pendingAgentIds }

def splitPaneEmpty (targetPaneId : String) (position : SplitPosition) :
    Option (WorkspaceState × String) :=
  if some targetPaneId = env.explorerPaneId state then none
  else
    (splitPaneEmptyInLayout (env.newTab 0) (env.getWorkspaceLayout state) targetPaneId position
      env.ids.paneId env.ids.groupId maxTreeDepth).map fun result =>
      ({ state with layout := result.layout, focusRestoration := none }, result.paneId)

/-- An Explorer split out of the pane the user is in. -/
def createExplorerSidebarPane : Option (WorkspaceState × String) :=
  let layout := env.getWorkspaceLayout state
  let targetPaneId := ((findPaneById layout.root layout.focusedPaneId).map (·.id)).or
    ((collectAllPanes layout.root).head?.map (·.id))
  (targetPaneId.bind trimNonEmpty).bind fun targetPaneId =>
    env.splitPaneEmpty state targetPaneId .right

def showExplorerSidebar : WorkspaceState :=
  let found :=
    match env.explorerPaneId state with
    | some paneId => some (state, paneId)
    | none => env.createExplorerSidebarPane state
  match found with
  | none => state
  | some (current, paneId) =>
    let currentLayout := env.getWorkspaceLayout current
    let revealedLayout := (setPaneHiddenInLayout currentLayout paneId false).getD currentLayout
    { current with
      layout := keepWorkspaceFocusOutOfExplorerSidebar revealedLayout (some paneId)
        currentLayout.focusedPaneId
      explorerSidebarPaneId := some paneId }

def hideExplorerSidebar : WorkspaceState :=
  match (env.explorerPaneId state).bind fun paneId =>
      setPaneHiddenInLayout (env.getWorkspaceLayout state) paneId true with
  | none => state
  | some layout => { state with layout }

def ensureSidePane : WorkspaceState :=
  let layout := env.getWorkspaceLayout state
  let rememberedPane := findPaneById layout.root (state.sidePaneId.bind trimNonEmpty)
  if rememberedPane.any fun pane => some pane.id != env.explorerPaneId state then state
  else
    match splitWorkspaceRootRightInLayout (env.newTab 0) layout env.ids.paneId env.ids.groupId
        maxTreeDepth with
    | none => state
    | some result =>
      { state with
        layout := result.layout
        focusRestoration := none
        sidePaneId := some result.paneId }

/-- The layout after a tab is closed. -/
def closedTab (tabId : String) : Option WorkspaceLayout :=
  let layout := env.getWorkspaceLayout state
  let explorerSidebarPaneId := env.explorerPaneId state
  match findPaneContainingTab layout.root tabId with
  | none => none
  | some closingPane =>
    let closingTab := (collectAllTabs layout.root).find? (·.tabId == tabId)
    if closingPane.tabIds.length = 1 ∧ closingTab.any isNewTab then
      if some closingPane.id = explorerSidebarPaneId then
        setPaneHiddenInLayout layout closingPane.id true
      else closePaneInLayout (env.newTab 0) layout closingPane.id explorerSidebarPaneId
    else
      let preserveEmptyPaneId :=
        if closingPane.id = defaultPaneId ∨ some closingPane.id = explorerSidebarPaneId then
          some closingPane.id else none
      (closeTabInLayout (env.newTab 0) layout tabId preserveEmptyPaneId).map fun closedLayout =>
        let nextLayout :=
          if some closingPane.id = explorerSidebarPaneId ∧ closingPane.tabIds.length = 1 then
            (setPaneHiddenInLayout closedLayout closingPane.id true).getD closedLayout
          else closedLayout
        keepWorkspaceFocusOutOfExplorerSidebar nextLayout explorerSidebarPaneId
          layout.focusedPaneId

def closeTab (tabId : String) : WorkspaceState :=
  match env.closedTab state tabId with
  | none => state
  | some layout =>
    { state with
      layout
      focusRestoration := none
      sidePaneId := reconcileRememberedSidePane state layout }

def focusTab (tabId : String) : WorkspaceState :=
  let layout := env.getWorkspaceLayout state
  let nextLayout :=
    match env.explorerPaneId state with
    | none => focusTabInLayout layout tabId
    | some explorerSidebarPaneId =>
      if (findPaneContainingTab layout.root tabId).map (·.id) = some explorerSidebarPaneId then
        let revealedLayout :=
          (setPaneHiddenInLayout layout explorerSidebarPaneId false).getD layout
        some ((selectTabInPaneInLayout revealedLayout explorerSidebarPaneId tabId).getD
          revealedLayout)
      else focusTabInLayout layout tabId
  match nextLayout with
  | none => state
  | some layout => { state with layout, focusRestoration := none }

def selectTabInPane (paneId tabId : String) : WorkspaceState :=
  match selectTabInPaneInLayout (env.getWorkspaceLayout state) paneId tabId with
  | none => state
  | some layout => { state with layout }

def replaceTab (tabId : String) (target : WorkspaceTabTarget) (tabState : Option Json) :
    WorkspaceState :=
  match replaceTabTargetInLayout (env.getWorkspaceLayout state) tabId target
      env.ids.tabInstanceId tabState with
  | none => state
  | some layout =>
    { state with
      layout
      focusRestoration := none
      hiddenAgentIds :=
        match agentIdOf target with
        | none => state.hiddenAgentIds
        | some agentId => removeAgentId state.hiddenAgentIds agentId }

def setTabState (tabId : String) (tabState : Option Json) : WorkspaceState :=
  match setTabStateInLayout (env.getWorkspaceLayout state) tabId tabState with
  | none => state
  | some layout => { state with layout }

def convertDraftToAgent (tabId agentId : String) : WorkspaceState :=
  match convertDraftToAgentInLayout (env.newTab 0) (env.getWorkspaceLayout state) tabId agentId with
  | none => state
  | some layout =>
    { state with
      layout
      focusRestoration := if layout.focusedPaneId.isSome then none else state.focusRestoration
      hiddenAgentIds := removeAgentId state.hiddenAgentIds agentId }

/-- The layout that reconciliation starts from. -/
def reconcileInput : WorkspaceLayout :=
  let rawLayout := env.getWorkspaceLayout state
  keepWorkspaceFocusOutOfExplorerSidebar rawLayout (env.explorerPaneId state)
    rawLayout.focusedPaneId

def reconcileTabs (snapshot : WorkspaceTabSnapshot) : WorkspaceState :=
  let currentLayout := env.reconcileInput state
  let explorerSidebarPaneId := env.explorerPaneId state
  { state with
    layout := keepWorkspaceFocusOutOfExplorerSidebar
      (reconcileWorkspaceTabs env state currentLayout explorerSidebarPaneId snapshot)
      explorerSidebarPaneId currentLayout.focusedPaneId }

def resolvePendingAgent (agentId : String) : WorkspaceState :=
  { state with pendingAgentIds := removeAgentId state.pendingAgentIds agentId }

def reorderTabs (tabIds : List String) : WorkspaceState :=
  match reorderFocusedPaneTabsInLayout (env.getWorkspaceLayout state) tabIds with
  | none => state
  | some layout => { state with layout }

def reorderTabsInPane (paneId : String) (tabIds : List String) : WorkspaceState :=
  match reorderPaneTabsInLayout (env.getWorkspaceLayout state) paneId tabIds with
  | none => state
  | some layout => { state with layout, focusRestoration := none }

def splitPane (tabId targetPaneId : String) (position : SplitPosition) : WorkspaceState :=
  let layout := env.getWorkspaceLayout state
  let movingTab := (collectAllTabs layout.root).find? (·.tabId == tabId)
  if some targetPaneId = env.explorerPaneId state ∨
      ¬ movingTab.any fun tab => env.panelTargetSupportsHost tab.target .main then state
  else
    match splitPaneInLayout (env.newTab 0) layout tabId targetPaneId position env.ids.paneId
        env.ids.groupId maxTreeDepth with
    | none => state
    | some result => { state with layout := result.layout, focusRestoration := none }

/-- The layout after a tab is moved. -/
def movedTab (tabId toPaneId : String) : Option WorkspaceLayout :=
  let layout := env.getWorkspaceLayout state
  let explorerSidebarPaneId := env.explorerPaneId state
  let movingTab := (collectAllTabs layout.root).find? (·.tabId == tabId)
  let destinationHost := if some toPaneId = explorerSidebarPaneId then PaneHost.explorer else .main
  if ¬ movingTab.any fun tab => env.panelTargetSupportsHost tab.target destinationHost then none
  else
    (moveTabToPaneInLayout (env.newTab 0) layout tabId toPaneId explorerSidebarPaneId).map
      fun nextLayout =>
        let restoredLayout :=
          if some toPaneId = explorerSidebarPaneId then
            restoreEmptyPanesInLayout env.now env.layoutTab env.paneTab nextLayout
              explorerSidebarPaneId
          else nextLayout
        keepWorkspaceFocusOutOfExplorerSidebar restoredLayout explorerSidebarPaneId
          layout.focusedPaneId

def moveTabToPane (tabId toPaneId : String) : WorkspaceState :=
  match env.movedTab state tabId toPaneId with
  | none => state
  | some layout =>
    { state with
      layout
      focusRestoration := none
      sidePaneId := reconcileRememberedSidePane state layout }

def closePane (paneId : String) : WorkspaceState :=
  let layout := env.getWorkspaceLayout state
  let explorerSidebarPaneId := env.explorerPaneId state
  let nextLayout :=
    if explorerSidebarPaneId = some paneId then setPaneHiddenInLayout layout paneId true
    else closePaneInLayout (env.newTab 0) layout paneId explorerSidebarPaneId
  match nextLayout with
  | none => state
  | some layout =>
    { state with
      layout
      focusRestoration := none
      sidePaneId := if state.sidePaneId = some paneId then none else state.sidePaneId }

def focusPane (paneId : String) : WorkspaceState :=
  if some paneId = env.explorerPaneId state then state
  else
    match focusPaneInLayout (env.getWorkspaceLayout state) paneId with
    | none => state
    | some layout => { state with layout, focusRestoration := none }

def unfocusPane : WorkspaceState :=
  let layout := env.getWorkspaceLayout state
  { state with
    layout := { layout with focusedPaneId := none }
    focusRestoration := some
      { restorePaneId := (state.focusRestoration.bind (·.restorePaneId)).or layout.focusedPaneId
        tokens := ((state.focusRestoration.map (·.tokens)).getD []) ++
          [env.ids.focusRestorationToken] } }

def restorePaneFocus (token : String) : WorkspaceState :=
  match state.focusRestoration with
  | none => state
  | some restoration =>
    if token ∉ restoration.tokens then state
    else
      let nextTokens := restoration.tokens.filter (· != token)
      let layout := env.getWorkspaceLayout state
      if layout.focusedPaneId.isSome then { state with focusRestoration := none }
      else if nextTokens ≠ [] then
        { state with focusRestoration := some { restoration with tokens := nextTokens } }
      else
        match (findPaneById layout.root restoration.restorePaneId).filter (!·.hidden) with
        | none => { state with focusRestoration := none }
        | some restorePane =>
          { state with
            layout := { layout with focusedPaneId := some restorePane.id }
            focusRestoration := none }

def unpinAgent (agentId : String) : WorkspaceState :=
  if agentId ∉ state.pinnedAgentIds then state
  else
    { state with
      pinnedAgentIds := removeAgentId state.pinnedAgentIds agentId
      pendingAgentIds := removeAgentId state.pendingAgentIds agentId }

def hideAgent (agentId : String) : WorkspaceState :=
  { state with hiddenAgentIds := addAgentId state.hiddenAgentIds agentId }

def unhideAgent (agentId : String) : WorkspaceState :=
  { state with hiddenAgentIds := removeAgentId state.hiddenAgentIds agentId }

/-- An operation on one trimmed id; an id that is empty leaves the state alone. -/
def withId (raw : String) (op : String → WorkspaceState) : WorkspaceState :=
  match trimNonEmpty raw with
  | none => state
  | some id => op id

/-- An operation on a normal target. -/
def withTarget (raw : WorkspaceTabTarget) (op : WorkspaceTabTarget → WorkspaceState) :
    WorkspaceState :=
  match normalizeWorkspaceTabTarget raw with
  | none => state
  | some target => op target

/-- One call of the store. -/
def step : Operation → WorkspaceState
  | .openTab input => withTarget state input.target fun target => env.openTab state target input
  | .showExplorerSidebar => env.showExplorerSidebar state
  | .hideExplorerSidebar => env.hideExplorerSidebar state
  | .ensureSidePane => env.ensureSidePane state
  | .closeTab tabId => withId state tabId (env.closeTab state)
  | .focusTab tabId => withId state tabId (env.focusTab state)
  | .selectTabInPane paneId tabId =>
    withId state paneId fun paneId => withId state tabId (env.selectTabInPane state paneId)
  | .replaceTab tabId target tabState =>
    withId state tabId fun tabId =>
      withTarget state target fun target => env.replaceTab state tabId target tabState
  | .setTabState tabId tabState =>
    withId state tabId fun tabId => env.setTabState state tabId tabState
  | .convertDraftToAgent tabId agentId =>
    withId state tabId fun tabId => withId state agentId (env.convertDraftToAgent state tabId)
  | .reconcileTabs snapshot => env.reconcileTabs state snapshot
  | .resolvePendingAgent agentId => withId state agentId (resolvePendingAgent state)
  | .reorderTabs tabIds => env.reorderTabs state tabIds
  | .reorderTabsInPane paneId tabIds =>
    withId state paneId fun paneId => env.reorderTabsInPane state paneId tabIds
  | .splitPane tabId targetPaneId position =>
    withId state tabId fun tabId =>
      withId state targetPaneId fun targetPaneId => env.splitPane state tabId targetPaneId position
  | .splitPaneEmpty targetPaneId position =>
    withId state targetPaneId fun targetPaneId =>
      ((env.splitPaneEmpty state targetPaneId position).map (·.1)).getD state
  | .moveTabToPane tabId toPaneId =>
    withId state tabId fun tabId => withId state toPaneId (env.moveTabToPane state tabId)
  | .closePane paneId => withId state paneId (env.closePane state)
  | .focusPane paneId => withId state paneId (env.focusPane state)
  | .unfocusPane => env.unfocusPane state
  | .restorePaneFocus token => withId state token (env.restorePaneFocus state)
  | .unpinAgent agentId => withId state agentId (unpinAgent state)
  | .hideAgent agentId => withId state agentId (hideAgent state)
  | .unhideAgent agentId => withId state agentId (unhideAgent state)

end StepEnv

/-- The store before the first operation on the workspace. -/
def initialState (now : ℕ) (newTab : WorkspaceTab) : WorkspaceState :=
  { layout := createWorkspaceLayoutWithExplorerSidebar now newTab
    pinnedAgentIds := []
    pendingAgentIds := []
    hiddenAgentIds := []
    focusRestoration := none
    explorerSidebarPaneId := none
    sidePaneId := none }

/-- The state after a sequence of operations, each in its own surroundings. -/
def runFrom : WorkspaceState → List (StepEnv × Operation) → WorkspaceState
  | state, [] => state
  | state, (env, op) :: events => runFrom (env.step state op) events

end Orqara.Layout
