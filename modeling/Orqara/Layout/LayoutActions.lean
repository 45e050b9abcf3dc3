import Orqara.Layout.WorkspaceTabs
import Orqara.Library.SplitTree

/-!
# Layout actions

The split tree of a workspace and the functions that edit it. The sizes of a
group are left out: nothing here reads them. Where the source stops with a failed
invariant (a path that does not lead to a pane, a pane that is not found) the
tree is returned as it is; the paths come from a search of the same tree, so the
case does not occur.
-/

namespace Orqara.Layout

/-- A pane. Its `tabIds` are those of its tabs. -/
structure SplitPane where
  id : String
  tabs : List WorkspaceTab
  focusedTabId : Option String
  hidden : Bool
  deriving DecidableEq

def SplitPane.tabIds (pane : SplitPane) : List String :=
  pane.tabs.map (·.tabId)

inductive SplitDirection
  | horizontal
  | vertical
  deriving DecidableEq

inductive SplitPosition
  | left
  | right
  | top
  | bottom
  deriving DecidableEq

structure SplitGroup where
  id : String
  direction : SplitDirection
  deriving DecidableEq

abbrev SplitNode := SplitTree SplitGroup SplitPane

abbrev paneNode (pane : SplitPane) : SplitNode := SplitTree.leaf pane

abbrev groupNode (id : String) (direction : SplitDirection) (children : List SplitNode) :
    SplitNode :=
  SplitTree.node { id, direction } children

/-- `parentTabIdByTabId` lists its entries; no entry stands for no map. -/
structure WorkspaceLayout where
  root : SplitNode
  focusedPaneId : Option String
  parentTabIdByTabId : List (String × String)

inductive WorkspaceTabPlacement
  | pane (paneId : String)
  | prefer (paneId : String)
  | focused
  | ambient
  deriving DecidableEq

def defaultPaneId : String := "main"

def explorerSidebarPaneIdLiteral : String := "explorer"

def defaultLayoutGroupId : String := "workspace-root"

/-! ## Panes -/

def isNewTab (tab : WorkspaceTab) : Bool :=
  tab.target.kind == .newTab

def normalizeWorkspaceTab (tab : WorkspaceTab) : Option WorkspaceTab :=
  match normalizeWorkspaceTabTarget tab.target with
  | none => none
  | some target =>
    match (trimNonEmpty tab.tabId).or (buildDeterministicWorkspaceTabId target) with
    | none => none
    | some tabId => some { tab with tabId, target }

/-- The valid tabs whose ids have not been seen. -/
def normalizeTabsFrom (seen : List String) : List WorkspaceTab → List WorkspaceTab
  | [] => []
  | value :: values =>
    match normalizeWorkspaceTab value with
    | none => normalizeTabsFrom seen values
    | some tab =>
      if tab.tabId ∈ seen then normalizeTabsFrom seen values
      else tab :: normalizeTabsFrom (tab.tabId :: seen) values

def normalizeWorkspaceTabs (tabs : List WorkspaceTab) : List WorkspaceTab :=
  normalizeTabsFrom [] tabs

def normalizeTabIdsFrom (seen : List String) : List String → List String
  | [] => []
  | value :: values =>
    match trimNonEmpty value with
    | none => normalizeTabIdsFrom seen values
    | some tabId =>
      if tabId ∈ seen then normalizeTabIdsFrom seen values
      else tabId :: normalizeTabIdsFrom (tabId :: seen) values

def normalizeTabIds (tabIds : List String) : List String :=
  normalizeTabIdsFrom [] tabIds

/-- The focused tab is the requested one, or else the last. -/
def createPane (id : String) (tabs : List WorkspaceTab) (focusedTabId : Option String)
    (hidden : Bool) : SplitPane :=
  let normalized := normalizeWorkspaceTabs tabs
  let tabIds := normalized.map (·.tabId)
  { id
    tabs := normalized
    focusedTabId := if focusedTabId.getD "" ∈ tabIds then focusedTabId else tabIds.getLast?
    hidden }

def normalizePaneAfterTabChange (pane : SplitPane) : SplitPane :=
  createPane pane.id pane.tabs pane.focusedTabId pane.hidden

/-- `newTab` is what `createNewWorkspaceTab()` returns. -/
def ensureRetainedPaneHasTab (newTab : WorkspaceTab) (pane : SplitPane) : SplitPane :=
  if pane.tabs.isEmpty then
    normalizePaneAfterTabChange
      { pane with tabs := [newTab], focusedTabId := some newTab.tabId }
  else pane

def isSoleNewTabPane (pane : SplitPane) : Bool :=
  match pane.tabs with
  | [tab] => isNewTab tab
  | _ => false

/-! ## Paths -/

def findPanePathById (root : SplitNode) (paneId : String) : Option (List ℕ) :=
  root.findPath (·.id == paneId)

def findPanePathContainingTab (root : SplitNode) (tabId : String) : Option (List ℕ) :=
  root.findPath (·.tabIds.contains tabId)

def findPaneById (root : SplitNode) : Option String → Option SplitPane
  | none => none
  | some paneId => if paneId = "" then none else root.leaves.find? (·.id == paneId)

def findPaneContainingTab (root : SplitNode) (tabId : String) : Option SplitPane :=
  root.leaves.find? (·.tabIds.contains tabId)

/-- The pane at a path, rewritten. -/
def replacePaneAtPath (root : SplitNode) (path : List ℕ) (f : SplitPane → SplitPane) :
    SplitNode :=
  root.replaceAt (fun node =>
    match node with
    | .leaf pane => paneNode (f pane)
    | other => other) path

def collectAllTabs (root : SplitNode) : List WorkspaceTab :=
  root.leaves.flatMap (·.tabs)

/-- The panes the user can see. -/
def collectAllPanes (root : SplitNode) : List SplitPane :=
  root.leaves.filter (!·.hidden)

def listPaneIds (root : SplitNode) : List String :=
  (collectAllPanes root).map (·.id)

/-- The nearest visible pane among the siblings of a child: to its left, else to its right. -/
def nearestAmong (children : List SplitNode) (childIndex : ℕ) : Option String :=
  ((children.take childIndex).reverse.findSome? fun child => (listPaneIds child).getLast?).or
    ((children.drop (childIndex + 1)).findSome? fun child => (listPaneIds child).head?)

def findNearestSiblingPaneId (root : SplitNode) (paneId : String) : Option String :=
  match findPanePathById root paneId with
  | none => none
  | some path =>
    (List.range path.length).reverse.findSome? fun depth =>
      match root.getAt (path.take depth), path[depth]? with
      | some (.node _ children), some childIndex => nearestAmong children childIndex
      | _, _ => none

/-! ## Normal form of a layout -/

def normalizePane (now : ℕ) (pane : SplitPane) : Option SplitPane :=
  match trimNonEmpty pane.id with
  | none => none
  | some paneId =>
    let tabs := normalizeWorkspaceTabs pane.tabs
    let mergedTabs := if tabs.isEmpty then
        (normalizeTabIds pane.tabIds).map fun tabId =>
          { tabId, target := .draft tabId none, createdAt := now, state := none }
      else tabs
    some (createPane paneId mergedTabs (pane.focusedTabId.bind trimNonEmpty) pane.hidden)

mutual
/-- A group that loses all children but one is that child. -/
def normalizeNode (now : ℕ) : SplitNode → Option SplitNode
  | .leaf pane => (normalizePane now pane).map paneNode
  | .node group children =>
    match trimNonEmpty group.id, normalizeNodes now children with
    | none, _ => none
    | some _, [] => none
    | some _, [child] => some child
    | some groupId, normalized => some (groupNode groupId group.direction normalized)

def normalizeNodes (now : ℕ) : List SplitNode → List SplitNode
  | [] => []
  | child :: children =>
    match normalizeNode now child with
    | none => normalizeNodes now children
    | some normalized => normalized :: normalizeNodes now children
end

/-- `map[child] = parent`. -/
def setParent (map : List (String × String)) (child parent : String) : List (String × String) :=
  if map.any (·.1 == child) then
    map.map fun entry => if entry.1 == child then (child, parent) else entry
  else map ++ [(child, parent)]

def normalizeParentTabMap (raw : List (String × String)) (openTabIds : List String) :
    List (String × String) :=
  raw.foldl (fun next entry =>
    match trimNonEmpty entry.1, trimNonEmpty entry.2 with
    | some child, some parent =>
      if child = parent ∨ child ∉ openTabIds ∨ parent ∉ openTabIds then next
      else setParent next child parent
    | _, _ => next) []

def openTabIds (root : SplitNode) : List String :=
  (collectAllTabs root).map (·.tabId)

def withNormalizedParentTabMap (layout : WorkspaceLayout) : WorkspaceLayout :=
  { layout with
    parentTabIdByTabId := normalizeParentTabMap layout.parentTabIdByTabId (openTabIds layout.root) }

def createDefaultRoot (newTab : WorkspaceTab) : SplitNode :=
  paneNode (createPane defaultPaneId [newTab] none false)

def normalizeLayout (now : ℕ) (newTab : WorkspaceTab) (layout : WorkspaceLayout) :
    WorkspaceLayout :=
  let root := (normalizeNode now layout.root).getD (createDefaultRoot newTab)
  let resolvedFocusedPaneId :=
    match layout.focusedPaneId.bind trimNonEmpty with
    | none => none
    | some paneId =>
      some ((((findPaneById root (some paneId)).map (·.id)).or
        ((collectAllPanes root).head?.map (·.id))).getD defaultPaneId)
  { root
    focusedPaneId := resolvedFocusedPaneId
    parentTabIdByTabId := normalizeParentTabMap layout.parentTabIdByTabId (openTabIds root) }

/-! ## Edits of the tree -/

def reorderTabsForPane (tabIds : List String) (pane : SplitPane) : SplitPane :=
  let nextIds := normalizeTabIds tabIds
  let reordered := nextIds.filterMap fun tabId => pane.tabs.reverse.find? (·.tabId == tabId)
  let rest := pane.tabs.filter fun tab => tab.tabId ∉ nextIds
  normalizePaneAfterTabChange { pane with tabs := reordered ++ rest }

/-- The pane at the root is not removed but emptied. -/
def removePaneByPath (newTab : WorkspaceTab) (root : SplitNode) (path : List ℕ) : SplitNode :=
  match path with
  | [] =>
    match root with
    | .leaf pane => paneNode (createPane pane.id [newTab] none false)
    | group => group
  | _ => root.removeAt path

/-- A tab taken out of its pane: the pane stays if it keeps a tab or is the one to
preserve, else it goes. -/
def detachTabFromTree (newTab : WorkspaceTab) (root : SplitNode) (tabId : String)
    (preserveEmptyPaneId : Option String) : SplitNode × Option WorkspaceTab :=
  match findPanePathContainingTab root tabId with
  | none => (root, none)
  | some panePath =>
    match root.getAt panePath with
    | some (.leaf pane) =>
      let nextPane := normalizePaneAfterTabChange
        { pane with tabs := pane.tabs.filter (·.tabId != tabId) }
      let nextRoot := replacePaneAtPath root panePath fun _ => nextPane
      let tab := pane.tabs.find? (·.tabId == tabId)
      if !nextPane.tabs.isEmpty then (nextRoot, tab)
      else if some nextPane.id = preserveEmptyPaneId then
        (replacePaneAtPath nextRoot panePath fun _ => ensureRetainedPaneHasTab newTab nextPane, tab)
      else (removePaneByPath newTab nextRoot panePath, tab)
    | _ => (root, none)

def insertTab (tab : WorkspaceTab) (focusTabId : Option String) (pane : SplitPane) : SplitPane :=
  let nextTabs :=
    if tab.target.kind ≠ .newTab ∧ isSoleNewTabPane pane then [tab]
    else if pane.tabIds.contains tab.tabId then
      pane.tabs.set (pane.tabIds.idxOf tab.tabId) tab
    else pane.tabs ++ [tab]
  normalizePaneAfterTabChange
    { pane with tabs := nextTabs, focusedTabId := some (focusTabId.getD tab.tabId) }

def insertTabIntoPane (root : SplitNode) (paneId : String) (tab : WorkspaceTab)
    (focusTabId : Option String) : SplitNode :=
  match findPanePathById root paneId with
  | none => root
  | some panePath => replacePaneAtPath root panePath (insertTab tab focusTabId)

def focusTabInPane (root : SplitNode) (paneId tabId : String) : SplitNode :=
  match findPanePathById root paneId with
  | none => root
  | some panePath => replacePaneAtPath root panePath fun pane =>
      normalizePaneAfterTabChange { pane with focusedTabId := some tabId, hidden := false }

def replaceTab (tabId nextTabId : String) (target : WorkspaceTabTarget) (state : Option Json)
    (pane : SplitPane) : SplitPane :=
  normalizePaneAfterTabChange
    { pane with
      tabs := pane.tabs.map fun tab =>
        if tab.tabId ≠ tabId then tab
        else { tabId := nextTabId, target, createdAt := tab.createdAt, state }
      focusedTabId :=
        if pane.focusedTabId = some tabId then some nextTabId else pane.focusedTabId }

def replaceTabInTree (root : SplitNode) (tabId nextTabId : String) (target : WorkspaceTabTarget)
    (state : Option Json) : SplitNode :=
  match findPanePathContainingTab root tabId with
  | none => root
  | some panePath => replacePaneAtPath root panePath (replaceTab tabId nextTabId target state)

def updatePaneInTree (root : SplitNode) (paneId : String) (updater : SplitPane → SplitPane) :
    SplitNode :=
  match findPanePathById root paneId with
  | none => root
  | some panePath => replacePaneAtPath root panePath fun pane =>
      normalizePaneAfterTabChange (updater pane)

def SplitPosition.direction : SplitPosition → SplitDirection
  | left | right => .horizontal
  | top | bottom => .vertical

def SplitPosition.insertAfter : SplitPosition → Bool
  | right | bottom => true
  | left | top => false

/-- A new pane beside the one at a path: among its siblings when they run in the
same direction, else in a group of the two. -/
def insertPaneBeside (root : SplitNode) (targetPath : List ℕ) (position : SplitPosition)
    (groupId : String) (newPane : SplitPane) : SplitNode :=
  let splitTarget := root.replaceAt (fun target =>
    groupNode groupId position.direction
      (if position.insertAfter then [target, paneNode newPane] else [paneNode newPane, target]))
    targetPath
  match targetPath.getLast?, root.getAt targetPath.dropLast with
  | some targetIndex, some (.node group children) =>
    if group.direction = position.direction then
      root.replaceAt (fun _ => .node group
        (children.insertIdx (if position.insertAfter then targetIndex + 1 else targetIndex)
          (paneNode newPane))) targetPath.dropLast
    else splitTarget
  | _, _ => splitTarget

/-! ## Focus and parents -/

def getCloseSuccessorTabId (pane : SplitPane) (tabId : String) (openTabIds : List String)
    (parentTabIdByTabId : List (String × String)) : Option String :=
  if pane.focusedTabId ≠ some tabId then none
  else
    let tabIndex := pane.tabIds.idxOf tabId
    match (parentTabIdByTabId.find? (·.1 == tabId)).map (·.2) with
    | some parent =>
      if parent ∈ openTabIds then some parent
      else (pane.tabIds[tabIndex + 1]?).or
        (if 0 < tabIndex then pane.tabIds[tabIndex - 1]? else none)
    | none =>
      (pane.tabIds[tabIndex + 1]?).or (if 0 < tabIndex then pane.tabIds[tabIndex - 1]? else none)

def getFocusedPaneIdAfterTabClose (root : SplitNode) (focusedPaneId fallbackPaneId : Option String)
    (excludedPaneId : Option String) : Option String :=
  match focusedPaneId with
  | none => none
  | some focused =>
    let kept := if some focused ≠ excludedPaneId then
      (findPaneById root (some focused)).map (·.id) else none
    let fallback := if fallbackPaneId.isSome ∧ fallbackPaneId ≠ excludedPaneId then
      (findPaneById root fallbackPaneId).map (·.id) else none
    let visible := ((collectAllPanes root).find? fun pane => some pane.id != excludedPaneId).map
      (·.id)
    some (((kept.or fallback).or visible).getD defaultPaneId)

/-- `renamed[replacement]` keeps the parent of the replaced tab. -/
def transferReplacedTabParent (parents : List (String × String))
    (replacedTabId replacementTabId : String) : List (String × String) :=
  let parentTabId := (parents.find? (·.1 == replacedTabId)).map (·.2)
  let renamed := (parents.filter (·.1 != replacedTabId)).map fun entry =>
    (entry.1, if entry.2 = replacedTabId then replacementTabId else entry.2)
  match parentTabId with
  | none => renamed
  | some parent =>
    setParent renamed replacementTabId
      (if parent = replacedTabId then replacementTabId else parent)

/-! ## Actions on a layout -/

/-- A layout with another tree, and the parents of the tabs that are left. -/
def withRoot (layout : WorkspaceLayout) (root : SplitNode) (focusedPaneId : Option String) :
    WorkspaceLayout :=
  withNormalizedParentTabMap { layout with root, focusedPaneId }

def focusTabInLayout (layout : WorkspaceLayout) (tabId : String) : Option WorkspaceLayout :=
  match findPaneContainingTab layout.root tabId with
  | none => none
  | some pane =>
    if pane.focusedTabId = some tabId ∧ layout.focusedPaneId = some pane.id ∧ ¬ pane.hidden then
      none
    else
      some (withRoot layout (focusTabInPane layout.root pane.id tabId) (some pane.id))

/-- The pane that a close does not remove: the requested one, else `main` and the Explorer. -/
def preservedOnClose (preserveEmptyPaneId : Option String) (pane : SplitPane) : Option String :=
  preserveEmptyPaneId.or
    (if pane.id = defaultPaneId ∨ pane.id = explorerSidebarPaneIdLiteral then some pane.id
      else none)

def closeTabInLayout (newTab : WorkspaceTab) (layout : WorkspaceLayout) (tabId : String)
    (preserveEmptyPaneId : Option String) : Option WorkspaceLayout :=
  match findPaneContainingTab layout.root tabId with
  | none => none
  | some pane =>
    let preserve := preservedOnClose preserveEmptyPaneId pane
    let closeSuccessorTabId :=
      getCloseSuccessorTabId pane tabId (openTabIds layout.root) layout.parentTabIdByTabId
    let fallbackPaneId := findNearestSiblingPaneId layout.root pane.id
    let nextRoot := (detachTabFromTree newTab layout.root tabId preserve).1
    let nextLayout := withRoot layout nextRoot
      (getFocusedPaneIdAfterTabClose nextRoot layout.focusedPaneId fallbackPaneId none)
    match closeSuccessorTabId with
    | none => some nextLayout
    | some successor => some ((focusTabInLayout nextLayout successor).getD nextLayout)

/-- Whether dismissing a pane would do anything: the last visible ordinary pane stays. -/
def canDismissPaneInLayout (layout : WorkspaceLayout) (paneId : String)
    (explorerSidebarPaneId : Option String) : Bool :=
  match findPaneById layout.root (some paneId) with
  | none => false
  | some pane =>
    let ordinaryPanes := (collectAllPanes layout.root).filter fun candidate =>
      some candidate.id != explorerSidebarPaneId
    !pane.hidden && (if some paneId = explorerSidebarPaneId then decide (0 < ordinaryPanes.length)
      else decide (1 < ordinaryPanes.length))

def closePaneInLayout (newTab : WorkspaceTab) (layout : WorkspaceLayout) (paneId : String)
    (explorerSidebarPaneId : Option String) : Option WorkspaceLayout :=
  match findPanePathById layout.root paneId with
  | none => none
  | some panePath =>
    let visibleOrdinaryPaneIds := (listPaneIds layout.root).filter fun id =>
      some id != explorerSidebarPaneId
    if some paneId ≠ explorerSidebarPaneId ∧ visibleOrdinaryPaneIds.length ≤ 1 ∧
        paneId ∈ visibleOrdinaryPaneIds then none
    else
      let fallbackPaneId := findNearestSiblingPaneId layout.root paneId
      let nextRoot := removePaneByPath newTab layout.root panePath
      some (withRoot layout nextRoot
        (getFocusedPaneIdAfterTabClose nextRoot layout.focusedPaneId fallbackPaneId
          explorerSidebarPaneId))

def selectTabInPaneInLayout (layout : WorkspaceLayout) (paneId tabId : String) :
    Option WorkspaceLayout :=
  match findPaneById layout.root (some paneId) with
  | none => none
  | some pane =>
    if tabId ∉ pane.tabIds ∨ pane.focusedTabId = some tabId then none
    else some (withRoot layout (focusTabInPane layout.root paneId tabId) layout.focusedPaneId)

def setPaneHiddenInLayout (layout : WorkspaceLayout) (paneId : String) (hidden : Bool) :
    Option WorkspaceLayout :=
  match findPaneById layout.root (some paneId) with
  | none => none
  | some pane =>
    if pane.hidden = hidden then none
    else if hidden ∧ (collectAllPanes layout.root).length = 1 then none
    else
      let root := updatePaneInTree layout.root paneId fun pane => { pane with hidden }
      some (withRoot layout root
        (if hidden ∧ layout.focusedPaneId = some paneId then
          (collectAllPanes root).head?.map (·.id) else layout.focusedPaneId))

def focusPaneInLayout (layout : WorkspaceLayout) (paneId : String) : Option WorkspaceLayout :=
  match findPaneById layout.root (some paneId) with
  | none => none
  | some pane =>
    if layout.focusedPaneId = some paneId ∧ ¬ pane.hidden then none
    else
      let root := if pane.hidden then
          updatePaneInTree layout.root paneId fun pane => { pane with hidden := false }
        else layout.root
      some (withRoot layout root (some paneId))

def moveTabToPaneInLayout (newTab : WorkspaceTab) (layout : WorkspaceLayout)
    (tabId toPaneId : String) (explorerSidebarPaneId : Option String) : Option WorkspaceLayout :=
  match findPaneContainingTab layout.root tabId, findPaneById layout.root (some toPaneId) with
  | some sourcePane, some targetPane =>
    if targetPane.hidden then none
    else
      let sourceTab := (collectAllTabs layout.root).find? (·.tabId == tabId)
      let isMovingSoleNewTab := sourcePane.id ≠ toPaneId ∧ sourcePane.tabIds.length = 1 ∧
        sourceTab.any isNewTab
      if isMovingSoleNewTab ∧ some toPaneId ≠ explorerSidebarPaneId then
        if some sourcePane.id = explorerSidebarPaneId then
          setPaneHiddenInLayout layout sourcePane.id true
        else closePaneInLayout newTab layout sourcePane.id explorerSidebarPaneId
      else
        let preserve := if sourcePane.id = toPaneId ∨ some sourcePane.id = explorerSidebarPaneId ∨
            some toPaneId = explorerSidebarPaneId then some sourcePane.id else none
        match detachTabFromTree newTab layout.root tabId preserve with
        | (_, none) => none
        | (detachedRoot, some tab) =>
          some (withRoot layout (insertTabIntoPane detachedRoot toPaneId tab (some tabId))
            (some toPaneId))
  | _, _ => none

structure SplitPaneInLayoutResult where
  layout : WorkspaceLayout
  paneId : String

def splitPaneInLayout (newTab : WorkspaceTab) (layout : WorkspaceLayout)
    (tabId targetPaneId : String) (position : SplitPosition) (paneId groupId : String)
    (maxTreeDepth : ℕ) : Option SplitPaneInLayoutResult :=
  if (findPaneById layout.root (some targetPaneId)).isNone ∨
      (findPaneContainingTab layout.root tabId).isNone then none
  else
    match detachTabFromTree newTab layout.root tabId (some targetPaneId) with
    | (_, none) => none
    | (detachedRoot, some tab) =>
      match findPanePathById detachedRoot targetPaneId with
      | none => none
      | some targetPath =>
        let root := insertPaneBeside detachedRoot targetPath position groupId
          (createPane paneId [tab] (some tab.tabId) false)
        if maxTreeDepth < root.depth then none
        else some { layout := withRoot layout root (some paneId), paneId }

def splitPaneEmptyInLayout (newTab : WorkspaceTab) (layout : WorkspaceLayout)
    (targetPaneId : String) (position : SplitPosition) (paneId groupId : String)
    (maxTreeDepth : ℕ) : Option SplitPaneInLayoutResult :=
  if (findPaneById layout.root (some targetPaneId)).isNone then none
  else
    match findPanePathById layout.root targetPaneId with
    | none => none
    | some targetPath =>
      let root := insertPaneBeside layout.root targetPath position groupId
        (createPane paneId [newTab] none false)
      if maxTreeDepth < root.depth then none
      else some { layout := withRoot layout root (some paneId), paneId }

/-- A pane of full height to the right of the whole tree. -/
def splitWorkspaceRootRightInLayout (newTab : WorkspaceTab) (layout : WorkspaceLayout)
    (paneId groupId : String) (maxTreeDepth : ℕ) : Option SplitPaneInLayoutResult :=
  let root := groupNode groupId .horizontal
    [layout.root, paneNode (createPane paneId [newTab] none false)]
  if maxTreeDepth < root.depth then none
  else some { layout := withRoot layout root (some paneId), paneId }

def reorderPaneTabsInLayout (layout : WorkspaceLayout) (paneId : String) (tabIds : List String) :
    Option WorkspaceLayout :=
  if (findPaneById layout.root (some paneId)).isNone then none
  else some (withRoot layout (updatePaneInTree layout.root paneId (reorderTabsForPane tabIds))
    layout.focusedPaneId)

def reorderFocusedPaneTabsInLayout (layout : WorkspaceLayout) (tabIds : List String) :
    Option WorkspaceLayout :=
  layout.focusedPaneId.bind fun paneId => reorderPaneTabsInLayout layout paneId tabIds

def setTabStateInLayout (layout : WorkspaceLayout) (tabId : String) (state : Option Json) :
    Option WorkspaceLayout :=
  ((collectAllTabs layout.root).find? (·.tabId == tabId)).map fun tab =>
    withRoot layout (replaceTabInTree layout.root tabId tabId tab.target state)
      layout.focusedPaneId

/-! ## Opening and replacing tabs -/

/-- The host a pane offers. -/
def paneHost (explorerSidebarPaneId : Option String) (pane : SplitPane) : PaneHost :=
  if some pane.id = explorerSidebarPaneId then .explorer else .main

def resolvePlacementPane (layout : WorkspaceLayout) (target : WorkspaceTabTarget)
    (placement : WorkspaceTabPlacement) (explorerSidebarPaneId : Option String) :
    Option SplitPane :=
  let supportsTarget := fun pane =>
    panelSupportsHost target.kind (paneHost explorerSidebarPaneId pane)
  let requestedCandidate :=
    match placement with
    | .pane paneId | .prefer paneId => findPaneById layout.root (some paneId)
    | _ => none
  let focusedCandidate := findPaneById layout.root layout.focusedPaneId
  let focusedPane :=
    (focusedCandidate.filter fun pane => !pane.hidden && supportsTarget pane).or
      ((collectAllPanes layout.root).find? supportsTarget)
  let hiddenExplorerPane := findPaneById layout.root explorerSidebarPaneId
  ((requestedCandidate.filter supportsTarget).or focusedPane).or
    (hiddenExplorerPane.filter supportsTarget)

structure OpenTabInLayoutResult where
  layout : WorkspaceLayout
  tabId : String

/-- A tab put into a pane: it takes the place of the new tab that is alone there. -/
def placeNewTab (root : SplitNode) (targetPane : SplitPane) (tab : WorkspaceTab) (focus : Bool) :
    SplitNode :=
  let currentTab := if isSoleNewTabPane targetPane ∧ tab.target.kind ≠ .newTab then
    targetPane.tabs.head? else none
  match currentTab with
  | some current => replaceTabInTree root current.tabId tab.tabId tab.target tab.state
  | none =>
    insertTabIntoPane root targetPane.id tab
      (some (if focus then tab.tabId else targetPane.focusedTabId.getD tab.tabId))

/-- `newTabId` is what `createTabId()` returns; `none` when it raises. -/
def insertNewTabIntoPane (layout : WorkspaceLayout) (target : WorkspaceTabTarget) (now : ℕ)
    (placement : WorkspaceTabPlacement) (explorerSidebarPaneId : Option String)
    (newTabId : Option String) (state : Option Json) (focus : Bool) :
    Option OpenTabInLayoutResult :=
  match resolvePlacementPane layout target placement explorerSidebarPaneId, newTabId with
  | some targetPane, some tabId =>
    some
      { tabId
        layout := withRoot layout
          (placeNewTab layout.root targetPane { tabId, target, createdAt := now, state } focus)
          (if focus then some targetPane.id else layout.focusedPaneId) }
  | _, _ => none

def findExistingTabForTarget (root : SplitNode) (target : WorkspaceTabTarget) :
    Option WorkspaceTab :=
  if target.kind = .newTab then none
  else (collectAllTabs root).find? fun tab => panelResourceKey tab.target == panelResourceKey target

def updateExistingTabTarget (layout : WorkspaceLayout) (tab : WorkspaceTab)
    (target : WorkspaceTabTarget) : WorkspaceLayout :=
  if workspaceTabTargetsEqual tab.target target then layout
  else withRoot layout (replaceTabInTree layout.root tab.tabId tab.tabId target tab.state)
    layout.focusedPaneId

/-- Only an explicit pane placement relocates the tab. The Explorer is not passed on. -/
def revealExistingTab (newTab : WorkspaceTab) (layout : WorkspaceLayout) (tabId : String)
    (placement : WorkspaceTabPlacement) : WorkspaceLayout :=
  let moved :=
    match placement with
    | .pane paneId =>
      if (findPaneContainingTab layout.root tabId).map (·.id) ≠ some paneId then
        moveTabToPaneInLayout newTab layout tabId paneId none
      else none
    | _ => none
  match moved with
  | some moved => moved
  | none => (focusTabInLayout layout tabId).getD layout

/-- Always a tab of its own. -/
def createTabInLayout (layout : WorkspaceLayout) (target : WorkspaceTabTarget) (now : ℕ)
    (placement : WorkspaceTabPlacement) (explorerSidebarPaneId newTabId : Option String)
    (state : Option Json) : Option OpenTabInLayoutResult :=
  insertNewTabIntoPane layout target now placement explorerSidebarPaneId newTabId state true

def revealTargetInLayout (newTab : WorkspaceTab) (layout : WorkspaceLayout)
    (target : WorkspaceTabTarget) (now : ℕ) (placement : WorkspaceTabPlacement)
    (explorerSidebarPaneId : Option String) : Option OpenTabInLayoutResult :=
  match findExistingTabForTarget layout.root target with
  | some existing =>
    some
      { tabId := existing.tabId
        layout := revealExistingTab newTab (updateExistingTabTarget layout existing target)
          existing.tabId placement }
  | none =>
    createTabInLayout layout target now placement explorerSidebarPaneId
      (buildDeterministicWorkspaceTabId target) none

def openTabInLayoutBackground (layout : WorkspaceLayout) (target : WorkspaceTabTarget) (now : ℕ)
    (placement : WorkspaceTabPlacement) (explorerSidebarPaneId : Option String) :
    Option OpenTabInLayoutResult :=
  match findExistingTabForTarget layout.root target with
  | some existing =>
    some { tabId := existing.tabId, layout := updateExistingTabTarget layout existing target }
  | none =>
    insertNewTabIntoPane layout target now placement explorerSidebarPaneId
      (buildDeterministicWorkspaceTabId target) none false

/-- The id a replacement gives to the tab: its own when the panel instance goes on. -/
def replacementTabId (current : WorkspaceTab) (target : WorkspaceTabTarget)
    (createdTabId : String) : String :=
  if current.target.kind = .newTab ∨ current.target.kind = .draft ∨
      current.target.kind = target.kind then current.tabId
  else
    match target with
    | .draft draftId _ => draftId
    | _ => createdTabId

def replaceTabTargetInLayout (layout : WorkspaceLayout) (tabId : String)
    (target : WorkspaceTabTarget) (createdTabId : String) (state : Option Json) :
    Option WorkspaceLayout :=
  match (collectAllTabs layout.root).find? (·.tabId == tabId) with
  | none => none
  | some current =>
    if workspaceTabTargetsEqual current.target target then
      if state.isNone then some layout
      else some (withRoot layout (replaceTabInTree layout.root tabId tabId target state)
        layout.focusedPaneId)
    else
      let nextTabId := replacementTabId current target createdTabId
      let parents := transferReplacedTabParent layout.parentTabIdByTabId tabId nextTabId
      let nextState := state.or
        (if current.target.kind = target.kind then current.state else none)
      some (withRoot { layout with parentTabIdByTabId := parents }
        (replaceTabInTree layout.root tabId nextTabId target nextState) layout.focusedPaneId)

def convertDraftToAgentInLayout (newTab : WorkspaceTab) (layout : WorkspaceLayout)
    (tabId agentId : String) : Option WorkspaceLayout :=
  match (collectAllTabs layout.root).find? (·.tabId == tabId) with
  | none => none
  | some current =>
    if current.target.kind ≠ .draft then none
    else
      let canonicalTabId := "agent_" ++ agentId
      if canonicalTabId ∈ openTabIds layout.root ∧ canonicalTabId ≠ tabId then
        let nextLayout := (closeTabInLayout newTab layout tabId none).getD layout
        some ((focusTabInLayout nextLayout canonicalTabId).getD nextLayout)
      else
        some (withRoot layout
          (replaceTabInTree layout.root tabId canonicalTabId (.agent agentId) none)
          layout.focusedPaneId)

/-! ## Panes that have lost their tabs -/

def createDefaultExplorerSidebarTabs (now : ℕ) : List WorkspaceTab :=
  [{ tabId := "files", target := .files, createdAt := now, state := none },
    { tabId := "changes_tree", target := .changesTree, createdAt := now, state := none }]

/-- `newTab` gives the tab created for a pane. -/
def restoreEmptyPane (now : ℕ) (newTab : String → WorkspaceTab)
    (explorerSidebarPaneId : Option String) (pane : SplitPane) : SplitPane :=
  if !pane.tabs.isEmpty then pane
  else createPane pane.id
    (if some pane.id = explorerSidebarPaneId then createDefaultExplorerSidebarTabs now
      else [newTab pane.id]) none pane.hidden

def restoreEmptyPanesInLayout (now : ℕ) (layoutTab : WorkspaceTab) (newTab : String → WorkspaceTab)
    (layout : WorkspaceLayout) (explorerSidebarPaneId : Option String) : WorkspaceLayout :=
  let normalized := normalizeLayout now layoutTab layout
  { normalized with
    root := normalized.root.mapLeaves (restoreEmptyPane now newTab explorerSidebarPaneId) }

/-- The companion pane exists before it is first shown. -/
def createWorkspaceLayoutWithExplorerSidebar (now : ℕ) (newTab : WorkspaceTab) : WorkspaceLayout :=
  { root := groupNode defaultLayoutGroupId .horizontal
      [paneNode (createPane defaultPaneId [newTab] none false),
        paneNode (createPane explorerSidebarPaneIdLiteral (createDefaultExplorerSidebarTabs now)
          none true)]
    focusedPaneId := some defaultPaneId
    parentTabIdByTabId := [] }

end Orqara.Layout
