import Orqara.Library.Json
import Orqara.Library.JsString

/-!
# Workspace tabs

The targets a tab can show, their normal form, the tab id that is derived from a
target, and the panes that can host it.
-/

namespace Orqara.Layout

structure WorkspaceDraftTabSetup where
  provider : String
  cwd : String
  modeId : Option String
  model : Option String
  thinkingOptionId : Option String
  featureValues : Record
  deriving DecidableEq

inductive WorkspaceTabTarget
  | newTab
  | draft (draftId : String) (setup : Option WorkspaceDraftTabSetup)
  | agent (agentId : String)
  | providerSubagent (parentAgentId subagentId : String)
  | terminal (terminalId : String)
  | browser (browserId : String)
  | changesTree
  | files
  | pullRequest
  | file (path : String) (lineStart lineEnd : Option ℕ)
  | workingDiff (focusPath : Option String) (focusRequestId : Option ℕ)
  | pluginWorkspace (pluginId panelId : String)
  | pluginAgent (pluginId panelId agentId : String)
  | setup (workspaceId : String)
  | commitDiff (sha : String)
  deriving DecidableEq

/-- `target.kind`. -/
inductive TargetKind
  | newTab | draft | agent | providerSubagent | terminal | browser | changesTree | files
  | pullRequest | file | workingDiff | plugin | setup | commitDiff
  deriving DecidableEq

structure WorkspaceTab where
  tabId : String
  target : WorkspaceTabTarget
  createdAt : ℕ
  state : Option Json
  deriving DecidableEq

inductive PaneHost
  | main
  | explorer
  deriving DecidableEq

namespace WorkspaceTabTarget

def kind : WorkspaceTabTarget → TargetKind
  | newTab => .newTab
  | draft _ _ => .draft
  | agent _ => .agent
  | providerSubagent _ _ => .providerSubagent
  | terminal _ => .terminal
  | browser _ => .browser
  | changesTree => .changesTree
  | files => .files
  | pullRequest => .pullRequest
  | file _ _ _ => .file
  | workingDiff _ _ => .workingDiff
  | pluginWorkspace _ _ => .plugin
  | pluginAgent _ _ _ => .plugin
  | setup _ => .setup
  | commitDiff _ => .commitDiff

end WorkspaceTabTarget

/-! ## Panel manifests -/

/-- The string that stands for a kind in a resource key. -/
def TargetKind.name : TargetKind → String
  | newTab => "new_tab"
  | draft => "draft"
  | agent => "agent"
  | providerSubagent => "provider_subagent"
  | terminal => "terminal"
  | browser => "browser"
  | changesTree => "changes_tree"
  | files => "files"
  | pullRequest => "pull_request"
  | file => "file"
  | workingDiff => "working_diff"
  | plugin => "plugin"
  | setup => "setup"
  | commitDiff => "commit_diff"

/-- `manifest.supportedHosts`. -/
def TargetKind.supportedHosts : TargetKind → List PaneHost
  | browser | setup => [.main]
  | changesTree | files => [.explorer]
  | _ => [.main, .explorer]

def panelSupportsHost (kind : TargetKind) (host : PaneHost) : Bool :=
  host ∈ kind.supportedHosts

/-- `manifest.resourceKey`. -/
def resourceKey : WorkspaceTabTarget → String
  | .newTab => "new_tab"
  | .draft draftId _ => draftId
  | .agent agentId => agentId
  | .providerSubagent parentAgentId subagentId => parentAgentId ++ ":" ++ subagentId
  | .terminal terminalId => terminalId
  | .browser browserId => browserId
  | .changesTree => "changes_tree"
  | .files => "files"
  | .pullRequest => "pull_request"
  | .file path _ _ => path
  | .workingDiff _ _ => "working_diff"
  | .pluginWorkspace pluginId panelId => pluginId ++ ":" ++ panelId ++ ":workspace"
  | .pluginAgent pluginId panelId agentId => pluginId ++ ":" ++ panelId ++ ":agent:" ++ agentId
  | .setup workspaceId => workspaceId
  | .commitDiff sha => sha

def panelResourceKey (target : WorkspaceTabTarget) : String :=
  target.kind.name ++ ":" ++ resourceKey target

/-! ## Normal form of a target -/

/-- `value.replace(/\\/g, "/")`, for one character. -/
def forwardSlash (c : Char) : Char :=
  if c = '\\' then '/' else c

def forwardSlashes (s : String) : String :=
  String.ofList (s.toList.map forwardSlash)

/-- A line number or request id counts only when it is positive. -/
def normalizePositiveInteger (value : Option ℕ) : Option ℕ :=
  value.filter (0 < ·)

def trimOptionalString (value : Option String) : Option String :=
  value.bind trimNonEmpty

def normalizeWorkspaceDraftTabSetup (setup : WorkspaceDraftTabSetup) :
    Option WorkspaceDraftTabSetup :=
  match trimNonEmpty setup.provider, trimNonEmpty setup.cwd with
  | some provider, some cwd =>
    some
      { provider, cwd
        modeId := trimOptionalString setup.modeId
        model := trimOptionalString setup.model
        thinkingOptionId := trimOptionalString setup.thinkingOptionId
        featureValues := setup.featureValues }
  | _, _ => none

/-- `lineEnd` is kept only behind a `lineStart` that it does not precede. -/
def normalizeLineEnd (lineStart lineEnd : Option ℕ) : Option ℕ :=
  match lineStart, lineEnd with
  | some first, some last => if first ≤ last then some last else none
  | _, _ => none

def normalizeWorkspaceTabTarget : WorkspaceTabTarget → Option WorkspaceTabTarget
  | .newTab => some .newTab
  | .draft draftId setup =>
    (trimNonEmpty draftId).map fun draftId =>
      .draft draftId (setup.bind normalizeWorkspaceDraftTabSetup)
  | .agent agentId => (trimNonEmpty agentId).map .agent
  | .providerSubagent parentAgentId subagentId =>
    match trimNonEmpty parentAgentId, trimNonEmpty subagentId with
    | some parentAgentId, some subagentId => some (.providerSubagent parentAgentId subagentId)
    | _, _ => none
  | .terminal terminalId => (trimNonEmpty terminalId).map .terminal
  | .browser browserId => (trimNonEmpty browserId).map .browser
  | .changesTree => some .changesTree
  | .files => some .files
  | .pullRequest => some .pullRequest
  | .file path lineStart lineEnd =>
    (trimNonEmpty path).map fun path =>
      let lineStart := normalizePositiveInteger lineStart
      .file (forwardSlashes path) lineStart
        (normalizeLineEnd lineStart (normalizePositiveInteger lineEnd))
  | .workingDiff focusPath focusRequestId =>
    some (.workingDiff ((focusPath.bind trimNonEmpty).map forwardSlashes)
      (normalizePositiveInteger focusRequestId))
  | .pluginWorkspace pluginId panelId =>
    match trimNonEmpty pluginId, trimNonEmpty panelId with
    | some pluginId, some panelId => some (.pluginWorkspace pluginId panelId)
    | _, _ => none
  | .pluginAgent pluginId panelId agentId =>
    match trimNonEmpty pluginId, trimNonEmpty panelId, trimNonEmpty agentId with
    | some pluginId, some panelId, some agentId => some (.pluginAgent pluginId panelId agentId)
    | _, _, _ => none
  | .setup workspaceId => (trimNonEmpty workspaceId).map .setup
  | .commitDiff sha => (trimNonEmpty sha).map .commitDiff

/-! ## Equality of targets -/

/-- The same keys, each with the same value. -/
def recordsShallowEqual (left right : Record) : Bool :=
  left.length == right.length &&
    left.all fun field => (right.find? (·.1 == field.1)).map (·.2) == some field.2

def workspaceDraftTabSetupsEqual : Option WorkspaceDraftTabSetup →
    Option WorkspaceDraftTabSetup → Bool
  | some left, some right =>
    left.provider == right.provider && left.cwd == right.cwd && left.modeId == right.modeId &&
      left.model == right.model && left.thinkingOptionId == right.thinkingOptionId &&
      recordsShallowEqual left.featureValues right.featureValues
  | left, right => left.isNone && right.isNone

/-- Targets other than drafts are equal when all their fields are. -/
def workspaceTabTargetsEqual : WorkspaceTabTarget → WorkspaceTabTarget → Bool
  | .draft leftId leftSetup, .draft rightId rightSetup =>
    leftId == rightId && workspaceDraftTabSetupsEqual leftSetup rightSetup
  | .newTab, .newTab => false
  | left, right => left == right

/-! ## Tab ids derived from targets -/

/-- A string behind its length, so that two of them in a row can be told apart. -/
def sized (s : String) : String :=
  toString (utf16 s).length ++ "_" ++ s

/-- The id a target gives to a tab; `none` stands for the error that new tabs raise. -/
def buildDeterministicWorkspaceTabId : WorkspaceTabTarget → Option String
  | .newTab => none
  | .draft draftId _ => some draftId
  | .agent agentId => some ("agent_" ++ agentId)
  | .providerSubagent parentAgentId subagentId =>
    some ("provider_subagent_" ++ sized parentAgentId ++ "_" ++ sized subagentId)
  | .terminal terminalId => some ("terminal_" ++ terminalId)
  | .browser browserId => some ("browser_" ++ browserId)
  | .setup workspaceId => some ("setup_" ++ workspaceId)
  | .commitDiff sha => some ("commit_diff_" ++ sha)
  | .workingDiff _ _ => some "working_diff"
  | .changesTree => some "changes_tree"
  | .files => some "files"
  | .pullRequest => some "pull_request"
  | .pluginWorkspace pluginId panelId =>
    some ("plugin_workspace_" ++ sized pluginId ++ "_" ++ sized panelId)
  | .pluginAgent pluginId panelId agentId =>
    some ("plugin_agent_" ++ sized pluginId ++ "_" ++ sized panelId ++ "_" ++ sized agentId)
  | .file path _ _ => some ("file_" ++ path)

/-! ## Normalizing twice is normalizing once -/

theorem isWhiteSpace_forwardSlash (c : Char) : isWhiteSpace (forwardSlash c) = isWhiteSpace c := by
  unfold forwardSlash
  split
  · subst c
    decide
  · rfl

theorem forwardSlashes_twice (s : String) : forwardSlashes (forwardSlashes s) = forwardSlashes s := by
  have h : ∀ c, forwardSlash (forwardSlash c) = forwardSlash c := by
    intro c
    unfold forwardSlash
    by_cases hc : c = '\\' <;> simp [hc]
  unfold forwardSlashes
  rw [String.toList_ofList, List.map_map]
  congr 2
  funext c
  exact h c

theorem trimmed_forwardSlashes {s : String} (h : Trimmed s) : Trimmed (forwardSlashes s) :=
  h.map isWhiteSpace_forwardSlash

theorem normalizePositiveInteger_twice (value : Option ℕ) :
    normalizePositiveInteger (normalizePositiveInteger value) = normalizePositiveInteger value := by
  simp [normalizePositiveInteger]

theorem trimOptionalString_twice (value : Option String) :
    trimOptionalString (trimOptionalString value) = trimOptionalString value := by
  cases value with
  | none => rfl
  | some s =>
    cases h : trimNonEmpty s with
    | none => simp [trimOptionalString, h]
    | some t =>
      have ht : trimNonEmpty t = some t := trimNonEmpty_trimmed h
      simp [trimOptionalString, h, ht]

theorem normalizeWorkspaceDraftTabSetup_twice {setup normal : WorkspaceDraftTabSetup}
    (h : normalizeWorkspaceDraftTabSetup setup = some normal) :
    normalizeWorkspaceDraftTabSetup normal = some normal := by
  unfold normalizeWorkspaceDraftTabSetup at h
  split at h
  · rename_i provider cwd hprovider hcwd
    cases h
    have h₁ : trimNonEmpty provider = some provider := trimNonEmpty_trimmed hprovider
    have h₂ : trimNonEmpty cwd = some cwd := trimNonEmpty_trimmed hcwd
    simp [normalizeWorkspaceDraftTabSetup, h₁, h₂, trimOptionalString_twice]
  · cases h

theorem normalizeLineEnd_twice (lineStart lineEnd : Option ℕ) :
    normalizeLineEnd lineStart (normalizePositiveInteger
      (normalizeLineEnd lineStart (normalizePositiveInteger lineEnd))) =
      normalizeLineEnd lineStart (normalizePositiveInteger lineEnd) := by
  cases lineStart with
  | none => simp [normalizeLineEnd]
  | some first =>
    cases lineEnd with
    | none => simp [normalizeLineEnd, normalizePositiveInteger]
    | some last =>
      by_cases h : 0 < last <;> by_cases hle : first ≤ last <;>
        simp [normalizeLineEnd, normalizePositiveInteger, Option.filter, h, hle]

/-- A normal target is its own normal form. -/
theorem normalizeWorkspaceTabTarget_twice {target normal : WorkspaceTabTarget}
    (h : normalizeWorkspaceTabTarget target = some normal) :
    normalizeWorkspaceTabTarget normal = some normal := by
  have trimmed : ∀ {s t : String}, trimNonEmpty s = some t → trimNonEmpty t = some t :=
    fun h => trimNonEmpty_trimmed h
  cases target with
  | newTab | changesTree | files | pullRequest =>
    cases h
    rfl
  | draft draftId setup =>
    simp only [normalizeWorkspaceTabTarget, Option.map_eq_some_iff] at h
    obtain ⟨id, hid, rfl⟩ := h
    cases hs : setup.bind normalizeWorkspaceDraftTabSetup with
    | none => simp [normalizeWorkspaceTabTarget, trimmed hid]
    | some inner =>
      obtain ⟨outer, _, houter⟩ := Option.bind_eq_some_iff.mp hs
      simp [normalizeWorkspaceTabTarget, trimmed hid, normalizeWorkspaceDraftTabSetup_twice houter]
  | agent s | terminal s | browser s | setup s | commitDiff s =>
    simp only [normalizeWorkspaceTabTarget, Option.map_eq_some_iff] at h
    obtain ⟨id, hid, rfl⟩ := h
    simp [normalizeWorkspaceTabTarget, trimmed hid]
  | providerSubagent s t | pluginWorkspace s t =>
    simp only [normalizeWorkspaceTabTarget] at h
    split at h
    · rename_i hs ht
      cases h
      simp [normalizeWorkspaceTabTarget, trimmed hs, trimmed ht]
    · cases h
  | pluginAgent s t u =>
    simp only [normalizeWorkspaceTabTarget] at h
    split at h
    · rename_i hs ht hu
      cases h
      simp [normalizeWorkspaceTabTarget, trimmed hs, trimmed ht, trimmed hu]
    · cases h
  | file path lineStart lineEnd =>
    simp only [normalizeWorkspaceTabTarget, Option.map_eq_some_iff] at h
    obtain ⟨id, hid, rfl⟩ := h
    have hslash : trimNonEmpty (forwardSlashes id) = some (forwardSlashes id) :=
      trimmed_forwardSlashes (trimNonEmpty_trimmed hid)
    simp [normalizeWorkspaceTabTarget, hslash, forwardSlashes_twice,
      normalizePositiveInteger_twice, normalizeLineEnd_twice]
  | workingDiff focusPath focusRequestId =>
    cases h
    cases hp : focusPath.bind trimNonEmpty with
    | none => simp [normalizeWorkspaceTabTarget, normalizePositiveInteger_twice]
    | some path =>
      obtain ⟨raw, _, hraw⟩ := Option.bind_eq_some_iff.mp hp
      have hslash : trimNonEmpty (forwardSlashes path) = some (forwardSlashes path) :=
        trimmed_forwardSlashes (trimNonEmpty_trimmed hraw)
      simp [normalizeWorkspaceTabTarget, hslash, forwardSlashes_twice,
        normalizePositiveInteger_twice]

/-- A text with a fixed visible beginning and a trimmed end is trimmed. -/
theorem trimmed_prefixed {text s : String} (c : Char) (hc : text.toList.head? = some c)
    (visible : isWhiteSpace c = false) (h : Trimmed s) : Trimmed (text ++ s) :=
  h.append ⟨c, hc, visible⟩

theorem trimmed_sized {text s : String} (c : Char) (hc : text.toList.head? = some c)
    (visible : isWhiteSpace c = false) (h : Trimmed s) : Trimmed (text ++ sized s) := by
  unfold sized
  rw [← String.append_assoc, ← String.append_assoc]
  apply trimmed_prefixed c _ visible h
  exact head?_toList_append (head?_toList_append hc)

/-- The id derived from a normal target needs no trimming. -/
theorem trimmed_deterministic {target : WorkspaceTabTarget} {tabId : String}
    (normal : normalizeWorkspaceTabTarget target = some target)
    (h : buildDeterministicWorkspaceTabId target = some tabId) : Trimmed tabId := by
  cases target with
  | newTab => cases h
  | changesTree | files | pullRequest | workingDiff =>
    cases h
    decide
  | draft draftId setup =>
    cases h
    simp only [normalizeWorkspaceTabTarget, Option.map_eq_some_iff,
      WorkspaceTabTarget.draft.injEq] at normal
    obtain ⟨id, hid, rfl, _⟩ := normal
    exact trimNonEmpty_trimmed hid
  | agent s | terminal s | browser s | setup s | commitDiff s =>
    cases h
    simp only [normalizeWorkspaceTabTarget, Option.map_eq_some_iff] at normal
    obtain ⟨id, hid, heq⟩ := normal
    cases heq
    exact trimmed_prefixed _ rfl (by decide) hid
  | providerSubagent s t | pluginWorkspace s t =>
    cases h
    simp only [normalizeWorkspaceTabTarget] at normal
    split at normal
    · rename_i hs ht
      cases normal
      exact trimmed_sized 'p' (by simp) (by decide) ht
    · cases normal
  | pluginAgent s t u =>
    cases h
    simp only [normalizeWorkspaceTabTarget] at normal
    split at normal
    · rename_i hs ht hu
      cases normal
      exact trimmed_sized 'p' (by simp) (by decide) hu
    · cases normal
  | file path lineStart lineEnd =>
    cases h
    simp only [normalizeWorkspaceTabTarget, Option.map_eq_some_iff,
      WorkspaceTabTarget.file.injEq] at normal
    obtain ⟨id, hid, rfl, _⟩ := normal
    exact trimmed_prefixed 'f' (by simp) (by decide)
      (trimmed_forwardSlashes (trimNonEmpty_trimmed hid))

end Orqara.Layout
