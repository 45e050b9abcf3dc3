import Orqara.Library.JsString
import Orqara.Library.MergedMaps
import Orqara.Library.ReverseIndex

/-!
# The replica of the workspace directory

Workspaces and projects under their ids, with the ids of the workspaces of each project. Updates say
what the stored copy of the directory has to change; what a snapshot or the cache brings, they do not
say.
-/

namespace Orqara.Directory

/-! ## Descriptors -/

/-- A workspace; `rest` stands for the fields that the replica carries along. -/
structure WorkspaceDescriptor (σ ρ : Type) where
  id : String
  projectId : String
  projectDisplayName : String
  projectCustomName : Option String
  projectCustomIconRevision : Option String
  projectRootPath : String
  projectKind : String
  scripts : σ
  rest : ρ

structure ProjectDescriptor where
  projectId : String
  projectKey : Option String
  projectDisplayName : String
  projectCustomName : Option String
  projectCustomIconRevision : Option String
  projectIconRevision : Option String
  projectRootPath : String
  projectKind : String
  deriving DecidableEq

variable {σ ρ : Type}

/-- The id is trimmed, unless nothing is left of it. -/
def normalizeWorkspaceDescriptor (payload : WorkspaceDescriptor σ ρ) : WorkspaceDescriptor σ ρ :=
  { payload with id := (trimNonEmpty payload.id).getD payload.id }

/-! ## Updates -/

inductive WorkspaceDirectoryDelta (σ ρ : Type)
  | scriptStatus (workspaceId : String) (scripts : σ)
  | upsertProject (project : ProjectDescriptor)
  | removeProject (projectId : String)
  | upsertWorkspace (workspace : WorkspaceDescriptor σ ρ)
  | removeWorkspace (id : String) (emptyProject : Option ProjectDescriptor)
    (removedProjectId : Option String)

inductive DirectoryReplicaMutation (σ ρ : Type)
  | upsertWorkspace (id : String) (value : WorkspaceDescriptor σ ρ)
  | deleteWorkspace (id : String)
  | upsertProject (id : String) (value : ProjectDescriptor)
  | deleteProject (id : String)

/-- Maps of workspaces and projects. -/
structure WorkspaceMaps (σ ρ : Type) where
  workspaces : OrderedMap String (WorkspaceDescriptor σ ρ)
  projects : OrderedMap String ProjectDescriptor

/-- Maps that were built under the ids of the workspaces. -/
structure WorkspaceDirectorySnapshot (σ ρ : Type) extends WorkspaceMaps σ ρ where
  keyed : ∀ id workspace, workspaces.get id = some workspace → workspace.id = id

def DirectoryReplicaMutation.apply (maps : WorkspaceMaps σ ρ) :
    DirectoryReplicaMutation σ ρ → WorkspaceMaps σ ρ
  | .upsertWorkspace id value => { maps with workspaces := maps.workspaces.set id value }
  | .deleteWorkspace id => { maps with workspaces := maps.workspaces.delete id }
  | .upsertProject id value => { maps with projects := maps.projects.set id value }
  | .deleteProject id => { maps with projects := maps.projects.delete id }

/-- A stored copy after mutations. -/
def replay (maps : WorkspaceMaps σ ρ) (mutations : List (DirectoryReplicaMutation σ ρ)) :
    WorkspaceMaps σ ρ := mutations.foldl DirectoryReplicaMutation.apply maps

/-! ## The replica -/

structure WorkspaceDirectoryReplica (σ ρ : Type) extends WorkspaceMaps σ ρ where
  workspaceIdsByProject : OrderedMap String (List String)
  /-- the trimmed ids of the workspaces that are being archived here -/
  pendingArchives : List String

namespace WorkspaceDirectoryReplica

def start : WorkspaceDirectoryReplica σ ρ where
  workspaces := ∅
  projects := ∅
  workspaceIdsByProject := ∅
  pendingArchives := []

variable (r : WorkspaceDirectoryReplica σ ρ)

def shouldSuppressWorkspaceForLocalArchive (workspace : WorkspaceDescriptor σ ρ) : Bool :=
  (trimNonEmpty workspace.id).any (r.pendingArchives.contains ·)

def markWorkspaceArchivePending (workspaceId : String) : WorkspaceDirectoryReplica σ ρ :=
  { r with pendingArchives := (trimNonEmpty workspaceId).toList ++ r.pendingArchives }

def clearWorkspaceArchivePending (workspaceId : String) : WorkspaceDirectoryReplica σ ρ :=
  { r with pendingArchives := r.pendingArchives.filter fun id => trimNonEmpty workspaceId ≠ some id }

def setWorkspace (workspace : WorkspaceDescriptor σ ρ) : WorkspaceDirectoryReplica σ ρ :=
  let previous := r.workspaces.get workspace.id
  let index :=
    if previous.map (·.projectId) = some workspace.projectId then r.workspaceIdsByProject
    else ReverseIndex.remove r.workspaceIdsByProject ((previous.map (·.projectId)).getD "")
      workspace.id
  { r with
    workspaces := r.workspaces.set workspace.id workspace
    workspaceIdsByProject := ReverseIndex.add index workspace.projectId workspace.id }

def deleteWorkspace (workspaceId : String) : WorkspaceDirectoryReplica σ ρ :=
  let index :=
    match r.workspaces.get workspaceId with
    | none => r.workspaceIdsByProject
    | some workspace => ReverseIndex.remove r.workspaceIdsByProject workspace.projectId workspaceId
  { r with workspaces := r.workspaces.delete workspaceId, workspaceIdsByProject := index }

def setProject (project : ProjectDescriptor) : WorkspaceDirectoryReplica σ ρ :=
  { r with projects := r.projects.set project.projectId project }

def deleteProject (projectId : String) : WorkspaceDirectoryReplica σ ρ :=
  { r with projects := r.projects.delete projectId }

def rebuildProjectIndex (workspaces : OrderedMap String (WorkspaceDescriptor σ ρ)) :
    OrderedMap String (List String) :=
  workspaces.entries.foldl
    (fun index entry => ReverseIndex.add index entry.2.projectId entry.2.id) ∅

/-- The maps that replace those of the replica. -/
def replaced (maps : WorkspaceMaps σ ρ) : WorkspaceMaps σ ρ where
  workspaces :=
    { entries := maps.workspaces.entries.filter
        fun entry => !r.shouldSuppressWorkspaceForLocalArchive entry.2
      nodup := maps.workspaces.nodup.sublist (List.filter_sublist.map _) }
  projects := maps.projects

def replace (maps : WorkspaceMaps σ ρ) : WorkspaceDirectoryReplica σ ρ :=
  { r.replaced maps with
    workspaceIdsByProject := rebuildProjectIndex (r.replaced maps).workspaces
    pendingArchives := r.pendingArchives }

/-! ## Operations -/

/-- A replica with the mutations that an operation returns. -/
abbrev Returned (σ ρ : Type) :=
  WorkspaceDirectoryReplica σ ρ × List (DirectoryReplicaMutation σ ρ)

def resolveWorkspaceMapKeyByIdentity (workspaces : OrderedMap String (WorkspaceDescriptor σ ρ))
    (workspaceId : String) : Option String :=
  (trimNonEmpty workspaceId).bind fun normalizedWorkspaceId =>
    if normalizedWorkspaceId ∈ workspaces.keys then some normalizedWorkspaceId
    else
      (workspaces.entries.find? fun entry => trimNonEmpty entry.2.id = some normalizedWorkspaceId).map
        (·.1)

def applyScriptStatus [DecidableEq σ] (workspaceId : String) (scripts : σ) : Returned σ ρ :=
  match (resolveWorkspaceMapKeyByIdentity r.workspaces workspaceId).bind r.workspaces.get with
  | none => (r, [])
  | some workspace =>
    if workspace.scripts = scripts then (r, [])
    else
      let next := { workspace with scripts }
      (r.setWorkspace next, [.upsertWorkspace next.id next])

def removeProject (projectId : String) : Returned σ ρ :=
  (ReverseIndex.members r.workspaceIdsByProject projectId).foldl
    (fun (r, mutations) workspaceId =>
      (r.deleteWorkspace workspaceId, mutations ++ [.deleteWorkspace workspaceId]))
    (r.deleteProject projectId, [.deleteProject projectId])

/-- A workspace of a project that has changed. -/
def inProject (project : ProjectDescriptor) (workspace : WorkspaceDescriptor σ ρ) :
    WorkspaceDescriptor σ ρ :=
  { workspace with
    projectDisplayName := project.projectDisplayName
    projectCustomName := project.projectCustomName
    projectCustomIconRevision := project.projectCustomIconRevision
    projectRootPath := project.projectRootPath
    projectKind := project.projectKind }

def upsertProject (project : ProjectDescriptor) : Returned σ ρ :=
  (ReverseIndex.members r.workspaceIdsByProject project.projectId).foldl
    (fun (r, mutations) workspaceId =>
      match r.workspaces.get workspaceId with
      | none => (r, mutations)
      | some workspace =>
        let next := inProject project workspace
        (r.setWorkspace next, mutations ++ [.upsertWorkspace next.id next]))
    (r.setProject project, [.upsertProject project.projectId project])

def removeWorkspace (id : String) (emptyProject : Option ProjectDescriptor)
    (removedProjectId : Option String) : Returned σ ρ :=
  let removed := r.deleteWorkspace id
  let emptied := emptyProject.elim removed removed.setProject
  let parted := (removedProjectId.filter (· ≠ "")).elim emptied emptied.deleteProject
  (parted.clearWorkspaceArchivePending id,
    [.deleteWorkspace id] ++
      (emptyProject.map fun project => .upsertProject project.projectId project).toList ++
      ((removedProjectId.filter (· ≠ "")).map .deleteProject).toList)

def upsertWorkspace (workspace : WorkspaceDescriptor σ ρ) : Returned σ ρ :=
  if r.shouldSuppressWorkspaceForLocalArchive workspace then
    if workspace.id ∈ r.workspaces.keys then
      (r.deleteWorkspace workspace.id, [.deleteWorkspace workspace.id])
    else (r, [])
  else (r.setWorkspace workspace, [.upsertWorkspace workspace.id workspace])

def applyDelta [DecidableEq σ] : WorkspaceDirectoryDelta σ ρ → Returned σ ρ
  | .scriptStatus workspaceId scripts => r.applyScriptStatus workspaceId scripts
  | .upsertProject project => r.upsertProject project
  | .removeProject projectId => r.removeProject projectId
  | .upsertWorkspace workspace => r.upsertWorkspace (normalizeWorkspaceDescriptor workspace)
  | .removeWorkspace id emptyProject removedProjectId =>
    r.removeWorkspace id emptyProject removedProjectId

/-- Operations in turn, with all that they return. -/
def each {α : Type} (operation : WorkspaceDirectoryReplica σ ρ → α → Returned σ ρ) :
    WorkspaceDirectoryReplica σ ρ → List α → Returned σ ρ
  | r, [] => (r, [])
  | r, x :: xs =>
    let first := operation r x
    let rest := each operation first.1 xs
    (rest.1, first.2 ++ rest.2)

def commitSnapshot [DecidableEq σ] (snapshot : WorkspaceDirectorySnapshot σ ρ)
    (deltas : List (WorkspaceDirectoryDelta σ ρ)) : Returned σ ρ :=
  each (fun r delta => r.applyDelta delta) (r.replace snapshot.toWorkspaceMaps) deltas

/-- What is in the replica already is kept. -/
def cachedMaps (input : WorkspaceDirectorySnapshot σ ρ) : WorkspaceMaps σ ρ where
  workspaces := input.workspaces.mergeWith (fun _ workspace => workspace) r.workspaces
  projects := input.projects.mergeWith (fun _ project => project) r.projects

def commitCached (input : WorkspaceDirectorySnapshot σ ρ) : WorkspaceDirectoryReplica σ ρ :=
  r.replace (r.cachedMaps input)

def commitCachedWorkspace (workspace : WorkspaceDescriptor σ ρ) (project : Option ProjectDescriptor) :
    WorkspaceDirectoryReplica σ ρ :=
  if r.shouldSuppressWorkspaceForLocalArchive workspace then r
  else (project.elim r r.setProject).setWorkspace workspace

def acceptWorkspaces (workspaces : List (WorkspaceDescriptor σ ρ)) : Returned σ ρ :=
  each upsertWorkspace r workspaces

def acceptProject (project : ProjectDescriptor) : Returned σ ρ :=
  (r.setProject project, [.upsertProject project.projectId project])

def removeWorkspaceSnapshot (workspaceId : String) : Returned σ ρ :=
  (r.deleteWorkspace workspaceId, [.deleteWorkspace workspaceId])

end WorkspaceDirectoryReplica

inductive ReplicaOperation (σ ρ : Type)
  | applyDelta (delta : WorkspaceDirectoryDelta σ ρ)
  | commitCached (input : WorkspaceDirectorySnapshot σ ρ)
  | commitCachedWorkspace (workspace : WorkspaceDescriptor σ ρ) (project : Option ProjectDescriptor)
  | commitSnapshot (snapshot : WorkspaceDirectorySnapshot σ ρ)
    (deltas : List (WorkspaceDirectoryDelta σ ρ))
  | acceptWorkspaces (workspaces : List (WorkspaceDescriptor σ ρ))
  | acceptProject (project : ProjectDescriptor)
  | removeWorkspaceSnapshot (workspaceId : String)
  /-- an archive of a workspace is asked for, or given up, elsewhere -/
  | markArchivePending (workspaceId : String)
  | clearArchivePending (workspaceId : String)

namespace WorkspaceDirectoryReplica

variable [DecidableEq σ]

/-- An operation with the mutations it returns; the commits of what was cached return none. -/
def perform (r : WorkspaceDirectoryReplica σ ρ) : ReplicaOperation σ ρ → Returned σ ρ
  | .applyDelta delta => r.applyDelta delta
  | .commitCached input => (r.commitCached input, [])
  | .commitCachedWorkspace workspace project => (r.commitCachedWorkspace workspace project, [])
  | .commitSnapshot snapshot deltas => r.commitSnapshot snapshot deltas
  | .acceptWorkspaces workspaces => r.acceptWorkspaces workspaces
  | .acceptProject project => r.acceptProject project
  | .removeWorkspaceSnapshot workspaceId => r.removeWorkspaceSnapshot workspaceId
  | .markArchivePending workspaceId => (r.markWorkspaceArchivePending workspaceId, [])
  | .clearArchivePending workspaceId => (r.clearWorkspaceArchivePending workspaceId, [])

def run (r : WorkspaceDirectoryReplica σ ρ) (operations : List (ReplicaOperation σ ρ)) :
    Returned σ ρ := each perform r operations

end WorkspaceDirectoryReplica

end Orqara.Directory
