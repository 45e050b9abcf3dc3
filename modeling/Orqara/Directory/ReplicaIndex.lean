import Orqara.Directory.WorkspaceReplica

/-!
# The index and the mutations of the replica

The index has the ids of the workspaces of every project, and the mutations that are returned make of
the maps before an operation those after it. A commit of a snapshot returns what its updates do to the
maps of the snapshot.
-/

namespace Orqara.Directory

namespace WorkspaceDirectoryReplica

variable {σ ρ : Type} {r r' : WorkspaceDirectoryReplica σ ρ}
  {mutations : List (DirectoryReplicaMutation σ ρ)}

/-! ## What an operation keeps -/

structure Inv (r : WorkspaceDirectoryReplica σ ρ) : Prop where
  keyed : ∀ id workspace, r.workspaces.get id = some workspace → workspace.id = id
  index : ReverseIndex.Exact (·.projectId) r.workspaces r.workspaceIdsByProject

theorem inv_start : Inv (start : WorkspaceDirectoryReplica σ ρ) where
  keyed := nofun
  index := ReverseIndex.exact_empty

section

variable (h : Inv r)
include h

section

variable (workspace : WorkspaceDescriptor σ ρ)

theorem Inv.setWorkspace :
    Inv (r.setWorkspace workspace) where
  keyed := by
    intro id other hother
    change (r.workspaces.set workspace.id workspace).get id = some other at hother
    rw [OrderedMap.get_set] at hother
    split at hother
    · next hid => rw [hid, ← Option.some.inj hother]
    · exact h.keyed id other hother
  index := by
    apply h.index.set
    · intro projectId id
      split
      · next hsame =>
        obtain ⟨previous, hprevious, hproject⟩ := Option.map_eq_some_iff.mp hsame
        refine ⟨fun hmem => ⟨hmem, ?_⟩, And.left⟩
        rintro rfl
        obtain ⟨same, hget, hid⟩ := (h.index.mem _ _).mp hmem
        rw [hprevious] at hget
        rw [← hid, ← hproject, Option.some.inj hget]
      · next hmoved =>
        rw [ReverseIndex.mem_members_remove]
        refine and_congr_right fun hmem => ?_
        obtain ⟨previous, hprevious, hproject⟩ := (h.index.mem _ _).mp hmem
        constructor
        · rintro hother rfl
          rw [hprevious] at hother
          exact absurd rfl (hother hproject.symm)
        · rintro hnew - rfl
          rw [hprevious, ← hnew rfl, ← hproject] at hmoved
          exact hmoved rfl
    · intro projectId
      split
      · exact h.index.nodup projectId
      · exact ReverseIndex.nodup_members_remove (h.index.nodup projectId)

section

variable (workspaceId : String)

theorem Inv.deleteWorkspace : Inv (r.deleteWorkspace workspaceId) where
  keyed := by
    intro id other hother
    change (r.workspaces.delete workspaceId).get id = some other at hother
    rw [OrderedMap.get_delete] at hother
    split at hother
    · contradiction
    · exact h.keyed id other hother
  index := by
    show ReverseIndex.Exact _ (r.workspaces.delete workspaceId) _
    unfold WorkspaceDirectoryReplica.deleteWorkspace
    simp only []
    cases hget : r.workspaces.get workspaceId with
    | none =>
      apply h.index.delete
      · intro projectId id
        refine (and_iff_left_of_imp fun hmem => ?_).symm
        rintro rfl
        obtain ⟨workspace, hworkspace, -⟩ := (h.index.mem _ _).mp hmem
        rw [hget] at hworkspace
        contradiction
      · exact h.index.nodup
    | some workspace =>
      apply h.index.delete
      · intro projectId id
        rw [ReverseIndex.mem_members_remove]
        refine and_congr_right fun hmem => ⟨?_, fun hne _ => hne⟩
        rintro hother rfl
        obtain ⟨same, hsame, hproject⟩ := (h.index.mem _ _).mp hmem
        rw [hget] at hsame
        rw [← Option.some.inj hsame] at hproject
        exact hother hproject.symm rfl
      · exact fun projectId => ReverseIndex.nodup_members_remove (h.index.nodup projectId)

theorem Inv.projects (projects : OrderedMap String ProjectDescriptor) :
    Inv { r with projects } := ⟨h.keyed, h.index⟩

theorem Inv.pendingArchives (pendingArchives : List String) :
    Inv { r with pendingArchives } := ⟨h.keyed, h.index⟩

omit h in
theorem Inv.replace (r : WorkspaceDirectoryReplica σ ρ) {maps : WorkspaceMaps σ ρ}
    (hkeyed : ∀ id workspace, maps.workspaces.get id = some workspace → workspace.id = id) :
    Inv (r.replace maps) := by
  have hreplaced : ∀ id workspace, (r.replaced maps).workspaces.get id = some workspace →
      workspace.id = id := by
    intro id workspace hget
    have hmem := (List.mem_filter.mp (OrderedMap.get_eq_some_iff.mp hget)).1
    exact hkeyed id workspace (OrderedMap.get_eq_some_iff.mpr hmem)
  refine ⟨hreplaced, ?_⟩
  have hbuild : rebuildProjectIndex (r.replaced maps).workspaces =
      ReverseIndex.build (·.projectId) (r.replaced maps).workspaces := by
    apply List.foldl_ext
    intro index entry hentry
    rw [hreplaced entry.1 entry.2 (OrderedMap.get_eq_some_iff.mpr hentry)]
  show ReverseIndex.Exact _ _ (rebuildProjectIndex (r.replaced maps).workspaces)
  rw [hbuild]
  exact ReverseIndex.exact_build _ _

/-! ## Mutations -/

omit h in
@[simp] theorem replay_nil (maps : WorkspaceMaps σ ρ) : replay maps [] = maps := rfl

omit h in
theorem replay_append (maps : WorkspaceMaps σ ρ) (xs ys : List (DirectoryReplicaMutation σ ρ)) :
    replay maps (xs ++ ys) = replay (replay maps xs) ys := List.foldl_append

/-- What is returned of a replica that keeps its index: one that does, and the mutations between. -/
structure Tracks (r : WorkspaceDirectoryReplica σ ρ) (returned : Returned σ ρ) : Prop where
  inv : Inv returned.1
  maps : returned.1.toWorkspaceMaps = replay r.toWorkspaceMaps returned.2

theorem Tracks.refl : Tracks r (r, []) := ⟨h, rfl⟩

omit h in
theorem Tracks.trans {next : Returned σ ρ} (h : Tracks r (r', mutations)) (hnext : Tracks r' next) :
    Tracks r (next.1, mutations ++ next.2) where
  inv := hnext.inv
  maps := by
    rw [replay_append, ← h.maps]
    exact hnext.maps

theorem tracks_setWorkspace :
    Tracks r (r.setWorkspace workspace, [.upsertWorkspace workspace.id workspace]) :=
  ⟨h.setWorkspace workspace, rfl⟩

theorem tracks_deleteWorkspace :
    Tracks r (r.deleteWorkspace workspaceId, [.deleteWorkspace workspaceId]) :=
  ⟨h.deleteWorkspace workspaceId, rfl⟩

theorem tracks_setProject (project : ProjectDescriptor) :
    Tracks r (r.setProject project, [.upsertProject project.projectId project]) :=
  ⟨h.projects _, rfl⟩

theorem tracks_deleteProject (projectId : String) :
    Tracks r (r.deleteProject projectId, [.deleteProject projectId]) :=
  ⟨h.projects _, rfl⟩

omit h in
/-- Steps over a list, each of which goes on from what was returned before. -/
theorem Tracks.foldl {α : Type} {step : Returned σ ρ → α → Returned σ ρ}
    (hstep : ∀ returned x, Tracks r returned → Tracks r (step returned x)) {returned : Returned σ ρ}
    (h : Tracks r returned) (xs : List α) : Tracks r (xs.foldl step returned) := by
  induction xs generalizing returned with
  | nil => exact h
  | cons x xs ih => exact ih (hstep returned x h)

omit h in
theorem tracks_each {α : Type} {operation : WorkspaceDirectoryReplica σ ρ → α → Returned σ ρ}
    (hoperation : ∀ r x, Inv r → Tracks r (operation r x)) (h : Inv r) (xs : List α) :
    Tracks r (each operation r xs) := by
  induction xs generalizing r with
  | nil => exact .refl h
  | cons x xs ih =>
    have hfirst := hoperation r x h
    exact hfirst.trans (ih hfirst.inv)

theorem tracks_removeProject (projectId : String) :
    Tracks r (r.removeProject projectId) := by
  apply Tracks.foldl
  · rintro ⟨s, mutations⟩ workspaceId hs
    exact hs.trans (tracks_deleteWorkspace hs.inv workspaceId)
  · exact tracks_deleteProject h projectId

theorem tracks_upsertProject (project : ProjectDescriptor) :
    Tracks r (r.upsertProject project) := by
  apply Tracks.foldl
  · rintro ⟨s, mutations⟩ workspaceId hs
    simp only []
    split
    · exact hs
    · exact hs.trans (tracks_setWorkspace hs.inv _)
  · exact tracks_setProject h project

theorem tracks_removeWorkspace (id : String) (emptyProject : Option ProjectDescriptor)
    (removedProjectId : Option String) :
    Tracks r (r.removeWorkspace id emptyProject removedProjectId) := by
  have hremoved := tracks_deleteWorkspace h id
  have hemptied : Tracks r (emptyProject.elim (r.deleteWorkspace id) (r.deleteWorkspace id).setProject,
      [.deleteWorkspace id] ++
        (emptyProject.map fun project => .upsertProject project.projectId project).toList) := by
    cases emptyProject with
    | none => exact hremoved
    | some project => exact hremoved.trans (tracks_setProject hremoved.inv project)
  unfold WorkspaceDirectoryReplica.removeWorkspace
  simp only []
  generalize emptyProject.elim (r.deleteWorkspace id) (r.deleteWorkspace id).setProject = emptied at *
  have hparted : Tracks r ((removedProjectId.filter (· ≠ "")).elim emptied emptied.deleteProject,
      [.deleteWorkspace id] ++
        (emptyProject.map fun project => .upsertProject project.projectId project).toList ++
        ((removedProjectId.filter (· ≠ "")).map .deleteProject).toList) := by
    cases removedProjectId.filter (· ≠ "") with
    | none => simpa using hemptied
    | some projectId => exact hemptied.trans (tracks_deleteProject hemptied.inv projectId)
  exact ⟨hparted.inv.pendingArchives _, hparted.maps⟩

theorem tracks_upsertWorkspace :
    Tracks r (r.upsertWorkspace workspace) := by
  unfold WorkspaceDirectoryReplica.upsertWorkspace
  split
  · split
    · exact tracks_deleteWorkspace h workspace.id
    · exact .refl h
  · exact tracks_setWorkspace h workspace

theorem tracks_applyScriptStatus [DecidableEq σ] (scripts : σ) :
    Tracks r (r.applyScriptStatus workspaceId scripts) := by
  unfold WorkspaceDirectoryReplica.applyScriptStatus
  split
  · exact .refl h
  · split
    · exact .refl h
    · exact tracks_setWorkspace h _

end

theorem tracks_applyDelta [DecidableEq σ] (delta : WorkspaceDirectoryDelta σ ρ) :
    Tracks r (r.applyDelta delta) := by
  cases delta with
  | scriptStatus workspaceId scripts => exact tracks_applyScriptStatus h workspaceId scripts
  | upsertProject project => exact tracks_upsertProject h project
  | removeProject projectId => exact tracks_removeProject h projectId
  | upsertWorkspace workspace => exact tracks_upsertWorkspace h _
  | removeWorkspace id emptyProject removedProjectId =>
    exact tracks_removeWorkspace h id emptyProject removedProjectId

theorem tracks_acceptWorkspaces (workspaces : List (WorkspaceDescriptor σ ρ)) :
    Tracks r (r.acceptWorkspaces workspaces) :=
  tracks_each (fun _ workspace hs => tracks_upsertWorkspace hs workspace) h workspaces

/-! ## Commits -/

omit h in
theorem tracks_commitSnapshot [DecidableEq σ] (r : WorkspaceDirectoryReplica σ ρ)
    (snapshot : WorkspaceDirectorySnapshot σ ρ) (deltas : List (WorkspaceDirectoryDelta σ ρ)) :
    Tracks (r.replace snapshot.toWorkspaceMaps) (r.commitSnapshot snapshot deltas) :=
  tracks_each (fun _ delta hs => tracks_applyDelta hs delta) (.replace r snapshot.keyed) deltas

theorem keyed_cachedMaps (input : WorkspaceDirectorySnapshot σ ρ) (id : String)
    (workspace : WorkspaceDescriptor σ ρ) (hget : (r.cachedMaps input).workspaces.get id = some workspace) :
    workspace.id = id := by
  change (input.workspaces.mergeWith _ r.workspaces).get id = some workspace at hget
  rw [OrderedMap.get_mergeWith] at hget
  cases hown : r.workspaces.get id with
  | none =>
    rw [hown] at hget
    exact input.keyed id workspace hget
  | some own =>
    rw [hown] at hget
    rw [← Option.some.inj hget]
    exact h.keyed id own hown

/-- A stored copy as an operation finds it: with what is committed, if something is. -/
def taken (r : WorkspaceDirectoryReplica σ ρ) (store : WorkspaceMaps σ ρ) :
    ReplicaOperation σ ρ → WorkspaceMaps σ ρ
  | .commitSnapshot snapshot _ => r.replaced snapshot.toWorkspaceMaps
  | .commitCached input => r.replaced (r.cachedMaps input)
  | .commitCachedWorkspace workspace project =>
    if r.shouldSuppressWorkspaceForLocalArchive workspace then store
    else
      { workspaces := store.workspaces.set workspace.id workspace
        projects := project.elim store.projects fun p => store.projects.set p.projectId p }
  | _ => store

theorem taken_commitCachedWorkspace (project : Option ProjectDescriptor) :
    Inv (r.commitCachedWorkspace workspace project) ∧
      (r.commitCachedWorkspace workspace project).toWorkspaceMaps =
        r.taken r.toWorkspaceMaps (.commitCachedWorkspace workspace project) := by
  by_cases hsuppressed : r.shouldSuppressWorkspaceForLocalArchive workspace = true
  · have hreplica : r.commitCachedWorkspace workspace project = r := by
      rw [commitCachedWorkspace, if_pos hsuppressed]
    have htaken : r.taken r.toWorkspaceMaps (.commitCachedWorkspace workspace project) =
        r.toWorkspaceMaps := by
      rw [taken, if_pos hsuppressed]
    rw [hreplica, htaken]
    exact ⟨h, rfl⟩
  · have hreplica : r.commitCachedWorkspace workspace project =
        (project.elim r r.setProject).setWorkspace workspace := by
      rw [commitCachedWorkspace, if_neg hsuppressed]
    have htaken : r.taken r.toWorkspaceMaps (.commitCachedWorkspace workspace project) =
        ⟨r.workspaces.set workspace.id workspace,
          project.elim r.projects fun p => r.projects.set p.projectId p⟩ := by
      rw [taken, if_neg hsuppressed]
    rw [hreplica, htaken]
    cases project with
    | none => exact ⟨h.setWorkspace workspace, rfl⟩
    | some project => exact ⟨(h.projects _).setWorkspace workspace, rfl⟩

end

theorem tracks_pendingArchives (pendingArchives : List String) :
    Tracks r ({ r with pendingArchives }, []) where
  inv := h.pendingArchives pendingArchives
  maps := by rw [replay_nil]

end

variable [DecidableEq σ]

/-- The operations whose mutations tell all that they change. -/
theorem Tracks.perform {operation : ReplicaOperation σ ρ} {returned : Returned σ ρ}
    (ht : Tracks r returned) (hperform : r.perform operation = returned)
    (htaken : r.taken r.toWorkspaceMaps operation = r.toWorkspaceMaps) :
    Inv (r.perform operation).1 ∧ (r.perform operation).1.toWorkspaceMaps =
      replay (r.taken r.toWorkspaceMaps operation) (r.perform operation).2 := by
  rw [hperform, htaken]
  exact ⟨ht.inv, ht.maps⟩

/-- An operation keeps the index, and a copy of the maps up to date with its mutations. -/
theorem tracks_perform (h : Inv r) (operation : ReplicaOperation σ ρ) :
    Inv (r.perform operation).1 ∧ (r.perform operation).1.toWorkspaceMaps =
      replay (r.taken r.toWorkspaceMaps operation) (r.perform operation).2 := by
  cases operation with
  | applyDelta delta =>
    have hperform : r.perform (.applyDelta delta) = r.applyDelta delta := rfl
    exact (tracks_applyDelta h delta).perform hperform rfl
  | commitCached input => exact ⟨.replace r (keyed_cachedMaps h input), rfl⟩
  | commitCachedWorkspace workspace project =>
    have hperform : r.perform (.commitCachedWorkspace workspace project) =
        (r.commitCachedWorkspace workspace project, []) := rfl
    have htaken := taken_commitCachedWorkspace h workspace project
    rw [hperform]
    simpa only [replay_nil] using htaken
  | commitSnapshot snapshot deltas =>
    have hcommitted := tracks_commitSnapshot r snapshot deltas
    exact ⟨hcommitted.inv, hcommitted.maps⟩
  | acceptWorkspaces workspaces => exact (tracks_acceptWorkspaces h workspaces).perform rfl rfl
  | acceptProject project => exact (tracks_setProject h project).perform rfl rfl
  | removeWorkspaceSnapshot workspaceId =>
    exact (tracks_deleteWorkspace h workspaceId).perform rfl rfl
  | markArchivePending workspaceId => exact (tracks_pendingArchives h _).perform rfl rfl
  | clearArchivePending workspaceId => exact (tracks_pendingArchives h _).perform rfl rfl

/-! ## Runs -/

/-- A stored copy that takes what is committed and replays the mutations of every operation. -/
def stored (r : WorkspaceDirectoryReplica σ ρ) (store : WorkspaceMaps σ ρ) :
    List (ReplicaOperation σ ρ) → WorkspaceMaps σ ρ
  | [] => store
  | operation :: operations =>
    (r.perform operation).1.stored
      (replay (r.taken store operation) (r.perform operation).2) operations

theorem inv_run (h : Inv r) (operations : List (ReplicaOperation σ ρ)) :
    Inv (r.run operations).1 ∧
      r.stored r.toWorkspaceMaps operations = (r.run operations).1.toWorkspaceMaps := by
  induction operations generalizing r with
  | nil => exact ⟨h, rfl⟩
  | cons operation operations ih =>
    obtain ⟨hinv, hmaps⟩ := tracks_perform h operation
    obtain ⟨hrun, hstored⟩ := ih hinv
    refine ⟨hrun, ?_⟩
    rw [stored, ← hmaps, hstored]
    rfl

/-- After every run, the index has under each project the ids of its workspaces, once each, and a
stored copy that started with nothing has the maps of the replica. -/
theorem replica_index_exact (operations : List (ReplicaOperation σ ρ)) :
    let r := ((start : WorkspaceDirectoryReplica σ ρ).run operations).1
    (∀ projectId id, id ∈ ReverseIndex.members r.workspaceIdsByProject projectId ↔
      ∃ workspace, r.workspaces.get id = some workspace ∧ workspace.projectId = projectId) ∧
    (∀ projectId, (ReverseIndex.members r.workspaceIdsByProject projectId).Nodup) ∧
    (start : WorkspaceDirectoryReplica σ ρ).stored ⟨∅, ∅⟩ operations = r.toWorkspaceMaps := by
  obtain ⟨hinv, hstored⟩ := inv_run inv_start operations
  exact ⟨hinv.index.mem, hinv.index.nodup, hstored⟩

/-! ## What is left and what is not said -/

def plainWorkspace : WorkspaceDescriptor Unit Unit where
  id := "w"
  projectId := "p"
  projectDisplayName := "p"
  projectCustomName := none
  projectCustomIconRevision := none
  projectRootPath := "/p"
  projectKind := "git"
  scripts := ()
  rest := ()

def plainSnapshot : WorkspaceDirectorySnapshot Unit Unit where
  workspaces := ⟨[("w", plainWorkspace)], List.nodup_singleton _⟩
  projects := ∅
  keyed := by
    intro id workspace hget
    have hmem := OrderedMap.get_eq_some_iff.mp hget
    rw [List.mem_singleton] at hmem
    obtain ⟨rfl, rfl⟩ := Prod.mk.inj hmem
    rfl

/-- A set that has become empty stays in the index, and a snapshot is committed without a word. -/
theorem empty_sets_and_silent_commits :
    ((start : WorkspaceDirectoryReplica Unit Unit).run
        [.acceptWorkspaces [plainWorkspace], .removeWorkspaceSnapshot "w"]).1.workspaceIdsByProject.get
      "p" = some [] ∧
    ((start : WorkspaceDirectoryReplica Unit Unit).run
        [.commitSnapshot plainSnapshot []]).1.workspaces.keys = ["w"] ∧
    (replay ⟨∅, ∅⟩ ((start : WorkspaceDirectoryReplica Unit Unit).run
        [.commitSnapshot plainSnapshot []]).2).workspaces.keys = [] := by
  decide +kernel

end WorkspaceDirectoryReplica

end Orqara.Directory
