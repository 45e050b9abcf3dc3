import Orqara.Library.Fallible
import Orqara.Labels.LabelService

/-!
# Labels and assignments stay consistent

Workspaces store the names of labels, and the catalog stores a definition for each key. Every
operation of the service keeps the names that are carried spelled as the catalog has them.
-/

namespace Orqara.Labels

open LabelState List Option

variable {ρ : Type} {toLowerCase : String → String}

/-! ## Updates and assignments -/

section Updates

variable {workspaces : OrderedMap String (PersistedWorkspaceRecord ρ)}
  {updates : List (PersistedWorkspaceRecord ρ)} {workspaceId : String}
  {workspace : PersistedWorkspaceRecord ρ}

theorem applyUpdates_get (workspaces : OrderedMap String (PersistedWorkspaceRecord ρ))
    (updates : List (PersistedWorkspaceRecord ρ)) (workspaceId : String) :
    (∃ workspace ∈ updates, workspace.workspaceId = workspaceId ∧
        (applyUpdates workspaces updates).get workspaceId = some workspace) ∨
      (∀ workspace ∈ updates, workspace.workspaceId ≠ workspaceId) ∧
        (applyUpdates workspaces updates).get workspaceId = workspaces.get workspaceId := by
  unfold applyUpdates
  induction updates generalizing workspaces with
  | nil => exact Or.inr ⟨by simp, rfl⟩
  | cons record updates ih =>
    rw [foldl_cons]
    rcases ih (workspaces.set record.workspaceId record) with ⟨workspace, hmem, hid, hget⟩ | hrest
    · exact Or.inl ⟨workspace, mem_cons_of_mem _ hmem, hid, hget⟩
    · by_cases hid : record.workspaceId = workspaceId
      · refine Or.inl ⟨record, mem_cons_self, hid, ?_⟩
        rw [hrest.2, hid, OrderedMap.get_set_self]
      · refine Or.inr ⟨?_, ?_⟩
        · intro workspace hmem
          rcases mem_cons.mp hmem with rfl | hmem
          · exact hid
          · exact hrest.1 workspace hmem
        · rw [hrest.2, OrderedMap.get_set_ne fun heq => hid heq.symm]

/-- Every workspace is stored under its own id. -/
def KeyedById (workspaces : OrderedMap String (PersistedWorkspaceRecord ρ)) : Prop :=
  ∀ workspaceId workspace, workspaces.get workspaceId = some workspace →
    workspace.workspaceId = workspaceId

theorem keyedById_empty : KeyedById (∅ : OrderedMap String (PersistedWorkspaceRecord ρ)) := by
  intro workspaceId workspace h
  rw [OrderedMap.get_empty] at h
  cases h

theorem KeyedById.set (h : KeyedById workspaces) (workspace : PersistedWorkspaceRecord ρ) :
    KeyedById (workspaces.set workspace.workspaceId workspace) := by
  intro workspaceId found hget
  rw [OrderedMap.get_set] at hget
  by_cases hid : workspaceId = workspace.workspaceId
  · rw [if_pos hid] at hget
    rw [hid, ← some.inj hget]
  · rw [if_neg hid] at hget
    exact h workspaceId found hget

theorem KeyedById.applyUpdates (h : KeyedById workspaces)
    (updates : List (PersistedWorkspaceRecord ρ)) :
    KeyedById (Labels.applyUpdates workspaces updates) := by
  unfold Labels.applyUpdates
  induction updates generalizing workspaces with
  | nil => exact h
  | cons record updates ih => exact ih (h.set record)

@[simp] theorem storedLabels_getD (labels : List String) :
    (storedLabels labels).getD [] = labels := by
  unfold storedLabels
  by_cases h : labels = []
  · simp [h]
  · simp [h]

end Updates

namespace LabelState

variable {state : LabelState ρ} {workspaceId : String} {workspace : PersistedWorkspaceRecord ρ}
  {mutation : WorkspaceLabelMutation ρ} {before : LabelState ρ}

theorem assignments_of_get (h : state.workspaces.get workspaceId = some workspace) :
    state.assignments workspaceId = workspace.carried := by
  rw [assignments, h]
  rfl

theorem assignments_of_get_none (h : state.workspaces.get workspaceId = none) :
    state.assignments workspaceId = [] := by
  rw [assignments, h]
  rfl

theorem assignments_congr {state' : LabelState ρ}
    (h : state'.workspaces.get workspaceId = state.workspaces.get workspaceId) :
    state'.assignments workspaceId = state.assignments workspaceId := by
  rw [assignments, assignments, h]

@[simp] theorem upsertWorkspace_catalog (state : LabelState ρ) (input : WorkspaceUpsert ρ) :
    (state.upsertWorkspace input).catalog = state.catalog := rfl

@[simp] theorem upsertWorkspace_assignments (state : LabelState ρ) (input : WorkspaceUpsert ρ) :
    (state.upsertWorkspace input).assignments = state.assignments := by
  funext workspaceId
  by_cases hid : workspaceId = input.workspaceId
  · simp only [assignments, upsertWorkspace, hid, OrderedMap.get_set_self]
    cases state.workspaces.get input.workspaceId with
    | none => rfl
    | some workspace => rfl
  · apply assignments_congr
    exact OrderedMap.get_set_ne hid

section

variable (h : KeyedById state.workspaces)
include h

theorem upsertWorkspace_keyedById (input : WorkspaceUpsert ρ) :
    KeyedById (state.upsertWorkspace input).workspaces :=
  h.set (input.record ((state.workspaces.get input.workspaceId).bind (·.labels)))

/-- Upserts of workspaces leave the catalog and the assignments as they are. -/
theorem upserts_unchanged (inputs : List (WorkspaceUpsert ρ)) :
    (inputs.foldl upsertWorkspace state).catalog = state.catalog ∧
      (inputs.foldl upsertWorkspace state).assignments = state.assignments ∧
        KeyedById (inputs.foldl upsertWorkspace state).workspaces := by
  induction inputs generalizing state with
  | nil => exact ⟨rfl, rfl, h⟩
  | cons input inputs ih =>
    have hrest := ih (upsertWorkspace_keyedById h input)
    rw [upsertWorkspace_catalog, upsertWorkspace_assignments] at hrest
    exact hrest

/-! ## Rolling back -/

omit h in
/-- A workspace that is restored carries what it carried when the transaction was planned. -/
theorem carried_of_restored (hbefore : KeyedById before.workspaces) (hstate : KeyedById state.workspaces)
    (h : workspace ∈ state.restored (transactionFor before mutation)) :
    workspace.carried = before.assignments workspace.workspaceId := by
  obtain ⟨saved, hsaved, hworkspace⟩ := mem_filterMap.mp h
  obtain ⟨update, -, hupdate⟩ := mem_filterMap.mp hsaved
  obtain ⟨old, hold, rfl⟩ := map_eq_some_iff.mp hupdate
  obtain ⟨current, hcurrent, rfl⟩ := map_eq_some_iff.mp hworkspace
  have hcurrentId : current.workspaceId = old.workspaceId := hstate _ _ hcurrent
  have hget : before.workspaces.get old.workspaceId = some old := by
    rw [hbefore _ _ hold]
    exact hold
  show old.carried = before.assignments current.workspaceId
  rw [hcurrentId, assignments_of_get hget]

omit h in
theorem recover_assignments (mutation : WorkspaceLabelMutation ρ) (hbefore : KeyedById before.workspaces)
    (hstate : KeyedById state.workspaces) (hsame : state.assignments = before.assignments) :
    (state.recover (transactionFor before mutation)).assignments = before.assignments := by
  funext workspaceId
  rcases applyUpdates_get state.workspaces (state.restored (transactionFor before mutation))
    workspaceId with ⟨workspace, hmem, hid, hget⟩ | ⟨-, hget⟩
  · rw [assignments_of_get hget, carried_of_restored hbefore hstate hmem, hid]
  · rw [assignments_congr hget, hsame]

theorem recover_keyedById (transaction : WorkspaceLabelTransaction) :
    KeyedById (state.recover transaction).workspaces :=
  h.applyUpdates _

/-! ## What a commit makes of the assignments -/

theorem commit_keyedById (mutation : WorkspaceLabelMutation ρ) :
    KeyedById (state.commit mutation).workspaces :=
  h.applyUpdates _

end

theorem commit_assignments_nil (h : mutation.workspaceUpdates = []) :
    (state.commit mutation).assignments = state.assignments := by
  funext workspaceId
  apply assignments_congr
  rw [commit, h]
  rfl

/-- A commit that updates a single workspace. -/
theorem commit_assignments_singleton (h : mutation.workspaceUpdates = [workspace]) :
    (state.commit mutation).assignments =
      Function.update state.assignments workspace.workspaceId workspace.carried := by
  funext workspaceId
  by_cases hid : workspaceId = workspace.workspaceId
  · rw [hid, Function.update_self]
    apply assignments_of_get
    rw [commit, h]
    exact OrderedMap.get_set_self
  · rw [Function.update_of_ne hid]
    apply assignments_congr
    rw [commit, h]
    exact OrderedMap.get_set_ne hid

theorem rewriteLabels_of_forall_ne {labels : List String} {fromKey : String}
    (h : ∀ label ∈ labels, workspaceLabelKey toLowerCase label ≠ fromKey)
    (target : Option String) : rewriteLabels toLowerCase labels fromKey target = labels := by
  induction labels with
  | nil => rfl
  | cons label labels ih =>
    have hrest := ih fun name hname => h name (mem_cons_of_mem _ hname)
    unfold rewriteLabels at hrest ⊢
    rw [flatMap_cons, if_neg (h label mem_cons_self), hrest]
    rfl

/-- Rewriting the assignments rewrites the labels of every workspace. -/
theorem commit_assignments_rewrite (h : KeyedById state.workspaces) {fromKey now : String}
    {target : Option String} (hupdates : mutation.workspaceUpdates =
      rewriteAssignments toLowerCase state.workspaces fromKey target now) (workspaceId : String) :
    (state.commit mutation).assignments workspaceId =
      rewriteLabels toLowerCase (state.assignments workspaceId) fromKey target := by
  rcases applyUpdates_get state.workspaces mutation.workspaceUpdates workspaceId with
    ⟨workspace, hmem, hid, hget⟩ | ⟨hnone, hget⟩
  · rw [hupdates, rewriteAssignments] at hmem
    obtain ⟨entry, hentry, rfl⟩ := List.mem_map.mp hmem
    have hold : state.workspaces.get entry.1 = some entry.2 :=
      OrderedMap.get_eq_some_iff.mpr (mem_filter.mp hentry).1
    have hkey : entry.1 = workspaceId := (h _ _ hold).symm.trans hid
    rw [← hkey] at hget ⊢
    rw [assignments_of_get hold]
    apply (assignments_of_get hget).trans
    exact storedLabels_getD _
  · have hsame : (state.commit mutation).assignments workspaceId = state.assignments workspaceId :=
      assignments_congr hget
    rw [hsame]
    symm
    apply rewriteLabels_of_forall_ne
    intro label hlabel heq
    cases hfound : state.workspaces.get workspaceId with
    | none =>
      rw [assignments_of_get_none hfound] at hlabel
      cases hlabel
    | some workspace =>
      rw [assignments_of_get hfound] at hlabel
      -- the workspace carries a label of the key, so it is among the updates
      have hmem : { workspace with
          labels := storedLabels (rewriteLabels toLowerCase workspace.carried fromKey target)
          updatedAt := now } ∈ mutation.workspaceUpdates := by
        rw [hupdates, rewriteAssignments]
        apply List.mem_map.mpr
        refine ⟨(workspaceId, workspace), mem_filter.mpr ⟨?_, ?_⟩, rfl⟩
        · exact OrderedMap.get_eq_some_iff.mp hfound
        · exact List.any_eq_true.mpr ⟨label, hlabel, by simpa using heq⟩
      exact hnone _ hmem (h workspaceId workspace hfound)

end LabelState

/-! ## Keys of the catalog -/

section Catalog

variable {catalog : List WorkspaceLabelDefinition} {key : String} {index : ℕ}
  {existing label : WorkspaceLabelDefinition}

/-- The keys of the labels of a catalog. -/
def catalogKeys (toLowerCase : String → String) (catalog : List WorkspaceLabelDefinition) :
    List String :=
  catalog.map fun label => workspaceLabelKey toLowerCase label.name

theorem findLabel_eq_some (h : findLabel toLowerCase catalog key = some (existing, index)) :
    catalog[index]? = some existing ∧ workspaceLabelKey toLowerCase existing.name = key := by
  have hmem := mem_of_find?_eq_some h
  have hkey := find?_some h
  exact ⟨mem_zipIdx_iff_getElem?.mp hmem, by simpa using hkey⟩

theorem findLabel_eq_none_iff :
    findLabel toLowerCase catalog key = none ↔ key ∉ catalogKeys toLowerCase catalog := by
  unfold findLabel catalogKeys
  rw [find?_eq_none, List.mem_map]
  constructor
  · rintro h ⟨label, hlabel, hkey⟩
    obtain ⟨index, hindex⟩ := mem_iff_getElem?.mp hlabel
    apply h (label, index) (mem_zipIdx_iff_getElem?.mpr hindex)
    simpa using hkey
  · intro h entry hentry hkey
    apply h
    refine ⟨entry.1, mem_of_getElem? (mem_zipIdx_iff_getElem?.mp hentry), ?_⟩
    simpa using hkey

/-- Two labels of one key are one label. -/
theorem eq_of_key_eq (hnodup : (catalogKeys toLowerCase catalog).Nodup)
    (hlabel : label ∈ catalog) (hexisting : existing ∈ catalog)
    (h : workspaceLabelKey toLowerCase label.name = workspaceLabelKey toLowerCase existing.name) :
    label = existing :=
  inj_on_of_nodup_map hnodup hlabel hexisting h

section

variable (hindex : catalog[index]? = some existing)
include hindex

/-- A label of another key is at another place. -/
theorem exists_ne_index (hlabel : label ∈ catalog) (hne : label ≠ existing) :
    ∃ other, other ≠ index ∧ catalog[other]? = some label := by
  obtain ⟨other, hother⟩ := mem_iff_getElem?.mp hlabel
  refine ⟨other, ?_, hother⟩
  intro heq
  rw [heq, hindex] at hother
  exact hne (some.inj hother).symm

theorem mem_set_of_ne (hlabel : label ∈ catalog) (hne : label ≠ existing) (new : WorkspaceLabelDefinition) :
    label ∈ catalog.set index new := by
  obtain ⟨other, hother, hget⟩ := exists_ne_index hindex hlabel hne
  apply mem_of_getElem?
  rw [getElem?_set_ne fun heq => hother heq.symm]
  exact hget

theorem mem_set_self (new : WorkspaceLabelDefinition) :
    new ∈ catalog.set index new :=
  mem_set (List.getElem?_eq_some_iff.mp hindex).1 new

end

theorem catalogKeys_set (catalog : List WorkspaceLabelDefinition) (index : ℕ)
    (new : WorkspaceLabelDefinition) :
    catalogKeys toLowerCase (catalog.set index new) =
      (catalogKeys toLowerCase catalog).set index (workspaceLabelKey toLowerCase new.name) := by
  rw [catalogKeys, map_set]
  rfl

/-- A label is replaced by one of its own key, or of a key that is not there. -/
theorem nodup_catalogKeys_set (hnodup : (catalogKeys toLowerCase catalog).Nodup)
    (hindex : catalog[index]? = some existing) {new : WorkspaceLabelDefinition}
    (hnew : workspaceLabelKey toLowerCase new.name = workspaceLabelKey toLowerCase existing.name ∨
      workspaceLabelKey toLowerCase new.name ∉ catalogKeys toLowerCase catalog) :
    (catalogKeys toLowerCase (catalog.set index new)).Nodup := by
  rw [catalogKeys_set]
  by_cases hkey : workspaceLabelKey toLowerCase new.name =
      workspaceLabelKey toLowerCase existing.name
  · have hsame : (catalogKeys toLowerCase catalog)[index]? =
        some (workspaceLabelKey toLowerCase existing.name) := by
      rw [catalogKeys, getElem?_map, hindex]
      rfl
    obtain ⟨hlt, hget⟩ := List.getElem?_eq_some_iff.mp hsame
    rw [hkey, ← hget, set_getElem_self hlt]
    exact hnodup
  · exact hnodup.set (hnew.resolve_left hkey)

end Catalog

/-! ## Consistent states -/

/-- No key twice in the catalog or on a workspace, and every carried name is in the catalog. -/
structure Consistent (toLowerCase : String → String) (state : LabelState ρ) : Prop where
  keyedById : KeyedById state.workspaces
  keysNodup : (catalogKeys toLowerCase state.catalog).Nodup
  carriedNodup : ∀ workspaceId,
    ((state.assignments workspaceId).map (workspaceLabelKey toLowerCase)).Nodup
  named : ∀ workspaceId, ∀ name ∈ state.assignments workspaceId,
    ∃ label ∈ state.catalog, label.name = name

theorem consistent_empty : Consistent toLowerCase (empty : LabelState ρ) where
  keyedById := keyedById_empty
  keysNodup := List.nodup_nil
  carriedNodup := fun _ => List.nodup_nil
  named := by
    intro workspaceId name hname
    cases hname

namespace Consistent

variable {state state' : LabelState ρ}

section

variable (h : Consistent toLowerCase state)
include h

theorem of_unchanged (hids : KeyedById state'.workspaces) (hcatalog : state'.catalog = state.catalog)
    (hassignments : state'.assignments = state.assignments) : Consistent toLowerCase state' where
  keyedById := hids
  keysNodup := by
    rw [hcatalog]
    exact h.keysNodup
  carriedNodup := by
    rw [hassignments]
    exact h.carriedNodup
  named := by
    rw [hcatalog, hassignments]
    exact h.named

/-- The only name of a key that a workspace carries is the one that the catalog has. -/
theorem name_eq_of_key_eq {workspaceId name : String} {existing : WorkspaceLabelDefinition}
    (hname : name ∈ state.assignments workspaceId) (hexisting : existing ∈ state.catalog)
    (hkey : workspaceLabelKey toLowerCase name =
      workspaceLabelKey toLowerCase existing.name) : name = existing.name := by
  obtain ⟨label, hlabel, rfl⟩ := h.named workspaceId name hname
  rw [eq_of_key_eq h.keysNodup hlabel hexisting hkey]

/-- A carried key is a key of the catalog. -/
theorem key_mem_catalogKeys {workspaceId name : String} (hname : name ∈ state.assignments workspaceId) :
    workspaceLabelKey toLowerCase name ∈ catalogKeys toLowerCase state.catalog := by
  obtain ⟨label, hlabel, rfl⟩ := h.named workspaceId name hname
  exact List.mem_map.mpr ⟨label, hlabel, rfl⟩

end

end Consistent

/-! ## Assigning -/

section Assigning

variable {state : LabelState ρ} {mutation : WorkspaceLabelMutation ρ} {now name : String}
  {input : AssignmentInput}

theorem updateAssignmentLabels_eq_some {current labels : List String} {key displayName : String}
    {assigned : Bool}
    (h : updateAssignmentLabels toLowerCase current key displayName assigned = some labels) :
    (assigned = true ∧ (∀ label ∈ current, workspaceLabelKey toLowerCase label ≠ key) ∧
        labels = current ++ [displayName]) ∨
      (assigned = false ∧ ∃ index, labels = current.eraseIdx index) := by
  unfold updateAssignmentLabels at h
  cases hindex : current.findIdx? fun label => workspaceLabelKey toLowerCase label = key with
  | none =>
    rw [hindex] at h
    have hfresh := findIdx?_eq_none_iff.mp hindex
    by_cases hassigned : assigned = true
    · rw [if_pos hassigned] at h
      refine Or.inl ⟨hassigned, ?_, (some.inj h).symm⟩
      intro label hlabel
      simpa using hfresh label hlabel
    · rw [if_neg hassigned] at h
      cases h
  | some index =>
    rw [hindex] at h
    change (if assigned = true then none else some (current.eraseIdx index)) = some labels at h
    by_cases hassigned : assigned = true
    · rw [if_pos hassigned] at h
      cases h
    · rw [if_neg hassigned] at h
      exact Or.inr ⟨by simpa using hassigned, index, (some.inj h).symm⟩

/-- What an assignment plans: the labels of one workspace change, and the catalog may get the
label that is assigned. -/
theorem planAssignment_eq_ok
    (h : planAssignment toLowerCase state input name now = .ok mutation) :
    ∃ workspace definition, state.workspaces.get input.workspaceId = some workspace ∧
      workspaceLabelKey toLowerCase definition.name = workspaceLabelKey toLowerCase name ∧
      (mutation.labels = state.catalog ∧ (input.assigned = true → definition ∈ state.catalog) ∧
          mutation.change = none ∨
        mutation.labels = state.catalog ++ [definition] ∧
          definition = { name, color := input.label.color } ∧
          workspaceLabelKey toLowerCase name ∉ catalogKeys toLowerCase state.catalog ∧
          mutation.change = some (.upsert definition none)) ∧
      (mutation.workspaceUpdates = [] ∨
        ∃ labels, updateAssignmentLabels toLowerCase workspace.carried
            (workspaceLabelKey toLowerCase name) definition.name input.assigned = some labels ∧
          mutation.workspaceUpdates =
            [{ workspace with labels := storedLabels labels, updatedAt := now }]) := by
  unfold planAssignment at h
  cases hworkspace : state.workspaces.get input.workspaceId with
  | none =>
    rw [hworkspace] at h
    cases h
  | some workspace =>
    rw [hworkspace] at h
    by_cases harchived : workspace.archivedAt.any (· ≠ "") = true
    · simp only [harchived, if_true] at h
      cases h
    · simp only [harchived, Bool.false_eq_true, if_false] at h
      have hmutation := Except.ok.inj h
      subst hmutation
      have hupdates : ∀ definition : WorkspaceLabelDefinition,
          ((updateAssignmentLabels toLowerCase workspace.carried
            (workspaceLabelKey toLowerCase name) definition.name input.assigned).toList.map
              fun labels =>
                { workspace with labels := storedLabels labels, updatedAt := now }) = [] ∨
          ∃ labels, updateAssignmentLabels toLowerCase workspace.carried
              (workspaceLabelKey toLowerCase name) definition.name input.assigned = some labels ∧
            ((updateAssignmentLabels toLowerCase workspace.carried
              (workspaceLabelKey toLowerCase name) definition.name input.assigned).toList.map
                fun labels =>
                  { workspace with labels := storedLabels labels, updatedAt := now }) =
              [{ workspace with labels := storedLabels labels, updatedAt := now }] := by
        intro definition
        cases hlabels : updateAssignmentLabels toLowerCase workspace.carried
            (workspaceLabelKey toLowerCase name) definition.name input.assigned with
        | none => exact Or.inl rfl
        | some labels => exact Or.inr ⟨labels, rfl, rfl⟩
      cases hfound : findLabel toLowerCase state.catalog (workspaceLabelKey toLowerCase name) with
      | none =>
        refine ⟨workspace, { name, color := input.label.color }, rfl, rfl, ?_, hupdates _⟩
        by_cases hassigned : input.assigned = true
        · refine Or.inr ⟨?_, rfl, findLabel_eq_none_iff.mp hfound, ?_⟩
          · simp [hassigned]
          · simp [hassigned]
        · refine Or.inl ⟨?_, fun hpos => absurd hpos hassigned, ?_⟩
          · simp [hassigned]
          · simp [hassigned]
      | some entry =>
        have hspec := findLabel_eq_some hfound
        refine ⟨workspace, entry.1, rfl, hspec.2, ?_, hupdates _⟩
        exact Or.inl ⟨rfl, fun _ => mem_of_getElem? hspec.1, rfl⟩

theorem named_append {catalog : List WorkspaceLabelDefinition} {name : String}
    (h : ∃ label ∈ catalog, label.name = name) (more : List WorkspaceLabelDefinition) :
    ∃ label ∈ catalog ++ more, label.name = name := by
  obtain ⟨label, hlabel, hname⟩ := h
  exact ⟨label, mem_append_left _ hlabel, hname⟩

theorem Consistent.commit_planAssignment (hstate : Consistent toLowerCase state)
    (h : planAssignment toLowerCase state input name now = .ok mutation) :
    Consistent toLowerCase (state.commit mutation) := by
  obtain ⟨workspace, definition, hworkspace, hkey, hcatalog, hupdates⟩ := planAssignment_eq_ok h
  have hcarried := assignments_of_get hworkspace
  have hold : ∀ name, (∃ label ∈ state.catalog, label.name = name) →
      ∃ label ∈ mutation.labels, label.name = name := by
    intro name hname
    rcases hcatalog with ⟨hlabels, -⟩ | ⟨hlabels, -⟩
    · rw [hlabels]
      exact hname
    · rw [hlabels]
      exact named_append hname [definition]
  have hkeys : (catalogKeys toLowerCase mutation.labels).Nodup := by
    rcases hcatalog with ⟨hlabels, -⟩ | ⟨hlabels, -, hfresh, -⟩
    · rw [hlabels]
      exact hstate.keysNodup
    · rw [hlabels, catalogKeys, map_append, map_singleton, hkey]
      apply List.Nodup.append hstate.keysNodup (nodup_singleton _)
      exact disjoint_singleton.mpr hfresh
  have hdefinition : input.assigned = true → definition ∈ mutation.labels := by
    intro hassigned
    rcases hcatalog with ⟨hlabels, hmem, -⟩ | ⟨hlabels, -⟩
    · rw [hlabels]
      exact hmem hassigned
    · rw [hlabels]
      exact mem_append_right _ (mem_singleton_self definition)
  -- the labels of the workspace that is assigned to, whatever became of them
  have hnew : ∃ labels, (state.commit mutation).assignments =
      Function.update state.assignments workspace.workspaceId labels ∧
      (labels.map (workspaceLabelKey toLowerCase)).Nodup ∧
      ∀ name ∈ labels, ∃ label ∈ mutation.labels, label.name = name := by
    have hid : workspace.workspaceId = input.workspaceId := hstate.keyedById _ _ hworkspace
    have hkept := hstate.carriedNodup input.workspaceId
    have hnamed := hstate.named input.workspaceId
    rw [hcarried] at hkept hnamed
    rcases hupdates with hnone | ⟨labels, hlabels, hone⟩
    · refine ⟨workspace.carried, ?_, hkept, fun name hname => hold name (hnamed name hname)⟩
      rw [commit_assignments_nil hnone, hid, ← hcarried, Function.update_eq_self]
    · refine ⟨labels, ?_, ?_⟩
      · rw [commit_assignments_singleton hone]
        show Function.update state.assignments workspace.workspaceId
          ((storedLabels labels).getD []) = _
        rw [storedLabels_getD]
      · rcases updateAssignmentLabels_eq_some hlabels with
          ⟨hassigned, hfresh, rfl⟩ | ⟨-, index, rfl⟩
        · constructor
          · rw [map_append, map_singleton, hkey]
            apply List.Nodup.append hkept (nodup_singleton _)
            apply disjoint_singleton.mpr
            intro hmem
            obtain ⟨label, hlabel, heq⟩ := List.mem_map.mp hmem
            exact hfresh label hlabel heq
          · intro name hname
            rcases mem_append.mp hname with hname | hname
            · exact hold name (hnamed name hname)
            · exact ⟨definition, hdefinition hassigned, (mem_singleton.mp hname).symm⟩
        · constructor
          · exact hkept.sublist ((eraseIdx_sublist _ _).map _)
          · intro name hname
            exact hold name (hnamed name (mem_of_mem_eraseIdx hname))
  obtain ⟨labels, hassignments, hnodup, hlabels⟩ := hnew
  refine ⟨commit_keyedById hstate.keyedById _, hkeys, ?_, ?_⟩
  · intro workspaceId
    rw [hassignments]
    by_cases hid : workspaceId = workspace.workspaceId
    · rw [hid, Function.update_self]
      exact hnodup
    · rw [Function.update_of_ne hid]
      exact hstate.carriedNodup workspaceId
  · intro workspaceId carried hname
    rw [hassignments] at hname
    by_cases hid : workspaceId = workspace.workspaceId
    · rw [hid, Function.update_self] at hname
      exact hlabels carried hname
    · rw [Function.update_of_ne hid] at hname
      exact hold carried (hstate.named workspaceId carried hname)

end Assigning

/-! ## Renaming, recolouring and deleting -/

section Editing

variable {state : LabelState ρ} {mutation : WorkspaceLabelMutation ρ} {key now : String}
  {newName : Option String} {color : Option WorkspaceLabelColor}

/-- What an edit plans: nothing, a recolouring, or a new name for the label and its bearers. -/
theorem planUpdate_eq_ok
    (h : planUpdate toLowerCase state key newName color now = .ok mutation) :
    ∃ existing index, findLabel toLowerCase state.catalog key = some (existing, index) ∧
      (mutation = { labels := state.catalog, workspaceUpdates := [], change := none } ∨
        (∃ color, mutation.labels = state.catalog.set index { existing with color } ∧
          mutation.workspaceUpdates = [] ∧
          mutation.change = some (.upsert { existing with color } none)) ∨
        ∃ name color, newName = some name ∧
          (workspaceLabelKey toLowerCase name = key ∨
            workspaceLabelKey toLowerCase name ∉ catalogKeys toLowerCase state.catalog) ∧
          mutation.labels = state.catalog.set index { name, color } ∧
          mutation.workspaceUpdates =
            rewriteAssignments toLowerCase state.workspaces key (some name) now ∧
          mutation.change = some (.upsert { name, color } (some existing.name))) := by
  unfold planUpdate at h
  cases hfound : findLabel toLowerCase state.catalog key with
  | none =>
    rw [hfound] at h
    cases h
  | some entry =>
    rcases entry with ⟨existing, index⟩
    rw [hfound] at h
    refine ⟨existing, index, rfl, ?_⟩
    by_cases htaken : (newName.any fun name => workspaceLabelKey toLowerCase name ≠ key &&
        (findLabel toLowerCase state.catalog (workspaceLabelKey toLowerCase name)).isSome) = true
    · simp only [htaken, if_true] at h
      cases h
    · simp only [htaken, Bool.false_eq_true, if_false] at h
      cases hname : newName.any (· ≠ existing.name) with
      | false =>
        simp only [hname, Bool.not_false, Bool.true_and, Bool.false_eq_true, if_false] at h
        by_cases hcolor : color.any (· ≠ existing.color) = true
        · simp only [hcolor, Bool.not_true, Bool.false_eq_true, if_false] at h
          have hmutation := Except.ok.inj h
          subst hmutation
          exact Or.inr (Or.inl ⟨color.getD existing.color, rfl, rfl, rfl⟩)
        · simp only [hcolor, Bool.not_false, if_true] at h
          exact Or.inl (Except.ok.inj h).symm
      | true =>
        simp only [hname, Bool.not_true, Bool.false_and, Bool.false_eq_true, if_false,
          if_true] at h
        have hmutation := Except.ok.inj h
        subst hmutation
        cases newName with
        | none => cases hname
        | some name =>
          refine Or.inr (Or.inr ⟨name, color.getD existing.color, rfl, ?_, rfl, rfl, rfl⟩)
          by_cases hkey : workspaceLabelKey toLowerCase name = key
          · exact Or.inl hkey
          · right
            apply findLabel_eq_none_iff.mp
            simpa [hkey] using htaken

theorem rewriteLabels_some {name : String} (hname : name ≠ "") (labels : List String) :
    rewriteLabels toLowerCase labels key (some name) =
      labels.map fun label => if workspaceLabelKey toLowerCase label = key then name else label := by
  unfold rewriteLabels
  rw [map_eq_flatMap]
  congr 1
  funext label
  by_cases hkey : workspaceLabelKey toLowerCase label = key
  · rw [if_pos hkey, if_pos hkey]
    simp [Option.filter, hname]
  · rw [if_neg hkey, if_neg hkey]

theorem rewriteLabels_none (labels : List String) :
    rewriteLabels toLowerCase labels key none =
      labels.filter fun label => workspaceLabelKey toLowerCase label ≠ key := by
  unfold rewriteLabels
  induction labels with
  | nil => rfl
  | cons label labels ih =>
    rw [flatMap_cons, ih]
    by_cases hkey : workspaceLabelKey toLowerCase label = key
    · simp [hkey]
    · simp [hkey]

/-- A renamed label has a key that no other label on a workspace has. -/
theorem nodup_keys_rename {name : String} {labels : List String}
    (hnodup : (labels.map (workspaceLabelKey toLowerCase)).Nodup)
    (hname : workspaceLabelKey toLowerCase name = key ∨
      workspaceLabelKey toLowerCase name ∉ labels.map (workspaceLabelKey toLowerCase)) :
    ((labels.map fun label => if workspaceLabelKey toLowerCase label = key then name
      else label).map (workspaceLabelKey toLowerCase)).Nodup := by
  have hmap : ((labels.map fun label => if workspaceLabelKey toLowerCase label = key then name
      else label).map (workspaceLabelKey toLowerCase)) =
      (labels.map (workspaceLabelKey toLowerCase)).map fun carried =>
        if carried = key then workspaceLabelKey toLowerCase name else carried := by
    rw [List.map_map, List.map_map]
    apply map_congr_left
    intro label _
    by_cases hkey : workspaceLabelKey toLowerCase label = key
    · simp [hkey]
    · simp [hkey]
  rw [hmap]
  apply List.Nodup.map_on _ hnodup
  intro carried hcarried carried' hcarried' heq
  by_cases hkey : carried = key
  · by_cases hkey' : carried' = key
    · rw [hkey, hkey']
    · rw [if_pos hkey, if_neg hkey'] at heq
      rcases hname with hsame | hfresh
      · exact absurd (heq.symm.trans hsame) hkey'
      · exact absurd (heq ▸ hcarried') hfresh
  · by_cases hkey' : carried' = key
    · rw [if_neg hkey, if_pos hkey'] at heq
      rcases hname with hsame | hfresh
      · exact absurd (heq.trans hsame) hkey
      · exact absurd (heq ▸ hcarried) hfresh
    · rw [if_neg hkey, if_neg hkey'] at heq
      exact heq

variable {existing : WorkspaceLabelDefinition} {index : ℕ}

section

variable (hstate : Consistent toLowerCase state)
include hstate

section

variable (hfound : findLabel toLowerCase state.catalog key = some (existing, index))
include hfound

/-- A name that is carried under another key is still in the catalog once the label of a key
is replaced. -/
theorem Consistent.named_set {workspaceId name : String} (hname : name ∈ state.assignments workspaceId)
    (hkey : workspaceLabelKey toLowerCase name ≠ key) (new : WorkspaceLabelDefinition) :
    ∃ label ∈ state.catalog.set index new, label.name = name := by
  obtain ⟨hindex, hexisting⟩ := findLabel_eq_some hfound
  obtain ⟨label, hlabel, rfl⟩ := hstate.named workspaceId name hname
  refine ⟨label, mem_set_of_ne hindex hlabel ?_ new, rfl⟩
  intro heq
  exact hkey (heq ▸ hexisting)

theorem Consistent.commit_recolour {color : WorkspaceLabelColor}
    (hlabels : mutation.labels = state.catalog.set index { existing with color })
    (hupdates : mutation.workspaceUpdates = []) :
    Consistent toLowerCase (state.commit mutation) := by
  obtain ⟨hindex, hexisting⟩ := findLabel_eq_some hfound
  refine ⟨commit_keyedById hstate.keyedById _, ?_, ?_, ?_⟩
  · show (catalogKeys toLowerCase mutation.labels).Nodup
    rw [hlabels]
    exact nodup_catalogKeys_set hstate.keysNodup hindex (Or.inl rfl)
  · rw [commit_assignments_nil hupdates]
    exact hstate.carriedNodup
  · rw [commit_assignments_nil hupdates]
    intro workspaceId name hname
    show ∃ label ∈ mutation.labels, label.name = name
    rw [hlabels]
    by_cases hkey : workspaceLabelKey toLowerCase name = key
    · refine ⟨_, mem_set_self hindex _, ?_⟩
      have hmem := mem_of_getElem? hindex
      exact (hstate.name_eq_of_key_eq hname hmem (hkey.trans hexisting.symm)).symm
    · exact hstate.named_set hfound hname hkey _

theorem Consistent.commit_rename {name : String} {color : WorkspaceLabelColor} (hname : name ≠ "")
    (hkey : workspaceLabelKey toLowerCase name = key ∨
      workspaceLabelKey toLowerCase name ∉ catalogKeys toLowerCase state.catalog)
    (hlabels : mutation.labels = state.catalog.set index { name, color })
    (hupdates : mutation.workspaceUpdates =
      rewriteAssignments toLowerCase state.workspaces key (some name) now) :
    Consistent toLowerCase (state.commit mutation) := by
  obtain ⟨hindex, hexisting⟩ := findLabel_eq_some hfound
  have hassignments : ∀ workspaceId, (state.commit mutation).assignments workspaceId =
      (state.assignments workspaceId).map fun label =>
        if workspaceLabelKey toLowerCase label = key then name else label := by
    intro workspaceId
    rw [commit_assignments_rewrite hstate.keyedById hupdates, rewriteLabels_some hname]
  refine ⟨commit_keyedById hstate.keyedById _, ?_, ?_, ?_⟩
  · show (catalogKeys toLowerCase mutation.labels).Nodup
    rw [hlabels]
    apply nodup_catalogKeys_set hstate.keysNodup hindex
    rw [hexisting]
    exact hkey
  · intro workspaceId
    rw [hassignments]
    apply nodup_keys_rename (hstate.carriedNodup workspaceId)
    refine hkey.imp_right fun hfresh hmem => ?_
    obtain ⟨label, hlabel, heq⟩ := List.mem_map.mp hmem
    exact hfresh (heq ▸ hstate.key_mem_catalogKeys hlabel)
  · intro workspaceId carried hcarried
    rw [hassignments] at hcarried
    obtain ⟨label, hlabel, rfl⟩ := List.mem_map.mp hcarried
    show ∃ definition ∈ mutation.labels, definition.name = _
    rw [hlabels]
    by_cases heq : workspaceLabelKey toLowerCase label = key
    · rw [if_pos heq]
      exact ⟨{ name, color }, mem_set_self hindex _, rfl⟩
    · rw [if_neg heq]
      exact hstate.named_set hfound hlabel heq _

end

theorem Consistent.commit_planUpdate (hname : ∀ name ∈ newName, name ≠ "")
    (h : planUpdate toLowerCase state key newName color now = .ok mutation) :
    Consistent toLowerCase (state.commit mutation) := by
  obtain ⟨existing, index, hfound, hcases⟩ := planUpdate_eq_ok h
  rcases hcases with rfl | ⟨color, hlabels, hupdates, -⟩ |
    ⟨name, color, hnew, hkey, hlabels, hupdates, -⟩
  · exact hstate.of_unchanged hstate.keyedById rfl rfl
  · exact hstate.commit_recolour hfound hlabels hupdates
  · exact hstate.commit_rename hfound (hname name hnew) hkey hlabels hupdates

theorem Consistent.commit_planDelete (h : planDelete toLowerCase state key now = .ok mutation) :
    Consistent toLowerCase (state.commit mutation) := by
  unfold planDelete at h
  cases hfound : findLabel toLowerCase state.catalog key with
  | none =>
    rw [hfound] at h
    have hmutation := Except.ok.inj h
    subst hmutation
    exact hstate.of_unchanged hstate.keyedById rfl rfl
  | some entry =>
    rcases entry with ⟨existing, index⟩
    rw [hfound] at h
    obtain ⟨hindex, hexisting⟩ := findLabel_eq_some hfound
    have hlabels : mutation.labels = state.catalog.eraseIdx index := by
      rw [← Except.ok.inj h]
    have hassignments : ∀ workspaceId, (state.commit mutation).assignments workspaceId =
        (state.assignments workspaceId).filter
          fun label => workspaceLabelKey toLowerCase label ≠ key := by
      intro workspaceId
      have hupdates : mutation.workspaceUpdates =
          rewriteAssignments toLowerCase state.workspaces key none now := by
        rw [← Except.ok.inj h]
      rw [commit_assignments_rewrite hstate.keyedById hupdates, rewriteLabels_none]
    refine ⟨commit_keyedById hstate.keyedById _, ?_, ?_, ?_⟩
    · show (catalogKeys toLowerCase mutation.labels).Nodup
      rw [hlabels]
      exact hstate.keysNodup.sublist ((eraseIdx_sublist _ _).map _)
    · intro workspaceId
      rw [hassignments]
      exact (hstate.carriedNodup workspaceId).sublist (filter_sublist.map _)
    · intro workspaceId name hname
      rw [hassignments] at hname
      obtain ⟨hcarried, hne⟩ := mem_filter.mp hname
      obtain ⟨label, hlabel, rfl⟩ := hstate.named workspaceId name hcarried
      obtain ⟨other, hother, hget⟩ := exists_ne_index hindex hlabel fun heq => by
        rw [heq] at hne
        simp [hexisting] at hne
      show ∃ definition ∈ mutation.labels, definition.name = label.name
      rw [hlabels]
      exact ⟨label, mem_eraseIdx_iff_getElem?.mpr ⟨other, hother, hget⟩, rfl⟩

end

end Editing

/-! ## Runs -/

section Runs

variable {state : LabelState ρ}

theorem requireName_ne_empty {raw name : String} (h : requireName raw = .ok name) : name ≠ "" := by
  unfold requireName at h
  by_cases hempty : normalizeWorkspaceLabelName raw = ""
  · simp only [hempty, if_true] at h
    cases h
  · simp only [hempty, if_false] at h
    rw [← Except.ok.inj h]
    exact hempty

/-- The new name of a request, where it has one, comes out of `requireName`. -/
theorem mapM_requireName {newName named : Option String}
    (h : newName.mapM requireName = .ok named) :
    ∀ name ∈ named, ∃ raw, requireName raw = .ok name := by
  intro name hname
  cases newName with
  | none =>
    cases h
    cases hname
  | some raw =>
    cases hraw : requireName raw with
    | error error =>
      rw [mapM_some, hraw] at h
      cases h
    | ok valid =>
      rw [mapM_some, hraw] at h
      cases h
      cases hname
      exact ⟨raw, hraw⟩

theorem Consistent.commit_plan (hstate : Consistent toLowerCase state) {now : String}
    {request : LabelRequest} {mutation : WorkspaceLabelMutation ρ}
    (h : plan toLowerCase state now request = .ok mutation) :
    Consistent toLowerCase (state.commit mutation) := by
  cases request with
  | setAssignment input =>
    obtain ⟨name, -, hplan⟩ := bind_eq_ok.mp h
    exact hstate.commit_planAssignment hplan
  | update input =>
    obtain ⟨name, -, hrest⟩ := bind_eq_ok.mp h
    obtain ⟨newName, hnewName, hplan⟩ := bind_eq_ok.mp hrest
    apply hstate.commit_planUpdate _ hplan
    intro name hname
    obtain ⟨raw, hraw⟩ := mapM_requireName hnewName name hname
    exact requireName_ne_empty hraw
  | delete nameInput =>
    obtain ⟨name, -, hplan⟩ := bind_eq_ok.mp h
    exact hstate.commit_planDelete hplan

/-- An answer that the operation was not carried out. -/
def LabelAnswer.Rejected : LabelAnswer → Prop
  | .done _ => False
  | .refused _ | .failed => True

namespace LabelState

section

variable (h : KeyedById state.workspaces)
include h

/-- A rollback puts back what the transaction was planned on, whatever was upserted meanwhile. -/
theorem rolledBack_unchanged (mutation : WorkspaceLabelMutation ρ) (meanwhile : List (WorkspaceUpsert ρ)) :
    let rolledBack := (meanwhile.foldl upsertWorkspace state).recover
      (transactionFor state mutation)
    rolledBack.catalog = state.catalog ∧ rolledBack.assignments = state.assignments ∧
      KeyedById rolledBack.workspaces := by
  obtain ⟨-, hassignments, hids⟩ := upserts_unchanged h meanwhile
  exact ⟨rfl, recover_assignments mutation h hids hassignments, recover_keyedById hids _⟩

/-- Unless it is committed, a mutation changes neither the catalog nor the assignments. -/
theorem finish_committed_or_unchanged (mutation : WorkspaceLabelMutation ρ) (outcome : CommitOutcome ρ) :
    state.finish mutation outcome = (state.commit mutation, .done mutation.change) ∨
      (state.finish mutation outcome).1.catalog = state.catalog ∧
        (state.finish mutation outcome).1.assignments = state.assignments ∧
          KeyedById (state.finish mutation outcome).1.workspaces := by
  cases outcome with
  | persisted => exact Or.inl rfl
  | abandoned =>
    right
    by_cases hwritten : mutation.forcePersist state = true
    · simp only [finish, hwritten, if_true]
      exact ⟨trivial, trivial, h⟩
    · simp only [finish, hwritten, Bool.false_eq_true, if_false]
      exact ⟨trivial, trivial, h⟩
  | rolledBack meanwhile =>
    right
    by_cases hwritten : mutation.forcePersist state = true
    · simp only [finish, hwritten, if_true]
      exact rolledBack_unchanged h mutation meanwhile
    · simp only [finish, hwritten, Bool.false_eq_true, if_false]
      exact ⟨trivial, trivial, h⟩

/-- An operation that is not carried out leaves the catalog and the assignments alone. -/
theorem step_rejected {op : LabelOp ρ} (hrejected : (state.step toLowerCase op).2.Rejected) :
    (state.step toLowerCase op).1.catalog = state.catalog ∧
      (state.step toLowerCase op).1.assignments = state.assignments := by
  cases op with
  | upsertWorkspace input written =>
    cases written with
    | true => exact ⟨rfl, upsertWorkspace_assignments state input⟩
    | false => exact ⟨rfl, rfl⟩
  | request request now outcome =>
    cases hplan : plan toLowerCase state now request with
    | error error =>
      simp only [step, hplan, and_self]
    | ok mutation =>
      simp only [step, hplan] at hrejected ⊢
      rcases finish_committed_or_unchanged h mutation outcome with hfinish | hunchanged
      · rw [hfinish] at hrejected
        exact absurd hrejected id
      · exact ⟨hunchanged.1, hunchanged.2.1⟩

end

end LabelState

theorem Consistent.step (hstate : Consistent toLowerCase state) (op : LabelOp ρ) :
    Consistent toLowerCase (state.step toLowerCase op).1 := by
  cases op with
  | upsertWorkspace input written =>
    cases written with
    | true =>
      apply hstate.of_unchanged
      · exact upsertWorkspace_keyedById hstate.keyedById input
      · exact upsertWorkspace_catalog state input
      · exact upsertWorkspace_assignments state input
    | false => exact hstate
  | request request now outcome =>
    cases hplan : plan toLowerCase state now request with
    | error error =>
      simp only [LabelState.step, hplan]
      exact hstate
    | ok mutation =>
      simp only [LabelState.step, hplan]
      rcases finish_committed_or_unchanged hstate.keyedById mutation outcome with
        hfinish | ⟨hcatalog, hassignments, hids⟩
      · rw [hfinish]
        exact hstate.commit_plan hplan
      · exact hstate.of_unchanged hids hcatalog hassignments

theorem consistent_run (hstate : Consistent toLowerCase state) (ops : List (LabelOp ρ)) :
    Consistent toLowerCase (state.run toLowerCase ops) := by
  unfold run
  induction ops generalizing state with
  | nil => exact hstate
  | cons op ops ih => exact ih (hstate.step op)

/-- Whatever is done from an empty catalog on, keys are unique in the catalog and on every
workspace, every carried name is in the catalog, and what is rejected changes nothing. -/
theorem labels_consistent (toLowerCase : String → String) (ops : List (LabelOp ρ)) :
    let state := empty.run toLowerCase ops
    (state.catalog.map fun label => workspaceLabelKey toLowerCase label.name).Nodup ∧
      (∀ workspaceId,
        ((state.assignments workspaceId).map (workspaceLabelKey toLowerCase)).Nodup) ∧
      (∀ workspaceId, ∀ name ∈ state.assignments workspaceId,
        ∃ label ∈ state.catalog, label.name = name) ∧
      ∀ op, (state.step toLowerCase op).2.Rejected →
        (state.step toLowerCase op).1.catalog = state.catalog ∧
          (state.step toLowerCase op).1.assignments = state.assignments := by
  have h : Consistent toLowerCase (empty.run toLowerCase ops) :=
    consistent_run consistent_empty ops
  exact ⟨h.keysNodup, h.carriedNodup, h.named, fun op => step_rejected h.keyedById⟩

end Runs

end Orqara.Labels
