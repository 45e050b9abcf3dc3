import Orqara.Labels.LabelConsistency
import Orqara.Labels.LabelSequence
import Orqara.Library.NetChanges

/-!
# Publications of the label service

A change that is published is a short history of edits of the catalog, seen as a map from keys
to labels: it says how the operation changed the catalog.
-/

namespace Orqara.Labels

open NetChanges List Option Function

variable {ρ : Type} {toLowerCase : String → String}

/-! ## Changes as edits -/

/-- The label that a catalog has for a key. -/
def catalogMap (toLowerCase : String → String) (catalog : List WorkspaceLabelDefinition)
    (key : String) : Option WorkspaceLabelDefinition :=
  catalog.find? fun label => workspaceLabelKey toLowerCase label.name = key

def WorkspaceLabelChange.edits (toLowerCase : String → String) :
    WorkspaceLabelChange → List (String × Option WorkspaceLabelDefinition)
  | .remove name => [(workspaceLabelKey toLowerCase name, none)]
  | .upsert label previousName =>
    (previousName.filter (· ≠ "")).toList.map
        (fun name => (workspaceLabelKey toLowerCase name, none)) ++
      [(workspaceLabelKey toLowerCase label.name, some label)]

theorem edits_rename {previousName : String} (h : previousName ≠ "")
    (label : WorkspaceLabelDefinition) :
    WorkspaceLabelChange.edits toLowerCase (.upsert label (some previousName)) =
      [(workspaceLabelKey toLowerCase previousName, none),
        (workspaceLabelKey toLowerCase label.name, some label)] := by
  have hfilter : (some previousName).filter (· ≠ "") = some previousName :=
    filter_eq_some_iff.mpr ⟨rfl, decide_eq_true h⟩
  rw [WorkspaceLabelChange.edits, hfilter]
  rfl

/-- A name as the service stores it. -/
def Normalized (name : String) : Prop :=
  normalizeWorkspaceLabelName name = name ∧ name ≠ ""

theorem Normalized.key {name : String} (h : Normalized name) (toLowerCase : String → String) :
    workspaceLabelKey toLowerCase name = toLowerCase name := by
  rw [workspaceLabelKey, h.1]

theorem normalized_of_requireName {raw name : String} (h : requireName raw = .ok name) :
    Normalized name := by
  refine ⟨?_, requireName_ne_empty h⟩
  unfold requireName at h
  by_cases hempty : normalizeWorkspaceLabelName raw = ""
  · simp only [hempty, if_true] at h
    cases h
  · simp only [hempty, if_false] at h
    rw [← Except.ok.inj h, normalizeWorkspaceLabelName_idem]

/-- The names in a change. -/
def WorkspaceLabelChange.names : WorkspaceLabelChange → List String
  | .remove name => [name]
  | .upsert label previousName => label.name :: previousName.toList

section CatalogMap

variable {catalog : List WorkspaceLabelDefinition} {key : String} {index : ℕ}
  {existing label : WorkspaceLabelDefinition}

theorem catalogMap_eq_some_iff (h : (catalogKeys toLowerCase catalog).Nodup) :
    catalogMap toLowerCase catalog key = some label ↔
      label ∈ catalog ∧ workspaceLabelKey toLowerCase label.name = key := by
  constructor
  · intro hfind
    exact ⟨mem_of_find?_eq_some hfind, by simpa using find?_some hfind⟩
  · rintro ⟨hmem, hkey⟩
    cases hfind : catalogMap toLowerCase catalog key with
    | none =>
      have hnone := find?_eq_none.mp hfind label hmem
      simp [hkey] at hnone
    | some found =>
      have hfound : workspaceLabelKey toLowerCase found.name = key := by
        simpa using find?_some hfind
      rw [eq_of_key_eq h (mem_of_find?_eq_some hfind) hmem (hfound.trans hkey.symm)]

theorem catalogMap_eq_none_iff :
    catalogMap toLowerCase catalog key = none ↔ key ∉ catalogKeys toLowerCase catalog := by
  unfold catalogMap catalogKeys
  simp only [find?_eq_none, decide_eq_true_eq, List.mem_map, not_exists, not_and]

theorem catalogMap_append (label : WorkspaceLabelDefinition)
    (h : workspaceLabelKey toLowerCase label.name ∉ catalogKeys toLowerCase catalog) :
    catalogMap toLowerCase (catalog ++ [label]) =
      Function.update (catalogMap toLowerCase catalog)
        (workspaceLabelKey toLowerCase label.name) (some label) := by
  funext key
  by_cases hkey : key = workspaceLabelKey toLowerCase label.name
  · rw [hkey, update_self]
    have hnone := catalogMap_eq_none_iff.mpr h
    rw [catalogMap] at hnone ⊢
    rw [find?_append, hnone]
    simp
  · rw [update_of_ne hkey, catalogMap, find?_append]
    have hne : ¬ workspaceLabelKey toLowerCase label.name = key := fun heq => hkey heq.symm
    simp [hne, catalogMap]

section

variable (hnodup : (catalogKeys toLowerCase catalog).Nodup) (hindex : catalog[index]? = some existing)
include hnodup hindex

/-- A label at another place has another key. -/
theorem key_ne_of_index_ne {other : ℕ} (hother : catalog[other]? = some label) (hne : other ≠ index) :
    workspaceLabelKey toLowerCase label.name ≠
      workspaceLabelKey toLowerCase existing.name := by
  intro heq
  obtain ⟨hlt, hget⟩ := List.getElem?_eq_some_iff.mp hindex
  obtain ⟨hlt', hget'⟩ := List.getElem?_eq_some_iff.mp hother
  have hi : other < (catalogKeys toLowerCase catalog).length := by
    simpa [catalogKeys] using hlt'
  have hj : index < (catalogKeys toLowerCase catalog).length := by
    simpa [catalogKeys] using hlt
  have hkeys : (catalogKeys toLowerCase catalog)[other] = (catalogKeys toLowerCase catalog)[index] := by
    simp [catalogKeys, hget, hget', heq]
  exact hne (hnodup.getElem_inj_iff.mp hkeys)

theorem catalogMap_set (new : WorkspaceLabelDefinition)
    (hnew : workspaceLabelKey toLowerCase new.name = workspaceLabelKey toLowerCase existing.name ∨
      workspaceLabelKey toLowerCase new.name ∉ catalogKeys toLowerCase catalog) :
    catalogMap toLowerCase (catalog.set index new) =
      Function.update
        (Function.update (catalogMap toLowerCase catalog)
          (workspaceLabelKey toLowerCase existing.name) none)
        (workspaceLabelKey toLowerCase new.name) (some new) := by
  have hnodup' := nodup_catalogKeys_set hnodup hindex hnew
  funext key
  by_cases hkey : key = workspaceLabelKey toLowerCase new.name
  · rw [hkey, update_self]
    exact (catalogMap_eq_some_iff hnodup').mpr ⟨mem_set_self hindex new, rfl⟩
  · rw [update_of_ne hkey]
    by_cases hold : key = workspaceLabelKey toLowerCase existing.name
    · rw [hold, update_self]
      apply catalogMap_eq_none_iff.mpr
      intro hmem
      obtain ⟨label, hlabel, heq⟩ := List.mem_map.mp hmem
      obtain ⟨other, hother⟩ := mem_iff_getElem?.mp hlabel
      by_cases hplace : other = index
      · rw [hplace, getElem?_set_self (List.getElem?_eq_some_iff.mp hindex).1] at hother
        rw [hold, ← heq, some.inj hother] at hkey
        exact hkey rfl
      · rw [getElem?_set_ne fun h => hplace h.symm] at hother
        exact key_ne_of_index_ne hnodup hindex hother hplace heq
    · rw [update_of_ne hold]
      ext label
      rw [catalogMap_eq_some_iff hnodup', catalogMap_eq_some_iff hnodup]
      apply and_congr_left
      intro heq
      constructor
      · intro hmem
        refine (mem_or_eq_of_mem_set hmem).resolve_right fun hlabel => hkey ?_
        rw [← heq, hlabel]
      · intro hmem
        refine mem_set_of_ne hindex hmem (fun hlabel => hold ?_) new
        rw [← heq, hlabel]

theorem catalogMap_eraseIdx :
    catalogMap toLowerCase (catalog.eraseIdx index) =
      Function.update (catalogMap toLowerCase catalog)
        (workspaceLabelKey toLowerCase existing.name) none := by
  have hnodup' : (catalogKeys toLowerCase (catalog.eraseIdx index)).Nodup :=
    hnodup.sublist ((eraseIdx_sublist _ _).map _)
  funext key
  by_cases hold : key = workspaceLabelKey toLowerCase existing.name
  · rw [hold, update_self]
    apply catalogMap_eq_none_iff.mpr
    intro hmem
    obtain ⟨label, hlabel, heq⟩ := List.mem_map.mp hmem
    obtain ⟨other, hother, hget⟩ := mem_eraseIdx_iff_getElem?.mp hlabel
    exact key_ne_of_index_ne hnodup hindex hget hother heq
  · rw [update_of_ne hold]
    ext label
    rw [catalogMap_eq_some_iff hnodup', catalogMap_eq_some_iff hnodup]
    apply and_congr_left
    intro heq
    constructor
    · exact mem_of_mem_eraseIdx
    · intro hmem
      have hne : label ≠ existing := by
        intro hlabel
        exact hold (by rw [← heq, hlabel])
      obtain ⟨other, hother, hget⟩ := exists_ne_index hindex hmem hne
      exact mem_eraseIdx_iff_getElem?.mpr ⟨other, hother, hget⟩

end

end CatalogMap

/-! ## What the service publishes -/

/-- Every label of the catalog has a name as the service stores it. -/
def Named (catalog : List WorkspaceLabelDefinition) : Prop :=
  ∀ label ∈ catalog, Normalized label.name

/-- A change, if there is one, says how a catalog became another. -/
structure Publishes (toLowerCase : String → String) (catalog catalog' : List WorkspaceLabelDefinition)
    (change : Option WorkspaceLabelChange) : Prop where
  named : Named catalog'
  names : ∀ published ∈ change, ∀ name ∈ published.names, Normalized name
  valid : Valid (catalogMap toLowerCase catalog) (change.elim [] (·.edits toLowerCase))
  values : values (change.elim [] (·.edits toLowerCase)) (catalogMap toLowerCase catalog) =
    catalogMap toLowerCase catalog'

section Publishing

variable {state : LabelState ρ} {mutation : WorkspaceLabelMutation ρ} {now : String}
  {catalog : List WorkspaceLabelDefinition}

theorem publishes_none (h : Named catalog) :
    Publishes toLowerCase catalog catalog none where
  named := h
  names := nofun
  valid := trivial
  values := rfl

theorem Named.set (h : Named catalog) (new : WorkspaceLabelDefinition) (hnew : Normalized new.name)
    (index : ℕ) :
    Named (catalog.set index new) := by
  intro label hlabel
  rcases mem_or_eq_of_mem_set hlabel with hmem | rfl
  · exact h label hmem
  · exact hnew

theorem catalogMap_isSome_of_index {index : ℕ} {existing : WorkspaceLabelDefinition}
    (hindex : catalog[index]? = some existing) :
    (catalogMap toLowerCase catalog (workspaceLabelKey toLowerCase existing.name)).isSome := by
  rw [isSome_iff_ne_none, ne_eq, catalogMap_eq_none_iff, not_not]
  exact List.mem_map.mpr ⟨existing, mem_of_getElem? hindex, rfl⟩

theorem publishes_planAssignment {input : AssignmentInput} {name : String}
    (hname : Normalized name) (hnamed : Named state.catalog)
    (h : planAssignment toLowerCase state input name now = .ok mutation) :
    Publishes toLowerCase state.catalog mutation.labels mutation.change := by
  obtain ⟨workspace, definition, -, hkey, hcatalog, -⟩ := planAssignment_eq_ok h
  rcases hcatalog with ⟨hlabels, -, hchange⟩ | ⟨hlabels, hdefinition, hfresh, hchange⟩
  · rw [hlabels, hchange]
    exact publishes_none hnamed
  · have hnormal : Normalized definition.name := by
      rw [hdefinition]
      exact hname
    rw [← hkey] at hfresh
    rw [hlabels, hchange]
    constructor
    · intro label hlabel
      rcases mem_append.mp hlabel with hlabel | hlabel
      · exact hnamed label hlabel
      · rw [mem_singleton.mp hlabel]
        exact hnormal
    · intro published hpublished published_name hmem
      cases hpublished
      rw [mem_singleton.mp hmem]
      exact hnormal
    · exact ⟨nofun, trivial⟩
    · exact (catalogMap_append definition hfresh).symm

section

variable (hstate : Consistent toLowerCase state) (hnamed : Named state.catalog)
include hstate hnamed

theorem publishes_planUpdate {key : String} {newName : Option String} {color : Option WorkspaceLabelColor}
    (hnew : ∀ name ∈ newName, Normalized name)
    (h : planUpdate toLowerCase state key newName color now = .ok mutation) :
    Publishes toLowerCase state.catalog mutation.labels mutation.change := by
  obtain ⟨existing, index, hfound, hcases⟩ := planUpdate_eq_ok h
  obtain ⟨hindex, hexisting⟩ := findLabel_eq_some hfound
  have hold := hnamed existing (mem_of_getElem? hindex)
  rcases hcases with rfl | ⟨color, hlabels, -, hchange⟩ |
    ⟨name, color, hname, hkey, hlabels, -, hchange⟩
  · exact publishes_none hnamed
  · rw [hlabels, hchange]
    refine ⟨hnamed.set { existing with color } hold index, ?_, ⟨nofun, trivial⟩, ?_⟩
    · intro published hpublished name hmem
      cases hpublished
      rw [mem_singleton.mp hmem]
      exact hold
    · rw [catalogMap_set hstate.keysNodup hindex { existing with color } (Or.inl rfl),
        update_idem]
      rfl
  · rw [hlabels, hchange]
    have hnormal := hnew name hname
    rw [← hexisting] at hkey
    refine ⟨hnamed.set { name, color } hnormal index, ?_, ?_, ?_⟩
    · intro published hpublished published_name hmem
      cases hpublished
      rcases mem_cons.mp hmem with rfl | hmem
      · exact hnormal
      · rw [mem_singleton.mp hmem]
        exact hold
    · rw [elim_some, edits_rename hold.2]
      exact ⟨fun _ => catalogMap_isSome_of_index hindex, nofun, trivial⟩
    · rw [elim_some, edits_rename hold.2]
      exact (catalogMap_set hstate.keysNodup hindex { name, color } hkey).symm

theorem publishes_planDelete {key : String} (h : planDelete toLowerCase state key now = .ok mutation) :
    Publishes toLowerCase state.catalog mutation.labels mutation.change := by
  unfold planDelete at h
  cases hfound : findLabel toLowerCase state.catalog key with
  | none =>
    rw [hfound] at h
    have hmutation := Except.ok.inj h
    subst hmutation
    exact publishes_none hnamed
  | some entry =>
    rcases entry with ⟨existing, index⟩
    obtain ⟨hindex, -⟩ := findLabel_eq_some hfound
    have hold := hnamed existing (mem_of_getElem? hindex)
    rw [hfound] at h
    have hlabels : mutation.labels = state.catalog.eraseIdx index := by
      rw [← Except.ok.inj h]
    have hchange : mutation.change = some (.remove existing.name) := by
      rw [← Except.ok.inj h]
      exact if_neg hold.2
    rw [hlabels, hchange]
    constructor
    · intro label hlabel
      exact hnamed label (mem_of_mem_eraseIdx hlabel)
    · intro published hpublished name hmem
      cases hpublished
      rw [mem_singleton.mp hmem]
      exact hold
    · exact ⟨fun _ => catalogMap_isSome_of_index hindex, trivial⟩
    · exact (catalogMap_eraseIdx hstate.keysNodup hindex).symm

theorem publishes_plan {request : LabelRequest} (h : plan toLowerCase state now request = .ok mutation) :
    Publishes toLowerCase state.catalog mutation.labels mutation.change := by
  cases request with
  | setAssignment input =>
    obtain ⟨name, hname, hplan⟩ := bind_eq_ok.mp h
    exact publishes_planAssignment (normalized_of_requireName hname) hnamed hplan
  | update input =>
    obtain ⟨name, -, hrest⟩ := bind_eq_ok.mp h
    obtain ⟨newName, hnewName, hplan⟩ := bind_eq_ok.mp hrest
    apply publishes_planUpdate hstate hnamed _ hplan
    intro name hname
    obtain ⟨raw, hraw⟩ := mapM_requireName hnewName name hname
    exact normalized_of_requireName hraw
  | delete nameInput =>
    obtain ⟨name, -, hplan⟩ := bind_eq_ok.mp h
    exact publishes_planDelete hstate hnamed hplan

omit hstate hnamed in
/-- A mutation is committed and published, or neither. -/
theorem finish_published (state : LabelState ρ) (mutation : WorkspaceLabelMutation ρ)
    (outcome : CommitOutcome ρ) :
    ((state.finish mutation outcome).1.catalog = mutation.labels ∧
        (state.finish mutation outcome).2.published = mutation.change) ∨
      ((state.finish mutation outcome).1.catalog = state.catalog ∧
        (state.finish mutation outcome).2.published = none) := by
  have hsame : ¬ mutation.forcePersist state = true → state.catalog = mutation.labels := by
    intro hwritten
    by_contra hne
    apply hwritten
    rw [WorkspaceLabelMutation.forcePersist, Bool.or_eq_true]
    exact Or.inr (decide_eq_true fun heq => hne heq.symm)
  cases outcome with
  | persisted => exact Or.inl ⟨rfl, rfl⟩
  | abandoned =>
    by_cases hwritten : mutation.forcePersist state = true
    · simp only [LabelState.finish, hwritten, if_true]
      exact Or.inr ⟨trivial, rfl⟩
    · simp only [LabelState.finish, hwritten, Bool.false_eq_true, if_false]
      exact Or.inl ⟨hsame hwritten, rfl⟩
  | rolledBack meanwhile =>
    by_cases hwritten : mutation.forcePersist state = true
    · simp only [LabelState.finish, hwritten, if_true]
      exact Or.inr ⟨rfl, rfl⟩
    · simp only [LabelState.finish, hwritten, Bool.false_eq_true, if_false]
      exact Or.inl ⟨hsame hwritten, rfl⟩

/-- What an operation publishes says how it changed the catalog. -/
theorem publishes_step (op : LabelOp ρ) :
    Publishes toLowerCase state.catalog (state.step toLowerCase op).1.catalog
      (state.step toLowerCase op).2.published := by
  cases op with
  | upsertWorkspace input written =>
    cases written with
    | true => exact publishes_none hnamed
    | false => exact publishes_none hnamed
  | request request now outcome =>
    cases hplan : plan toLowerCase state now request with
    | error error =>
      simp only [LabelState.step, hplan]
      exact publishes_none hnamed
    | ok mutation =>
      simp only [LabelState.step, hplan]
      have hplanned := publishes_plan hstate hnamed hplan
      rcases finish_published state mutation outcome with
        ⟨hcatalog, hpublished⟩ | ⟨hcatalog, hpublished⟩
      · rw [hcatalog, hpublished]
        exact hplanned
      · rw [hcatalog, hpublished]
        exact publishes_none hnamed

end

end Publishing

end Orqara.Labels
