import Orqara.Library.JsString
import Orqara.Library.OrderedMap

/-!
# The workspace label service

A catalog of labels, the names of them that workspaces carry, and the edits that the service
plans on both at once. A name is what is shown; a label is identified by its key, the
normalised name in lower case.
-/

namespace Orqara.Labels

/-! ## Names -/

inductive WorkspaceLabelColor
  | violet | sky | emerald | orange | pink | indigo | teal | red | amber | blue
  deriving DecidableEq, Repr

structure WorkspaceLabelDefinition where
  name : String
  color : WorkspaceLabelColor
  deriving DecidableEq

/-- `replace(/\s+/g, " ")`; `inSpace` says that a run of white space has begun. -/
def collapseSpaces (inSpace : Bool) : List Char → List Char
  | [] => []
  | c :: cs =>
    if isWhiteSpace c then
      if inSpace then collapseSpaces true cs else ' ' :: collapseSpaces true cs
    else c :: collapseSpaces false cs

def normalizeWorkspaceLabelName (name : String) : String :=
  trim (String.ofList (collapseSpaces false name.toList))

/-- White space is a single space wherever there is any. -/
def Collapsed (cs : List Char) : Prop :=
  (∀ c ∈ cs, isWhiteSpace c = true → c = ' ') ∧
    cs.IsChain fun c d => isWhiteSpace c = true → isWhiteSpace d = false

theorem collapsed_collapseSpaces (inSpace : Bool) (cs : List Char) :
    Collapsed (collapseSpaces inSpace cs) ∧
      (inSpace = true → ∀ c ∈ (collapseSpaces inSpace cs).head?, isWhiteSpace c = false) := by
  induction cs generalizing inSpace with
  | nil => simp [collapseSpaces, Collapsed]
  | cons c cs ih =>
    unfold collapseSpaces
    by_cases hc : isWhiteSpace c = true
    · rw [if_pos hc]
      obtain ⟨⟨hspaces, hchain⟩, hhead⟩ := ih true
      cases inSpace with
      | true => exact ⟨⟨hspaces, hchain⟩, hhead⟩
      | false =>
        refine ⟨⟨?_, ?_⟩, by simp⟩
        · intro d hd hspace
          rcases List.mem_cons.mp hd with rfl | hd
          · rfl
          · exact hspaces d hd hspace
        · exact List.isChain_cons.mpr ⟨fun d hd _ => hhead rfl d hd, hchain⟩
    · rw [if_neg hc]
      obtain ⟨⟨hspaces, hchain⟩, -⟩ := ih false
      refine ⟨⟨?_, ?_⟩, ?_⟩
      · intro d hd hspace
        rcases List.mem_cons.mp hd with rfl | hd
        · exact absurd hspace hc
        · exact hspaces d hd hspace
      · exact List.isChain_cons.mpr ⟨fun d _ hspace => absurd hspace hc, hchain⟩
      · intro _ d hd
        rw [List.head?_cons, Option.mem_some_iff] at hd
        rw [← hd]
        simpa using hc

/-- A collapsed text stays as it is; one that goes on after a space starts with no white space. -/
theorem collapseSpaces_of_collapsed {cs : List Char} (h : Collapsed cs) {inSpace : Bool}
    (hhead : inSpace = true → ∀ c ∈ cs.head?, isWhiteSpace c = false) :
    collapseSpaces inSpace cs = cs := by
  induction cs generalizing inSpace with
  | nil => rfl
  | cons c cs ih =>
    obtain ⟨hspaces, hchain⟩ := h
    obtain ⟨hnext, hrest⟩ := List.isChain_cons.mp hchain
    have hcollapsed : Collapsed cs := ⟨fun d hd => hspaces d (List.mem_cons_of_mem _ hd), hrest⟩
    unfold collapseSpaces
    by_cases hc : isWhiteSpace c = true
    · have hout : inSpace = false := by
        by_contra hin
        have hvisible := hhead (by simpa using hin) c rfl
        rw [hvisible] at hc
        cases hc
      rw [if_pos hc, hout, if_neg Bool.false_ne_true, ih hcollapsed fun _ d hd => hnext d hd hc,
        hspaces c List.mem_cons_self hc]
    · rw [if_neg hc, ih hcollapsed fun (h : false = true) => absurd h Bool.false_ne_true]

theorem Collapsed.of_isInfix {cs ds : List Char} (h : Collapsed cs) (hds : ds <:+: cs) :
    Collapsed ds :=
  ⟨fun c hc => h.1 c (hds.subset hc), List.IsChain.infix h.2 hds⟩

theorem trimChars_isInfix (cs : List Char) : trimChars cs <:+: cs :=
  (List.rdropWhile_prefix _ _).isInfix.trans (List.dropWhile_suffix _).isInfix

@[simp] theorem normalizeWorkspaceLabelName_idem (name : String) :
    normalizeWorkspaceLabelName (normalizeWorkspaceLabelName name) =
      normalizeWorkspaceLabelName name := by
  have hcollapsed : Collapsed (trimChars (collapseSpaces false name.toList)) :=
    (collapsed_collapseSpaces false name.toList).1.of_isInfix (trimChars_isInfix _)
  unfold normalizeWorkspaceLabelName trim
  simp only [String.toList_ofList]
  rw [collapseSpaces_of_collapsed hcollapsed fun (h : false = true) => absurd h Bool.false_ne_true,
    trimChars_trimChars]

/-- `toLowerCase` maps a string to lower case. -/
def workspaceLabelKey (toLowerCase : String → String) (name : String) : String :=
  toLowerCase (normalizeWorkspaceLabelName name)

/-! ## Records and changes -/

/-- A workspace; `details` are the fields that labels have nothing to do with. -/
structure PersistedWorkspaceRecord (ρ : Type) where
  workspaceId : String
  labels : Option (List String)
  archivedAt : Option String
  updatedAt : String
  details : ρ

/-- The labels that a workspace carries. -/
def PersistedWorkspaceRecord.carried {ρ : Type} (workspace : PersistedWorkspaceRecord ρ) :
    List String :=
  workspace.labels.getD []

inductive WorkspaceLabelErrorCode
  | labelNameEmpty | labelNotFound | labelNameTaken | workspaceNotFound
  deriving DecidableEq, Repr

structure WorkspaceLabelError where
  code : WorkspaceLabelErrorCode
  message : String
  deriving DecidableEq

inductive WorkspaceLabelChange
  | upsert (label : WorkspaceLabelDefinition) (previousName : Option String)
  | remove (name : String)
  deriving DecidableEq

/-- What a planner makes of the catalog and the workspaces, with the change to publish. -/
structure WorkspaceLabelMutation (ρ : Type) where
  labels : List WorkspaceLabelDefinition
  workspaceUpdates : List (PersistedWorkspaceRecord ρ)
  change : Option WorkspaceLabelChange

/-- The catalog and the workspaces in memory. -/
structure LabelState (ρ : Type) where
  catalog : List WorkspaceLabelDefinition
  workspaces : OrderedMap String (PersistedWorkspaceRecord ρ)

namespace LabelState

variable {ρ : Type}

def empty : LabelState ρ where
  catalog := []
  workspaces := ∅

/-- The labels that a workspace carries, none where there is no such workspace. -/
def assignments (state : LabelState ρ) (workspaceId : String) : List String :=
  ((state.workspaces.get workspaceId).map (·.carried)).getD []

end LabelState

/-! ## Planning -/

section Planning

variable {ρ : Type} (toLowerCase : String → String)

def requireName (raw : String) : Except WorkspaceLabelError String :=
  let name := normalizeWorkspaceLabelName raw
  if name = "" then
    .error { code := .labelNameEmpty, message := "Label name cannot be empty" }
  else .ok name

/-- The first label of the catalog with a key, and its index. -/
def findLabel (catalog : List WorkspaceLabelDefinition) (key : String) :
    Option (WorkspaceLabelDefinition × ℕ) :=
  catalog.zipIdx.find? fun entry => workspaceLabelKey toLowerCase entry.1.name = key

/-- The new list, unless it is the one that was there. -/
def updateAssignmentLabels (current : List String) (key displayName : String) (assigned : Bool) :
    Option (List String) :=
  match current.findIdx? fun label => workspaceLabelKey toLowerCase label = key with
  | none => if assigned then some (current ++ [displayName]) else none
  | some assignedIndex => if assigned then none else some (current.eraseIdx assignedIndex)

/-- An empty list of labels is stored as none. -/
def storedLabels (labels : List String) : Option (List String) :=
  if labels = [] then none else some labels

/-- The labels of a workspace with those of a key renamed, or left out. -/
def rewriteLabels (labels : List String) (fromKey : String) (target : Option String) :
    List String :=
  labels.flatMap fun label =>
    if workspaceLabelKey toLowerCase label = fromKey then (target.filter (· ≠ "")).toList
    else [label]

def rewriteAssignments (workspaces : OrderedMap String (PersistedWorkspaceRecord ρ))
    (fromKey : String) (target : Option String) (now : String) :
    List (PersistedWorkspaceRecord ρ) :=
  (workspaces.entries.filter fun entry =>
      entry.2.carried.any fun label => workspaceLabelKey toLowerCase label = fromKey).map
    fun entry =>
      { entry.2 with
        labels := storedLabels (rewriteLabels toLowerCase entry.2.carried fromKey target)
        updatedAt := now }

structure AssignmentInput where
  workspaceId : String
  label : WorkspaceLabelDefinition
  assigned : Bool

structure UpdateInput where
  name : String
  newName : Option String
  color : Option WorkspaceLabelColor

def planAssignment (state : LabelState ρ) (input : AssignmentInput) (name now : String) :
    Except WorkspaceLabelError (WorkspaceLabelMutation ρ) :=
  match state.workspaces.get input.workspaceId with
  | none => .error { code := .workspaceNotFound, message := "Workspace not found" }
  | some workspace =>
    if workspace.archivedAt.any (· ≠ "") then
      .error { code := .workspaceNotFound, message := "Workspace not found" }
    else
      let key := workspaceLabelKey toLowerCase name
      let existing := (findLabel toLowerCase state.catalog key).map Prod.fst
      let definition := existing.getD { name, color := input.label.color }
      let catalogChanged := existing.isNone && input.assigned
      .ok
        { labels := if catalogChanged then state.catalog ++ [definition] else state.catalog
          workspaceUpdates :=
            (updateAssignmentLabels toLowerCase workspace.carried key definition.name
              input.assigned).toList.map fun labels =>
                { workspace with labels := storedLabels labels, updatedAt := now }
          change := if catalogChanged then some (.upsert definition none) else none }

def planUpdate (state : LabelState ρ) (fromKey : String) (newName : Option String)
    (color : Option WorkspaceLabelColor) (now : String) :
    Except WorkspaceLabelError (WorkspaceLabelMutation ρ) :=
  match findLabel toLowerCase state.catalog fromKey with
  | none => .error { code := .labelNotFound, message := "Label not found" }
  | some (existing, index) =>
    -- a label that keeps its own key does not collide with itself
    if newName.any fun name => workspaceLabelKey toLowerCase name ≠ fromKey &&
        (findLabel toLowerCase state.catalog (workspaceLabelKey toLowerCase name)).isSome then
      .error { code := .labelNameTaken, message := "A label with that name already exists" }
    else
      let nameChanged := newName.any (· ≠ existing.name)
      let colorChanged := color.any (· ≠ existing.color)
      if !nameChanged && !colorChanged then
        .ok { labels := state.catalog, workspaceUpdates := [], change := none }
      else
        let label :=
          { name := if nameChanged then newName.getD existing.name else existing.name
            color := color.getD existing.color }
        .ok
          { labels := state.catalog.set index label
            workspaceUpdates :=
              if nameChanged then
                rewriteAssignments toLowerCase state.workspaces fromKey (some label.name) now
              else []
            change :=
              some (.upsert label (if nameChanged then some existing.name else none)) }

def planDelete (state : LabelState ρ) (key now : String) :
    Except WorkspaceLabelError (WorkspaceLabelMutation ρ) :=
  match findLabel toLowerCase state.catalog key with
  | none => .ok { labels := state.catalog, workspaceUpdates := [], change := none }
  | some (existing, index) =>
    .ok
      { labels := state.catalog.eraseIdx index
        workspaceUpdates := rewriteAssignments toLowerCase state.workspaces key none now
        change := if existing.name = "" then none else some (.remove existing.name) }

inductive LabelRequest
  | setAssignment (input : AssignmentInput)
  | update (input : UpdateInput)
  | delete (nameInput : String)

/-- The mutation that a request plans at the time `now`. -/
def plan (state : LabelState ρ) (now : String) :
    LabelRequest → Except WorkspaceLabelError (WorkspaceLabelMutation ρ)
  | .setAssignment input =>
    requireName input.label.name >>= fun name =>
      planAssignment toLowerCase state input name now
  | .update input =>
    requireName input.name >>= fun name =>
      input.newName.mapM requireName >>= fun newName =>
        planUpdate toLowerCase state (workspaceLabelKey toLowerCase name) newName input.color now
  | .delete nameInput =>
    requireName nameInput >>= fun name =>
      planDelete toLowerCase state (workspaceLabelKey toLowerCase name) now

end Planning

/-! ## Committing -/

/-- An upsert of a workspace that does not touch its labels. -/
structure WorkspaceUpsert (ρ : Type) where
  workspaceId : String
  archivedAt : Option String
  updatedAt : String
  details : ρ

/-- The record of an upserted workspace, which keeps the labels it has. -/
def WorkspaceUpsert.record {ρ : Type} (input : WorkspaceUpsert ρ) (labels : Option (List String)) :
    PersistedWorkspaceRecord ρ where
  workspaceId := input.workspaceId
  labels := labels
  archivedAt := input.archivedAt
  updatedAt := input.updatedAt
  details := input.details

structure WorkspaceLabelWorkspaceState where
  workspaceId : String
  labels : Option (List String)
  updatedAt : String

/-- What the catalog and the labels of the updated workspaces were, and what they become. -/
structure WorkspaceLabelTransaction where
  beforeLabels : List WorkspaceLabelDefinition
  afterLabels : List WorkspaceLabelDefinition
  beforeWorkspaces : List WorkspaceLabelWorkspaceState
  afterWorkspaces : List WorkspaceLabelWorkspaceState

section Committing

variable {ρ : Type}

def workspaceState (workspace : PersistedWorkspaceRecord ρ) : WorkspaceLabelWorkspaceState where
  workspaceId := workspace.workspaceId
  labels := workspace.labels
  updatedAt := workspace.updatedAt

def transactionFor (state : LabelState ρ) (mutation : WorkspaceLabelMutation ρ) :
    WorkspaceLabelTransaction where
  beforeLabels := state.catalog
  afterLabels := mutation.labels
  beforeWorkspaces := mutation.workspaceUpdates.filterMap fun workspace =>
    (state.workspaces.get workspace.workspaceId).map workspaceState
  afterWorkspaces := mutation.workspaceUpdates.map workspaceState

/-- The records with updates put in under their ids. -/
def applyUpdates (workspaces : OrderedMap String (PersistedWorkspaceRecord ρ))
    (updates : List (PersistedWorkspaceRecord ρ)) :
    OrderedMap String (PersistedWorkspaceRecord ρ) :=
  updates.foldl (fun workspaces record => workspaces.set record.workspaceId record) workspaces

namespace LabelState

def commit (state : LabelState ρ) (mutation : WorkspaceLabelMutation ρ) : LabelState ρ where
  catalog := mutation.labels
  workspaces := applyUpdates state.workspaces mutation.workspaceUpdates

/-- The updates that give workspaces that are still there their earlier labels back. -/
def restored (state : LabelState ρ) (transaction : WorkspaceLabelTransaction) :
    List (PersistedWorkspaceRecord ρ) :=
  transaction.beforeWorkspaces.filterMap fun before =>
    (state.workspaces.get before.workspaceId).map fun current =>
      { current with labels := before.labels, updatedAt := before.updatedAt }

/-- Rolling back a transaction that was prepared and not committed. -/
def recover (state : LabelState ρ) (transaction : WorkspaceLabelTransaction) : LabelState ρ where
  catalog := transaction.beforeLabels
  workspaces := applyUpdates state.workspaces (state.restored transaction)

def upsertWorkspace (state : LabelState ρ) (input : WorkspaceUpsert ρ) : LabelState ρ where
  catalog := state.catalog
  workspaces := state.workspaces.set input.workspaceId
    (input.record ((state.workspaces.get input.workspaceId).bind (·.labels)))

end LabelState

/-! ## The service -/

/-- How the writes of a commit went. -/
inductive CommitOutcome (ρ : Type)
  | persisted
  /-- a write failed; workspaces are upserted before the transaction is rolled back -/
  | rolledBack (meanwhile : List (WorkspaceUpsert ρ))
  /-- nothing was written, or the store blocks mutations until a restart -/
  | abandoned

inductive LabelOp (ρ : Type)
  | request (request : LabelRequest) (now : String) (outcome : CommitOutcome ρ)
  | upsertWorkspace (input : WorkspaceUpsert ρ) (written : Bool)

inductive LabelAnswer
  | done (change : Option WorkspaceLabelChange)
  | refused (error : WorkspaceLabelError)
  | failed
  deriving DecidableEq

variable (toLowerCase : String → String)

/-- A mutation that leaves the catalog and the workspaces alone is not written. -/
def WorkspaceLabelMutation.forcePersist (state : LabelState ρ)
    (mutation : WorkspaceLabelMutation ρ) : Bool :=
  mutation.workspaceUpdates.length > 0 || mutation.labels ≠ state.catalog

namespace LabelState

def finish (state : LabelState ρ) (mutation : WorkspaceLabelMutation ρ) :
    CommitOutcome ρ → LabelState ρ × LabelAnswer
  | .persisted => (state.commit mutation, .done mutation.change)
  | .rolledBack meanwhile =>
    if mutation.forcePersist state then
      ((meanwhile.foldl upsertWorkspace state).recover (transactionFor state mutation), .failed)
    else (state, .done mutation.change)
  | .abandoned =>
    if mutation.forcePersist state then (state, .failed) else (state, .done mutation.change)

def step (state : LabelState ρ) : LabelOp ρ → LabelState ρ × LabelAnswer
  | .request request now outcome =>
    match plan toLowerCase state now request with
    | .ok mutation => state.finish mutation outcome
    | .error error => (state, .refused error)
  | .upsertWorkspace input written =>
    if written then (state.upsertWorkspace input, .done none) else (state, .failed)

def run (state : LabelState ρ) (ops : List (LabelOp ρ)) : LabelState ρ :=
  ops.foldl (fun state op => (state.step toLowerCase op).1) state

end LabelState

end Committing

end Orqara.Labels
