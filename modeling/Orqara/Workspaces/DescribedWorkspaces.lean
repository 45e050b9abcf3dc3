import Orqara.Workspaces.StrongestStatus

/-!
# Described workspaces

A build stamps each workspace by what it has read of it and by what was remembered, in any order of
agents and terminals.
-/

namespace Orqara.Workspaces

open OrderedMap

variable {δ : Type} {deps : DirectoryDeps} {context : BuildContext δ} {read read' : DirectorySnapshot}
variable {history : BucketHistory} {workspaceId : String}

/-- When the workspace that is described was created. -/
def createdAtOf (read : DirectorySnapshot) (workspaceId : String) : Option String :=
  ((OrderedMap.setAll (·.workspaceId) (activeRecordsOf read) ∅).get workspaceId).map (·.createdAt)

def timeOf (deps : DirectoryDeps) (context : BuildContext δ) (read : DirectorySnapshot) (workspaceId : String)
    (previous : Option HistoryEntry) : EnteredAt :=
  resolveStatusEnteredAt (strongest (bucketsFor deps read workspaceId)) (agentsIn deps read workspaceId)
    (entriesFor deps read workspaceId) previous (createdAtOf read workspaceId) context.nowIso

/-! ## Stamps -/

section

variable (enteredAt : String → StateBucket → Option HistoryEntry → EnteredAt)
include enteredAt

section

variable (entries : List (String × Descriptor δ))

section

variable (state : Descriptors δ × BucketHistory)
include state

theorem keys_foldl_stamp (h : ∀ entry ∈ entries, entry.1 ∈ state.1.keys) :
    (entries.foldl (stamp enteredAt) state).1.keys = state.1.keys := by
  induction entries generalizing state with
  | nil => rfl
  | cons entry entries ih =>
    have hkeys : (stamp enteredAt state entry).1.keys = state.1.keys :=
      keys_set_of_mem (h entry List.mem_cons_self)
    rw [List.foldl_cons, ih, hkeys]
    intro other hother
    rw [hkeys]
    exact h other (List.mem_cons_of_mem _ hother)

theorem foldl_stamp_other (h : workspaceId ∉ entries.map Prod.fst) :
    (entries.foldl (stamp enteredAt) state).1.get workspaceId = state.1.get workspaceId ∧
    (entries.foldl (stamp enteredAt) state).2.get workspaceId = state.2.get workspaceId := by
  induction entries generalizing state with
  | nil => exact ⟨rfl, rfl⟩
  | cons entry entries ih =>
    rw [List.map_cons, List.mem_cons, not_or] at h
    obtain ⟨hdescriptors, hhistory⟩ := ih (stamp enteredAt state entry) h.2
    rw [List.foldl_cons, hdescriptors, hhistory]
    refine ⟨get_set_ne h.1, ?_⟩
    simp only [stamp]
    split
    · exact get_set_ne h.1
    · rfl

/-- A workspace is stamped once, by what was remembered of it before. -/
theorem foldl_stamp (hnodup : (entries.map Prod.fst).Nodup) {descriptor : Descriptor δ}
    (h : (workspaceId, descriptor) ∈ entries) :
    let result := enteredAt workspaceId descriptor.status (state.2.get workspaceId)
    (entries.foldl (stamp enteredAt) state).1.get workspaceId =
      some { descriptor with statusEnteredAt := result.statusEnteredAt } ∧
    (entries.foldl (stamp enteredAt) state).2.get workspaceId =
      result.recordUpdate.or (state.2.get workspaceId) := by
  induction entries generalizing state with
  | nil => exact absurd h List.not_mem_nil
  | cons entry entries ih =>
    rw [List.map_cons, List.nodup_cons] at hnodup
    rw [List.foldl_cons]
    rcases List.mem_cons.mp h with rfl | hlater
    · obtain ⟨hdescriptors, hhistory⟩ := foldl_stamp_other enteredAt entries
        (stamp enteredAt state (workspaceId, descriptor)) hnodup.1
      rw [hdescriptors, hhistory]
      refine ⟨get_set_self, ?_⟩
      simp only [stamp]
      split
      · rename_i update hupdate
        rw [hupdate, get_set_self, Option.some_or]
      · rename_i hnone
        rw [hnone, Option.none_or]
    · have hne : workspaceId ≠ entry.1 := by
        intro heq
        exact hnodup.1 (heq ▸ List.mem_map_of_mem (f := Prod.fst) hlater)
      have hsame : (stamp enteredAt state entry).2.get workspaceId = state.2.get workspaceId := by
        simp only [stamp]
        split
        · exact get_set_ne hne
        · rfl
      have hih := ih (stamp enteredAt state entry) hnodup.2 hlater
      rw [hsame] at hih
      exact hih

end

end

end

/-! ## The result of a build -/

theorem mem_activeRecordsOf (h : workspaceId ∈ (initialDescriptors context read).keys) :
    workspaceId ∈ (activeRecordsOf read).map (·.workspaceId) := by
  obtain ⟨descriptor, hget⟩ := get_of_mem_keys h
  obtain ⟨-, workspace, hincluded, hid⟩ := status_initialDescriptors hget
  exact List.mem_map.mpr ⟨workspace, (List.mem_filter.mp hincluded).1, hid⟩

theorem enteredAtOf_eq (h : workspaceId ∈ (initialDescriptors context read).keys)
    (previous : Option HistoryEntry) :
    enteredAtOf deps context read (contribute deps context read).2 workspaceId
        (strongest (bucketsFor deps read workspaceId)) previous =
      timeOf deps context read workspaceId previous := by
  simp only [enteredAtOf, timeOf, entries_contribute h,
    get_groupAgentsByWorkspaceId _ (mem_activeRecordsOf h)]
  rfl

theorem status_contribute {descriptor : Descriptor δ}
    (h : (contribute deps context read).1.get workspaceId = some descriptor) :
    descriptor.status = strongest (bucketsFor deps read workspaceId) := by
  rw [get_contribute] at h
  obtain ⟨existing, hexisting, hdescriptor⟩ := Option.map_eq_some_iff.mp h
  rw [← hdescriptor, (status_initialDescriptors hexisting).1]
  rfl

theorem keys_describe (deps : DirectoryDeps) (context : BuildContext δ) (read : DirectorySnapshot)
    (history : BucketHistory) :
    (describe deps context read history).1.keys = (initialDescriptors context read).keys := by
  rw [← keys_contribute deps, describe, keys_foldl_stamp]
  intro entry hentry
  exact List.mem_map_of_mem (f := Prod.fst) hentry

/-- What is described of a workspace, and what is remembered of it. -/
theorem describe_spec (deps : DirectoryDeps) (history : BucketHistory)
    (h : workspaceId ∈ (initialDescriptors context read).keys) :
    (∃ descriptor, (describe deps context read history).1.get workspaceId = some descriptor ∧
      descriptor.status = strongest (bucketsFor deps read workspaceId) ∧
      descriptor.statusEnteredAt =
        (timeOf deps context read workspaceId (history.get workspaceId)).statusEnteredAt) ∧
    (describe deps context read history).2.get workspaceId =
      (timeOf deps context read workspaceId (history.get workspaceId)).recordUpdate.or
        (history.get workspaceId) := by
  have hmem : workspaceId ∈ (contribute deps context read).1.keys := by
    rw [keys_contribute]
    exact h
  obtain ⟨descriptor, hget⟩ := get_of_mem_keys hmem
  have hstatus := status_contribute hget
  obtain ⟨hdescriptors, hhistory⟩ := foldl_stamp
    (enteredAtOf deps context read (contribute deps context read).2) _
    ((contribute deps context read).1, history) (contribute deps context read).1.nodup
    (get_eq_some_iff.mp hget)
  rw [hstatus, enteredAtOf_eq h] at hdescriptors hhistory
  exact ⟨⟨_, hdescriptors, rfl, rfl⟩, hhistory⟩

theorem describe_other (h : workspaceId ∉ (initialDescriptors context read).keys) :
    (describe deps context read history).2.get workspaceId = history.get workspaceId := by
  apply (foldl_stamp_other _ _ _ _).2
  rw [← keys_contribute deps] at h
  exact h

/-! ## The order of what is read -/

/-- The same agents, terminals and subagents in another order. -/
structure Reordered (read read' : DirectorySnapshot) : Prop where
  agents : read.agents.Perm read'.agents
  subagents : read.subagents.Perm read'.subagents
  terminals : read.terminals.Perm read'.terminals
  workspaces : read.workspaces = read'.workspaces
  projects : read.projects = read'.projects

section

variable (h : Reordered read read')
include h

theorem Reordered.activeAgents :
    (activeAgentsOf deps read.agents).Perm (activeAgentsOf deps read'.agents) := h.agents.filter _

omit h in
theorem nodup_activeAgents (deps : DirectoryDeps) (hnodup : (read.agents.map (·.id)).Nodup) :
    ((activeAgentsOf deps read.agents).map (·.id)).Nodup := by
  exact List.Nodup.sublist (List.filter_sublist.map _) hnodup

section

variable (hnodup : (read.agents.map (·.id)).Nodup)
include hnodup

theorem Reordered.entriesFor :
    (entriesFor deps read workspaceId).Perm (entriesFor deps read' workspaceId) := by
  obtain ⟨hget, hroot⟩ := resolveWorkspaceRootAgent_perm (nodup_activeAgents deps hnodup)
    h.activeAgents
  have hsame : subagentContribution (agentsById (activeAgentsOf deps read.agents)) =
      subagentContribution (agentsById (activeAgentsOf deps read'.agents)) := by
    funext subagent
    rw [subagentContribution, subagentContribution, hget, hroot]
  rw [Workspaces.entriesFor, Workspaces.entriesFor, hsame]
  apply List.Perm.append
  · exact ((h.terminals.filterMap _).filter _).map _
  · exact ((h.subagents.filterMap _).filter _).map _

theorem Reordered.strongest_eq (deps : DirectoryDeps) (workspaceId : String) :
    strongest (bucketsFor deps read workspaceId) = strongest (bucketsFor deps read' workspaceId) := by
  obtain ⟨-, hroot⟩ := resolveWorkspaceRootAgent_perm (nodup_activeAgents deps hnodup)
    h.activeAgents
  have hsame : agentContribution (agentsById (activeAgentsOf deps read.agents)) =
      agentContribution (agentsById (activeAgentsOf deps read'.agents)) := by
    funext agent
    rw [agentContribution, agentContribution, hroot]
  apply strongest_perm
  apply List.Perm.append
  · rw [agentContributions, agentContributions, hsame]
    exact ((h.activeAgents.filterMap _).filter _).map _
  · exact (h.entriesFor hnodup).map _

omit h hnodup in
theorem findNewestTimestampInBucket_perm {agents agents' : List AgentPayload}
    {entries entries' : List BucketEntry} (hagents : agents.Perm agents') (hentries : entries.Perm entries')
    (bucket : StateBucket) :
    findNewestTimestampInBucket agents entries bucket = findNewestTimestampInBucket agents' entries' bucket := by
  unfold findNewestTimestampInBucket
  have hperm := (((hagents.filter fun agent => deriveAgentStateBucket agent == bucket).map
      fun agent => (nonEmptyText agent.attentionTimestamp).getD agent.updatedAt).filter (· ≠ "")).append
    ((hentries.filter (·.bucket == bucket)).map (·.changedAtIso))
  dsimp only
  rw [sortTexts_perm hperm]

theorem Reordered.timeOf_eq (previous : Option HistoryEntry) :
    timeOf deps context read workspaceId previous = timeOf deps context read' workspaceId previous := by
  have hagents : (agentsIn deps read workspaceId).Perm (agentsIn deps read' workspaceId) :=
    h.activeAgents.filter _
  have hentries : (Workspaces.entriesFor deps read workspaceId).Perm
      (Workspaces.entriesFor deps read' workspaceId) := h.entriesFor hnodup
  have hcreated : createdAtOf read workspaceId = createdAtOf read' workspaceId := by
    simp only [createdAtOf, activeRecordsOf, h.workspaces, h.projects]
  simp only [timeOf, resolveStatusEnteredAt, h.strongest_eq hnodup, hcreated, hagents.isEmpty_eq,
    hentries.isEmpty_eq, findNewestTimestampInBucket_perm hagents hentries]

omit hnodup in
theorem Reordered.initialDescriptors_eq :
    initialDescriptors context read = initialDescriptors context read' := by
  simp only [initialDescriptors, includedWorkspacesOf, activeRecordsOf, h.workspaces, h.projects]

/-- The order does not matter. -/
theorem describe_reordered :
    describe deps context read history = describe deps context read' history := by
  have hdescriptors : (contribute deps context read).1 = (contribute deps context read').1 := by
    apply ext_get
    · rw [keys_contribute, keys_contribute, h.initialDescriptors_eq]
    · intro id
      rw [get_contribute, get_contribute, h.initialDescriptors_eq]
      apply Option.map_congr
      intro existing hexisting
      have hdone := (status_initialDescriptors hexisting).1
      have hstatus := h.strongest_eq hnodup deps id
      unfold strongest at hstatus
      rw [hdone, hstatus]
  unfold describe
  dsimp only
  rw [← hdescriptors]
  apply List.foldl_ext
  intro state entry hentry
  have hget := get_eq_some_iff.mpr hentry
  have hmem : entry.1 ∈ (initialDescriptors context read).keys := by
    rw [← keys_contribute deps]
    exact mem_keys_of_get hget
  have hmem' : entry.1 ∈ (initialDescriptors context read').keys := h.initialDescriptors_eq ▸ hmem
  have htime : enteredAtOf deps context read (contribute deps context read).2 entry.1 entry.2.status =
      enteredAtOf deps context read' (contribute deps context read').2 entry.1 entry.2.status := by
    funext previous
    rw [status_contribute hget, enteredAtOf_eq hmem, h.strongest_eq hnodup, enteredAtOf_eq hmem',
      h.timeOf_eq hnodup]
  simp only [stamp, htime]

end

end

/-! ## All of it -/

theorem workspaceId_of_agentContribution {m : OrderedMap String AgentPayload} {agent : AgentPayload}
    {bucket : StateBucket} (h : agentContribution m agent = some (workspaceId, bucket)) :
    nonEmptyText agent.workspaceId = some workspaceId ∧
    ∃ root, resolveWorkspaceRootAgent m agent = some root ∧ root.workspaceId = agent.workspaceId := by
  unfold agentContribution at h
  obtain ⟨root, hroot, h⟩ := Option.bind_eq_some_iff.mp h
  have hsame := workspaceId_of_reaches (resolveWorkspaceRootAgent_reaches hroot).1
  refine ⟨?_, root, hroot, hsame⟩
  dsimp only at h
  split_ifs at h
  · obtain ⟨id, hid, heq⟩ := Option.map_eq_some_iff.mp h
    rw [← hsame, hid, ← (Prod.mk.inj heq).1]
  · obtain ⟨id, hid, heq⟩ := Option.map_eq_some_iff.mp h
    rw [← hsame, hid, ← (Prod.mk.inj heq).1]

theorem root_mem {agents : List AgentPayload} {agent root : AgentPayload} (hagent : agent ∈ agents)
    (h : Relation.ReflTransGen (ParentOf (agentsById agents)) agent root) : root ∈ agents := by
  rcases Relation.ReflTransGen.cases_tail h with rfl | ⟨_, -, _, -, hget, -⟩
  · exact hagent
  · exact mem_of_get_setAll hget

theorem mem_initialDescriptors {workspace : WorkspaceRecord}
    (h : workspace ∈ includedWorkspacesOf read context.workspaceIds) :
    workspace.workspaceId ∈ (initialDescriptors context read).keys := by
  have hfold (included : List WorkspaceRecord) (make : WorkspaceRecord → Descriptor δ) (start : Descriptors δ)
      (hmem : workspace ∈ included ∨ workspace.workspaceId ∈ start.keys) :
      workspace.workspaceId ∈ (included.foldl (fun descriptors workspace =>
        descriptors.set workspace.workspaceId (make workspace)) start).keys := by
    induction included generalizing start with
    | nil => exact hmem.resolve_left List.not_mem_nil
    | cons other included ih =>
      have hkeys : workspace = other ∨ workspace.workspaceId ∈ start.keys →
          workspace.workspaceId ∈ (start.set other.workspaceId (make other)).keys := by
        rw [mem_keys_iff, mem_keys_iff, get_set]
        rintro (rfl | hold)
        · rw [if_pos rfl]
          rfl
        · split
          · rfl
          · exact hold
      apply ih
      rcases hmem with hlist | hold
      · rcases List.mem_cons.mp hlist with heq | hlater
        · exact .inr (hkeys (.inl heq))
        · exact .inl hlater
      · exact .inr (hkeys (.inr hold))
  exact hfold _ _ ∅ (.inl h)

/-- What a build says of the workspaces it has read. -/
structure StrongestStatuses (deps : DirectoryDeps) (context : BuildContext δ) (read : DirectorySnapshot)
    (history : BucketHistory) : Prop where
  /-- every walk to a root ends by itself -/
  ends : ∀ agent, (walkToRoot (agentsById (activeAgentsOf deps read.agents))
    ((agentsById (activeAgentsOf deps read.agents)).size + 1) [agent.id] agent).isSome
  reordered : ∀ read', Reordered read read' →
    describe deps context read history = describe deps context read' history
  /-- an agent contributes to the workspace of its root, which is its own -/
  attributed : ∀ agent ∈ activeAgentsOf deps read.agents, ∀ workspaceId bucket,
    agentContribution (agentsById (activeAgentsOf deps read.agents)) agent = some (workspaceId, bucket) →
    agent.workspaceId = some workspaceId ∧
    ∃ root ∈ activeAgentsOf deps read.agents,
      Relation.ReflTransGen (ParentOf (agentsById (activeAgentsOf deps read.agents))) agent root ∧
      IsRoot (agentsById (activeAgentsOf deps read.agents)) root ∧ root.workspaceId = some workspaceId
  described : ∀ workspace ∈ includedWorkspacesOf read context.workspaceIds,
    ∃ descriptor, (describe deps context read history).1.get workspace.workspaceId = some descriptor
  status : ∀ workspaceId descriptor,
    (describe deps context read history).1.get workspaceId = some descriptor →
    (bucketsFor deps read workspaceId = [] → descriptor.status = .done) ∧
    (bucketsFor deps read workspaceId ≠ [] → descriptor.status ∈ bucketsFor deps read workspaceId ∧
      ∀ bucket ∈ bucketsFor deps read workspaceId, descriptor.status.priority ≤ bucket.priority)

theorem strongest_mem {buckets : List StateBucket} (h : buckets ≠ []) : strongest buckets ∈ buckets := by
  obtain ⟨hmem, hleast⟩ := strongest_spec buckets
  rcases hmem with hmem | hdone
  · exact hmem
  · obtain ⟨bucket, hbucket⟩ := List.exists_mem_of_ne_nil buckets h
    have hle := hleast bucket hbucket
    have heq : bucket = .done := by
      rw [hdone] at hle
      cases bucket with
      | done => rfl
      | _ => exact absurd hle (by decide)
    rw [hdone, ← heq]
    exact hbucket

theorem strongestStatuses (hnodup : (read.agents.map (·.id)).Nodup) :
    StrongestStatuses deps context read history where
  ends := isSome_walkToRoot_start _
  reordered _ h := describe_reordered h hnodup
  attributed agent hagent workspaceId bucket h := by
    obtain ⟨hid, root, hroot, hsame⟩ := workspaceId_of_agentContribution h
    have hworkspace := (Option.filter_eq_some_iff.mp hid).1
    obtain ⟨hpath, hisRoot⟩ := resolveWorkspaceRootAgent_reaches hroot
    exact ⟨hworkspace, root, root_mem hagent hpath, hpath, hisRoot, hsame.trans hworkspace⟩
  described workspace hincluded := by
    apply get_of_mem_keys
    rw [keys_describe]
    exact mem_initialDescriptors hincluded
  status workspaceId descriptor hget := by
    have hmem : workspaceId ∈ (initialDescriptors context read).keys := by
      rw [← keys_describe deps context read history]
      exact mem_keys_of_get hget
    obtain ⟨⟨described, hdescribed, hstatus, -⟩, -⟩ :=
      describe_spec deps history hmem
    rw [hget, Option.some.injEq] at hdescribed
    rw [hdescribed, hstatus]
    refine ⟨fun hnil => ?_, fun hne => ⟨strongest_mem hne, (strongest_spec _).2⟩⟩
    rw [hnil]
    rfl

end Orqara.Workspaces
