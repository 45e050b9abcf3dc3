import Orqara.Workspaces.WorkspaceStatus

/-!
# Statuses are strongest contributions

The walk to the root agent ends, and stays in the workspace of its agent. What a build makes of a
workspace is a function of what contributes to it, in any order.
-/

namespace Orqara.Workspaces

open OrderedMap List Option

variable {δ : Type} {m m' : OrderedMap String AgentPayload} {agent root : AgentPayload}

/-! ## Root agents -/

/-- A link that the walk follows. -/
def ParentOf (activeAgentsById : OrderedMap String AgentPayload) (agent parent : AgentPayload) : Prop :=
  ∃ id, getParentAgentIdFromLabels agent = some id ∧ activeAgentsById.get id = some parent ∧
    parent.workspaceId = agent.workspaceId

/-- It ends at an agent without a parent, or whose parent is in another workspace. -/
def IsRoot (activeAgentsById : OrderedMap String AgentPayload) (agent : AgentPayload) : Prop :=
  ∀ id, getParentAgentIdFromLabels agent = some id →
    ∃ parent, activeAgentsById.get id = some parent ∧ parent.workspaceId ≠ agent.workspaceId

/-- Every parent is met once: more fuel than agents that have not been met is enough. -/
theorem isSome_walkToRoot {fuel : ℕ} {seen : List String}
    (h : (m.keys.filter fun id => !seen.contains id).length < fuel) :
    (walkToRoot m fuel seen agent).isSome := by
  induction fuel generalizing seen agent with
  | zero => exact absurd h (Nat.not_lt_zero _)
  | succ fuel ih =>
    rw [walkToRoot]
    split
    · rfl
    · rename_i id _
      by_cases hseen : seen.contains id
      · rw [if_pos hseen]
        rfl
      · rw [if_neg hseen]
        split
        · rfl
        · rename_i parent hparent
          by_cases hworkspace : parent.workspaceId ≠ agent.workspaceId
          · rw [if_pos hworkspace]
            rfl
          · rw [if_neg hworkspace]
            apply ih
            have hless : (m.keys.filter fun key => !(id :: seen).contains key).length <
                (m.keys.filter fun key => !seen.contains key).length := by
              have hsub : (m.keys.filter fun key => !(id :: seen).contains key) =
                  (m.keys.filter fun key => !seen.contains key).filter (· ≠ id) := by
                rw [List.filter_filter]
                apply filter_congr
                intro key _
                by_cases hkey : key = id
                · simp [hkey]
                · simp [hkey]
              rw [hsub]
              apply length_filter_lt_length_iff_exists.mpr
              have hmem := mem_keys_of_get hparent
              exact ⟨id, mem_filter.mpr ⟨hmem, by simpa using hseen⟩, by simp⟩
            omega

theorem walkToRoot_reaches {fuel : ℕ} {seen : List String}
    (h : walkToRoot m fuel seen agent = some (some root)) :
    Relation.ReflTransGen (ParentOf m) agent root ∧ IsRoot m root := by
  induction fuel generalizing seen agent with
  | zero => contradiction
  | succ fuel ih =>
    rw [walkToRoot] at h
    split at h
    · rename_i hnone
      have hself : agent = root := some.inj (some.inj h)
      subst hself
      refine ⟨.refl, fun id hid => ?_⟩
      rw [hnone] at hid
      contradiction
    · rename_i id hid
      by_cases hseen : seen.contains id
      · rw [if_pos hseen] at h
        exact absurd (some.inj h) nofun
      · rw [if_neg hseen] at h
        split at h
        · exact absurd (some.inj h) nofun
        · rename_i parent hparent
          by_cases hworkspace : parent.workspaceId ≠ agent.workspaceId
          · rw [if_pos hworkspace] at h
            have hself : agent = root := some.inj (some.inj h)
            subst hself
            refine ⟨.refl, fun other hother => ?_⟩
            rw [hid, Option.some.injEq] at hother
            exact ⟨parent, hother ▸ hparent, hworkspace⟩
          · rw [if_neg hworkspace] at h
            obtain ⟨hpath, hroot⟩ := ih h
            exact ⟨.head ⟨id, hid, hparent, not_not.mp hworkspace⟩ hpath, hroot⟩

theorem workspaceId_of_reaches (h : Relation.ReflTransGen (ParentOf m) agent root) :
    root.workspaceId = agent.workspaceId := by
  induction h with
  | refl => rfl
  | tail _ hlink ih =>
    obtain ⟨_, _, _, hworkspace⟩ := hlink
    exact hworkspace.trans ih

theorem walkToRoot_congr (hget : m.get = m'.get) (fuel : ℕ) (seen : List String) (agent : AgentPayload) :
    walkToRoot m fuel seen agent = walkToRoot m' fuel seen agent := by
  induction fuel generalizing seen agent with
  | zero => rfl
  | succ fuel ih =>
    rw [walkToRoot, walkToRoot, hget]
    split
    · rfl
    · split_ifs
      · rfl
      · split
        · rfl
        · split_ifs
          · rfl
          · exact ih _ _

theorem resolveWorkspaceRootAgent_reaches (h : resolveWorkspaceRootAgent m agent = some root) :
    Relation.ReflTransGen (ParentOf m) agent root ∧ IsRoot m root :=
  walkToRoot_reaches (join_eq_some_iff.mp h)

/-- The walk of an agent ends. -/
theorem isSome_walkToRoot_start (m : OrderedMap String AgentPayload) (agent : AgentPayload) :
    (walkToRoot m (m.size + 1) [agent.id] agent).isSome := by
  apply isSome_walkToRoot
  have hle := length_filter_le (fun id => !List.contains [agent.id] id) m.keys
  have hsize : m.keys.length = m.size := length_map _
  omega

theorem entries_setAll_of_nodup {κ α : Type*} [DecidableEq κ] {key : α → κ} {xs : List α}
    (h : (xs.map key).Nodup) :
    (setAll key xs ∅).entries = xs.map fun x => (key x, x) := by
  have hfold (m : OrderedMap κ α) (hfresh : ∀ x ∈ xs, key x ∉ m.keys) :
      (setAll key xs m).entries = m.entries ++ xs.map fun x => (key x, x) := by
    induction xs generalizing m with
    | nil => simp [setAll]
    | cons x xs ih =>
      rw [map_cons, nodup_cons] at h
      have hset : (m.set (key x) x).entries = m.entries ++ [(key x, x)] := by
        rw [OrderedMap.set, dif_neg (hfresh x mem_cons_self)]
      have hfresh' : ∀ y ∈ xs, key y ∉ (m.set (key x) x).keys := by
        intro y hy
        rw [keys_set_of_not_mem (hfresh x mem_cons_self), mem_append, not_or,
          mem_singleton]
        refine ⟨hfresh y (mem_cons_of_mem _ hy), fun heq => h.1 ?_⟩
        exact heq ▸ List.mem_map_of_mem hy
      show (setAll key xs (m.set (key x) x)).entries = _
      rw [ih h.2 _ hfresh', hset, append_assoc]
      rfl
  exact hfold ∅ (by simp)

theorem get_agentsById {agents : List AgentPayload} (hnodup : (agents.map (·.id)).Nodup) {id : String} :
    (agentsById agents).get id = some agent ↔ agent ∈ agents ∧ agent.id = id := by
  rw [get_eq_some_iff, agentsById, entries_setAll_of_nodup hnodup, List.mem_map]
  constructor
  · rintro ⟨a, ha, heq⟩
    rw [Prod.mk.injEq] at heq
    exact ⟨heq.2 ▸ ha, heq.2 ▸ heq.1⟩
  · rintro ⟨hmem, hid⟩
    exact ⟨agent, hmem, by rw [hid]⟩

/-- The order of agents does not matter to their roots. -/
theorem resolveWorkspaceRootAgent_perm {agents agents' : List AgentPayload}
    (hnodup : (agents.map (·.id)).Nodup) (h : agents.Perm agents') :
    (agentsById agents).get = (agentsById agents').get ∧
    resolveWorkspaceRootAgent (agentsById agents) = resolveWorkspaceRootAgent (agentsById agents') := by
  have hnodup' : (agents'.map (·.id)).Nodup := (h.map _).nodup_iff.mp hnodup
  have hget : (agentsById agents).get = (agentsById agents').get := by
    funext id
    ext a
    rw [get_agentsById hnodup, get_agentsById hnodup', h.mem_iff]
  have hsize : (agentsById agents).size = (agentsById agents').size := by
    simp only [size, agentsById, entries_setAll_of_nodup hnodup, entries_setAll_of_nodup hnodup',
      length_map, h.length_eq]
  refine ⟨hget, ?_⟩
  funext a
  rw [resolveWorkspaceRootAgent, resolveWorkspaceRootAgent, hsize, walkToRoot_congr hget]

/-! ## Folds of contributions -/

/-- What is contributed to the workspace. -/
def contributedTo {β : Type} (workspaceId : String) (contributions : List (String × β)) : List β :=
  (contributions.filter (·.1 = workspaceId)).map (·.2)

/-- Of all buckets and `done` the one with the highest priority. -/
def strongest (buckets : List StateBucket) : StateBucket := buckets.foldl stronger .done

theorem contributedTo_cons {β : Type} (workspaceId : String) (contribution : String × β)
    (contributions : List (String × β)) :
    contributedTo workspaceId (contribution :: contributions) =
      if contribution.1 = workspaceId then contribution.2 :: contributedTo workspaceId contributions
      else contributedTo workspaceId contributions := by
  unfold contributedTo
  by_cases h : contribution.1 = workspaceId
  · simp [h]
  · simp [h]

theorem keys_applyBucket (descriptors : Descriptors δ) (contribution : String × StateBucket) :
    (applyBucket descriptors contribution).keys = descriptors.keys := by
  unfold applyBucket
  split
  · rfl
  · rename_i existing hget
    split_ifs
    · exact keys_set_of_mem (mem_keys_of_get hget)
    · rfl

theorem get_applyBucket (descriptors : Descriptors δ) (contribution : String × StateBucket)
    (workspaceId : String) :
    (applyBucket descriptors contribution).get workspaceId = (descriptors.get workspaceId).map fun existing =>
      if contribution.1 = workspaceId then
        { existing with status := stronger existing.status contribution.2 }
      else existing := by
  unfold applyBucket stronger
  by_cases hid : contribution.1 = workspaceId
  · cases hget : descriptors.get contribution.1 with
    | none => rw [← hid, hget, map_none]
    | some existing =>
      simp only [← hid, hget, map_some, if_true]
      split_ifs
      · exact get_set_self
      · exact hget
  · have hself : (descriptors.get workspaceId).map (fun existing =>
        if contribution.1 = workspaceId then
          { existing with status := stronger existing.status contribution.2 }
        else existing) = descriptors.get workspaceId := by
      simp [hid]
    unfold stronger at hself
    rw [hself]
    split
    · rfl
    · split_ifs
      · exact get_set_ne fun heq => hid heq.symm
      · rfl

theorem keys_foldl_applyBucket (contributions : List (String × StateBucket)) (descriptors : Descriptors δ) :
    (contributions.foldl applyBucket descriptors).keys = descriptors.keys := by
  induction contributions generalizing descriptors with
  | nil => rfl
  | cons contribution contributions ih => rw [foldl_cons, ih, keys_applyBucket]

theorem get_foldl_applyBucket (contributions : List (String × StateBucket)) (descriptors : Descriptors δ)
    (workspaceId : String) :
    (contributions.foldl applyBucket descriptors).get workspaceId =
      (descriptors.get workspaceId).map fun existing =>
        { existing with status := (contributedTo workspaceId contributions).foldl stronger existing.status } := by
  induction contributions generalizing descriptors with
  | nil =>
    simp only [foldl_nil, contributedTo, filter_nil, map_nil]
    exact Option.map_id'.symm
  | cons contribution contributions ih =>
    rw [foldl_cons, ih, get_applyBucket, Option.map_map, contributedTo_cons]
    congr 1
    funext existing
    by_cases hid : contribution.1 = workspaceId
    · simp [hid]
    · simp [hid]

theorem fst_foldl_applyEntry (contributions : List (String × BucketEntry))
    (state : Descriptors δ × ActivityEntries) :
    (contributions.foldl applyEntry state).1 =
      (contributions.map fun contribution => (contribution.1, contribution.2.bucket)).foldl applyBucket
        state.1 := by
  induction contributions generalizing state with
  | nil => rfl
  | cons contribution contributions ih =>
    rw [foldl_cons, ih, map_cons, foldl_cons]
    congr 1
    unfold applyEntry
    split
    · rename_i hget
      simp only [applyBucket, hget]
    · rfl

/-- The entries of a workspace that is described are all that is contributed to it. -/
theorem snd_foldl_applyEntry (contributions : List (String × BucketEntry))
    (state : Descriptors δ × ActivityEntries) {workspaceId : String} (hmem : workspaceId ∈ state.1.keys) :
    ((contributions.foldl applyEntry state).2.get workspaceId).getD [] =
      (state.2.get workspaceId).getD [] ++ contributedTo workspaceId contributions := by
  induction contributions generalizing state with
  | nil => exact (append_nil _).symm
  | cons contribution contributions ih =>
    have hkeys : workspaceId ∈ (applyEntry state contribution).1.keys := by
      unfold applyEntry
      split
      · exact hmem
      · rw [keys_applyBucket]
        exact hmem
    rw [foldl_cons, ih _ hkeys, contributedTo_cons]
    by_cases hid : contribution.1 = workspaceId
    · obtain ⟨existing, hget⟩ := get_of_mem_keys hmem
      rw [← hid] at hget
      simp only [applyEntry, hget, ← hid, get_set_self, getD_some, if_true,
        append_assoc, singleton_append]
    · rw [if_neg hid]
      unfold applyEntry
      split
      · rfl
      · rw [get_set_ne fun heq => hid heq.symm]

theorem strongest_right_comm (b c d : StateBucket) :
    stronger (stronger b c) d = stronger (stronger b d) c := by
  cases b <;> cases c <;> cases d <;> rfl

theorem strongest_perm {buckets buckets' : List StateBucket} (h : buckets.Perm buckets') :
    strongest buckets = strongest buckets' :=
  h.foldl_eq' (fun b _ c _ d => strongest_right_comm d b c) _

/-- It is one of them, or `done`, and none has a higher priority. -/
theorem strongest_spec (buckets : List StateBucket) :
    (strongest buckets ∈ buckets ∨ strongest buckets = .done) ∧
    ∀ bucket ∈ buckets, (strongest buckets).priority ≤ bucket.priority := by
  have hfold (first : StateBucket) :
      (buckets.foldl stronger first ∈ buckets ∨ buckets.foldl stronger first = first) ∧
      (buckets.foldl stronger first).priority ≤ first.priority ∧
      ∀ bucket ∈ buckets, (buckets.foldl stronger first).priority ≤ bucket.priority := by
    induction buckets generalizing first with
    | nil => exact ⟨.inr rfl, le_rfl, nofun⟩
    | cons bucket buckets ih =>
      obtain ⟨hmem, hfirst, hrest⟩ := ih (stronger first bucket)
      have hboth : (stronger first bucket).priority ≤ first.priority ∧
          (stronger first bucket).priority ≤ bucket.priority := by
        unfold stronger
        split_ifs
        · omega
        · omega
      have hone : stronger first bucket = bucket ∨ stronger first bucket = first := by
        unfold stronger
        split_ifs
        · exact .inl rfl
        · exact .inr rfl
      rw [foldl_cons]
      refine ⟨?_, hfirst.trans hboth.1, ?_⟩
      · rcases hmem with hmem | hsame
        · exact .inl (mem_cons_of_mem _ hmem)
        · rw [hsame]
          rcases hone with hbucket | hfirst'
          · rw [hbucket]
            exact .inl mem_cons_self
          · exact .inr hfirst'
      · intro b hb
        rcases mem_cons.mp hb with rfl | hb
        · exact hfirst.trans hboth.2
        · exact hrest b hb
  exact ⟨(hfold .done).1, (hfold .done).2.2⟩

/-! ## What a build makes of a workspace -/

variable {deps : DirectoryDeps} {context : BuildContext δ} {read read' : DirectorySnapshot}
variable {history : BucketHistory} {workspaceId : String}

def agentContributions (deps : DirectoryDeps) (read : DirectorySnapshot) : List (String × StateBucket) :=
  let activeAgents := activeAgentsOf deps read.agents
  activeAgents.filterMap (agentContribution (agentsById activeAgents))

/-- What terminals and subagents contribute to a workspace. -/
def entriesFor (deps : DirectoryDeps) (read : DirectorySnapshot) (workspaceId : String) : List BucketEntry :=
  contributedTo workspaceId (read.terminals.filterMap (terminalContribution deps)) ++
    contributedTo workspaceId (read.subagents.filterMap
      (subagentContribution (agentsById (activeAgentsOf deps read.agents))))

def bucketsFor (deps : DirectoryDeps) (read : DirectorySnapshot) (workspaceId : String) : List StateBucket :=
  contributedTo workspaceId (agentContributions deps read) ++
    (entriesFor deps read workspaceId).map (·.bucket)

def agentsIn (deps : DirectoryDeps) (read : DirectorySnapshot) (workspaceId : String) : List AgentPayload :=
  (activeAgentsOf deps read.agents).filter fun agent => nonEmptyText agent.workspaceId = some workspaceId

theorem contributedTo_map {β γ : Type} (f : β → γ) (contributions : List (String × β)) :
    contributedTo workspaceId (contributions.map fun contribution => (contribution.1, f contribution.2)) =
      (contributedTo workspaceId contributions).map f := by
  induction contributions with
  | nil => rfl
  | cons contribution contributions ih =>
    rw [map_cons, contributedTo_cons, contributedTo_cons, ih]
    split_ifs
    · rfl
    · rfl

theorem keys_contribute (deps : DirectoryDeps) (context : BuildContext δ) (read : DirectorySnapshot) :
    (contribute deps context read).1.keys = (initialDescriptors context read).keys := by
  simp only [contribute, applyProviderSubagentContributions, applyTerminalContributions,
    applyAgentBucketContributions, fst_foldl_applyEntry, keys_foldl_applyBucket]

theorem get_contribute (deps : DirectoryDeps) (context : BuildContext δ) (read : DirectorySnapshot)
    (workspaceId : String) :
    (contribute deps context read).1.get workspaceId =
      ((initialDescriptors context read).get workspaceId).map fun existing =>
        { existing with status := (bucketsFor deps read workspaceId).foldl stronger existing.status } := by
  simp only [contribute, applyProviderSubagentContributions, applyTerminalContributions,
    applyAgentBucketContributions, fst_foldl_applyEntry, get_foldl_applyBucket, contributedTo_map,
    Option.map_map]
  congr 1
  funext existing
  simp only [Function.comp_apply, bucketsFor, entriesFor, agentContributions, map_append,
    foldl_append]

theorem entries_contribute (h : workspaceId ∈ (initialDescriptors context read).keys) :
    ((contribute deps context read).2.get workspaceId).getD [] = entriesFor deps read workspaceId := by
  have hagents : workspaceId ∈ (applyAgentBucketContributions (activeAgentsOf deps read.agents)
      (initialDescriptors context read)).keys := by
    rw [applyAgentBucketContributions, keys_foldl_applyBucket]
    exact h
  have hterminals : workspaceId ∈ (applyTerminalContributions deps read.terminals
      (applyAgentBucketContributions (activeAgentsOf deps read.agents)
        (initialDescriptors context read))).1.keys := by
    rw [applyTerminalContributions, fst_foldl_applyEntry, keys_foldl_applyBucket]
    exact hagents
  rw [contribute, applyProviderSubagentContributions, snd_foldl_applyEntry _ _ hterminals,
    applyTerminalContributions, snd_foldl_applyEntry _ _ hagents]
  rfl

/-- Nothing has contributed yet. -/
theorem status_initialDescriptors {descriptor : Descriptor δ}
    (h : (initialDescriptors context read).get workspaceId = some descriptor) :
    descriptor.status = .done ∧
    ∃ workspace ∈ includedWorkspacesOf read context.workspaceIds, workspace.workspaceId = workspaceId := by
  have hfold (included : List WorkspaceRecord) (make : WorkspaceRecord → Descriptor δ)
      (hmake : ∀ workspace, (make workspace).status = .done) (start : Descriptors δ)
      (hget : (included.foldl (fun descriptors workspace =>
        descriptors.set workspace.workspaceId (make workspace)) start).get workspaceId = some descriptor) :
      start.get workspaceId = some descriptor ∨ descriptor.status = .done ∧
        ∃ workspace ∈ included, workspace.workspaceId = workspaceId := by
    induction included generalizing start with
    | nil => exact .inl hget
    | cons workspace included ih =>
      rcases ih _ hget with hold | ⟨hdone, other, hother, hid⟩
      · rw [get_set] at hold
        split at hold
        · rename_i hid
          rw [← some.inj hold]
          exact .inr ⟨hmake workspace, workspace, mem_cons_self, hid.symm⟩
        · exact .inl hold
      · exact .inr ⟨hdone, other, mem_cons_of_mem _ hother, hid⟩
  rcases hfold _ _ (fun _ => rfl) ∅ h with hempty | hmade
  · contradiction
  · exact hmade

theorem get_groupAgentsByWorkspaceId (agents : List AgentPayload) {activeWorkspaceIds : List String}
    (h : workspaceId ∈ activeWorkspaceIds) :
    ((groupAgentsByWorkspaceId agents activeWorkspaceIds).get workspaceId).getD [] =
      agents.filter fun agent => nonEmptyText agent.workspaceId = some workspaceId := by
  unfold groupAgentsByWorkspaceId
  have hnone : agents.filter (fun agent => nonEmptyText agent.workspaceId = some workspaceId) =
      ((∅ : OrderedMap String (List AgentPayload)).get workspaceId).getD [] ++
        agents.filter fun agent => nonEmptyText agent.workspaceId = some workspaceId := rfl
  rw [hnone]
  clear hnone
  -- what has been grouped before stands in front
  generalize (∅ : OrderedMap String (List AgentPayload)) = groups
  induction agents generalizing groups with
  | nil => exact (append_nil _).symm
  | cons agent agents ih =>
    rw [foldl_cons, ih]
    cases hagent : nonEmptyText agent.workspaceId with
    | none => simp [hagent]
    | some other =>
      by_cases hid : other = workspaceId
      · simp [hagent, hid, h]
      · have hget : ((if activeWorkspaceIds.contains other then
            groups.set other ((groups.get other).getD [] ++ [agent]) else groups).get workspaceId) =
            groups.get workspaceId := by
          split_ifs
          · exact get_set_ne fun heq => hid heq.symm
          · rfl
        simp only [hget, filter_cons, hagent, Option.some.injEq, hid, decide_false,
          Bool.false_eq_true, if_false]

end Orqara.Workspaces
