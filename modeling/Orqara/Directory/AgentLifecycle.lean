import Orqara.Directory.AgentCatchUp

/-!
# The life of one agent in the replica

What the writes to the agent replica do to a single agent: whether it is there behind them, and whether
its lifecycle version has gone up.
-/

namespace Orqara.Directory

open KeyedUpdates List Option

variable {υ ρ : Type} {id : String} {delta : AgentDirectoryDelta υ ρ}
  {deltas : List (AgentDirectoryDelta υ ρ)}

/-! ## What updates say about an agent -/

/-- Whether the agent is there behind the update, if it is about the agent. -/
def word (id : String) : AgentDirectoryDelta υ ρ → Option Bool
  | .upsert agent _ => if agent.id = id then some true else none
  | .remove agentId => if agentId = id then some false else none

theorem word_eq_some_false : word id delta = some false ↔ delta = .remove id := by
  cases delta <;> simp [word]

def lastWord (id : String) (deltas : List (AgentDirectoryDelta υ ρ)) : Option Bool :=
  deltas.foldl (fun last delta => (word id delta).or last) none

@[simp] theorem lastWord_nil : lastWord id ([] : List (AgentDirectoryDelta υ ρ)) = none := rfl

theorem lastWord_concat (deltas : List (AgentDirectoryDelta υ ρ)) (delta : AgentDirectoryDelta υ ρ) :
    lastWord id (deltas ++ [delta]) = (word id delta).or (lastWord id deltas) := by
  rw [lastWord, foldl_append]
  rfl

theorem lastWord_removals (removals : List String) (deltas : List (AgentDirectoryDelta υ ρ)) :
    lastWord id (removals.map .remove ++ deltas) =
      (lastWord id deltas).or (if id ∈ removals then some false else none) := by
  induction deltas using List.reverseRecOn with
  | nil =>
    rw [append_nil, lastWord_nil, none_or]
    induction removals using List.reverseRecOn with
    | nil => rfl
    | append_singleton removals agentId ih =>
      rw [map_append, map_singleton, lastWord_concat, ih, word]
      by_cases hid : agentId = id
      · simp [hid]
      · have hne : id ≠ agentId := fun heq => hid heq.symm
        simp [hid, hne]
  | append_singleton deltas delta ih =>
    rw [← append_assoc, lastWord_concat, ih, lastWord_concat, Option.or_assoc]

/-- A fact about what updates leave behind, from what each of them does. -/
theorem foldl_lastWord {α : Type*} (has : α → Bool) {apply : α → AgentDirectoryDelta υ ρ → α}
    (happly : ∀ x delta, has (apply x delta) = (word id delta).getD (has x)) (x : α)
    (deltas : List (AgentDirectoryDelta υ ρ)) :
    has (deltas.foldl apply x) = (lastWord id deltas).getD (has x) := by
  induction deltas using List.reverseRecOn with
  | nil => rfl
  | append_singleton deltas delta ih =>
    rw [foldl_append, foldl_cons, foldl_nil, happly, ih, lastWord_concat]
    cases word id delta <;> rfl

variable [DecidableEq υ]

theorem isSome_settle (entry : Option (FetchAgentsEntry υ ρ)) (delta : AgentDirectoryDelta υ ρ) :
    (settle id entry delta).isSome = (word id delta).getD entry.isSome := by
  cases delta with
  | remove agentId =>
    by_cases hid : agentId = id
    · simp [settle, word, hid]
    · have hne : id ≠ agentId := fun heq => hid heq.symm
      simp [settle, word, hid, hne]
  | upsert agent project =>
    by_cases hid : agent.id = id
    · simp [settle, word, hid]
    · have hne : id ≠ agent.id := fun heq => hid heq.symm
      simp [settle, word, hid, hne]

/-! ## Lifecycle versions -/

theorem advanceEach_of_mem {ids : Finset String} {versions : String → ℕ} (h : id ∈ ids) :
    advanceEach ids versions id = versions id + 1 := if_pos h

theorem le_advanceEach (ids : Finset String) (versions : String → ℕ) (id : String) :
    versions id ≤ advanceEach ids versions id := by
  unfold advanceEach
  split <;> omega

namespace AgentDirectoryReplica

variable {r : AgentDirectoryReplica υ ρ} {agent : Agent υ ρ} {entries : List (FetchAgentsEntry υ ρ)}

theorem le_versionsAfter (r : AgentDirectoryReplica υ ρ) (nextIds : Finset String) (id : String) :
    r.lifecycleVersions id ≤ r.versionsAfter nextIds id := by
  have hpending := le_advanceEach (r.pendingCacheReads \ nextIds) r.lifecycleVersions id
  have hgone := le_advanceEach (r.members \ nextIds)
    (advanceEach (r.pendingCacheReads \ nextIds) r.lifecycleVersions) id
  exact hpending.trans (hgone.trans (le_advanceEach _ _ id))

/-- A member that goes, and an agent that is looked for in the cache. -/
theorem lt_versionsAfter {nextIds : Finset String} (h : id ∈ r.members ∨ id ∈ r.pendingCacheReads)
    (hnext : id ∉ nextIds) : r.lifecycleVersions id < r.versionsAfter nextIds id := by
  have hgone := le_advanceEach (r.members \ nextIds)
    (advanceEach (r.pendingCacheReads \ nextIds) r.lifecycleVersions) id
  have hcome := le_advanceEach (nextIds \ r.members) (advanceEach (r.members \ nextIds)
    (advanceEach (r.pendingCacheReads \ nextIds) r.lifecycleVersions)) id
  rcases h with hmember | hread
  · have hpending := le_advanceEach (r.pendingCacheReads \ nextIds) r.lifecycleVersions id
    have hmem : id ∈ r.members \ nextIds := by simp [hmember, hnext]
    have hadvanced : advanceEach (r.members \ nextIds)
        (advanceEach (r.pendingCacheReads \ nextIds) r.lifecycleVersions) id =
        advanceEach (r.pendingCacheReads \ nextIds) r.lifecycleVersions id + 1 :=
      advanceEach_of_mem hmem
    unfold versionsAfter
    omega
  · have hmem : id ∈ r.pendingCacheReads \ nextIds := by simp [hread, hnext]
    have hadvanced : advanceEach (r.pendingCacheReads \ nextIds) r.lifecycleVersions id =
        r.lifecycleVersions id + 1 := advanceEach_of_mem hmem
    unfold versionsAfter
    omega

/-! ## What every write keeps -/

/-- Agents stay under their ids, and versions only go up. -/
structure Grows (r r' : AgentDirectoryReplica υ ρ) : Prop where
  keyed : r.agents.Keyed (·.id) → r'.agents.Keyed (·.id)
  versions : ∀ id, r.lifecycleVersions id ≤ r'.lifecycleVersions id

theorem Grows.refl (r : AgentDirectoryReplica υ ρ) : Grows r r := ⟨fun h => h, fun _ => le_rfl⟩

theorem Grows.trans {r₁ r₂ r₃ : AgentDirectoryReplica υ ρ} (h : Grows r₁ r₂) (h' : Grows r₂ r₃) :
    Grows r₁ r₃ :=
  ⟨fun hkeyed => h'.keyed (h.keyed hkeyed), fun id => (h.versions id).trans (h'.versions id)⟩

theorem grows_advance (r : AgentDirectoryReplica υ ρ) (agentId : String) :
    Grows r (r.advance agentId) := ⟨fun h => h, le_advanceEach _ _⟩

theorem id_accepted (hkeyed : r.agents.Keyed (·.id)) (agent : Agent υ ρ) :
    (r.accepted agent).id = agent.id := by
  unfold accepted
  dsimp only
  cases hget : r.agents.get agent.id with
  | none => rfl
  | some previous =>
    have hid : previous.id = agent.id := hkeyed agent.id previous hget
    rw [acceptAgentDirectoryUpdate]
    split
    · exact mergeSnapshotTurn_id
    · split
      · exact hid
      · split <;> exact hid

theorem grows_accept (r : AgentDirectoryReplica υ ρ) (agent : Agent υ ρ) : Grows r (r.accept agent) where
  keyed hkeyed := by
    have hset := hkeyed.set (r.accepted agent)
    rw [id_accepted hkeyed] at hset
    exact hset
  versions _ := le_rfl

theorem grows_remove (r : AgentDirectoryReplica υ ρ) (agentId : String) : Grows r (r.remove agentId) :=
  ⟨fun hkeyed => hkeyed.delete agentId, le_advanceEach _ _⟩

theorem grows_applyDelta (r : AgentDirectoryReplica υ ρ) (delta : AgentDirectoryDelta υ ρ) :
    Grows r (r.applyDelta delta) := by
  cases delta with
  | remove agentId => exact grows_remove r agentId
  | upsert agent project =>
    unfold applyDelta
    dsimp only
    split
    · exact grows_accept r _
    · exact (grows_accept r _).trans (grows_advance _ _)

theorem grows_foldl (r : AgentDirectoryReplica υ ρ) (deltas : List (AgentDirectoryDelta υ ρ)) :
    Grows r (deltas.foldl (·.applyDelta ·) r) := by
  induction deltas generalizing r with
  | nil => exact .refl r
  | cons delta deltas ih => exact (grows_applyDelta r delta).trans (ih _)

theorem grows_commitSnapshot (r : AgentDirectoryReplica υ ρ) (entries : List (FetchAgentsEntry υ ρ))
    (deltas : List (AgentDirectoryDelta υ ρ)) : Grows r (r.commitSnapshot entries deltas) where
  keyed _ := by
    have hempty : OrderedMap.Keyed (·.id) (∅ : OrderedMap String (Agent υ ρ)) :=
      OrderedMap.keyed_empty
    have hfetched := hempty.setAll ((reconcileAgentDirectory entries deltas).values.map agentOfEntry)
    exact hfetched.mapValues fun _ => mergeSnapshotTurn_id
  versions := le_versionsAfter r _

theorem grows_set (agent' : Agent υ ρ) (versions : String → ℕ) (hget : r.agents.get id = some agent)
    (hid : agent'.id = agent.id) (hversions : ∀ id, r.lifecycleVersions id ≤ versions id) :
    Grows r { r with agents := r.agents.set id agent', lifecycleVersions := versions } where
  keyed hkeyed := by
    have hset := hkeyed.set agent'
    have hkey : agent'.id = id := hid.trans (hkeyed id agent hget)
    rw [hkey] at hset
    exact hset
  versions := hversions

theorem grows_archive (r : AgentDirectoryReplica υ ρ) (agentId : String) (archivedAt : ℕ) :
    Grows r (r.archive agentId archivedAt) := by
  unfold archive
  split
  · exact grows_advance r agentId
  · rename_i agent hget
    refine grows_set _ _ hget ?_ (le_advanceEach _ _)
    rfl

theorem grows_applyTurnLiveness (r : AgentDirectoryReplica υ ρ) (agentId : String)
    (transitions : List TurnLivenessTransition) : Grows r (r.applyTurnLiveness agentId transitions) := by
  unfold applyTurnLiveness
  split
  · exact .refl r
  · rename_i agent hget
    refine grows_set _ r.lifecycleVersions hget ?_ fun _ => le_rfl
    rfl

theorem grows_submitTimelineAgent (r : AgentDirectoryReplica υ ρ) (token : AgentLifecycleToken)
    (payload : AgentSnapshotPayload υ ρ) : Grows r (r.submitTimelineAgent token payload) := by
  unfold submitTimelineAgent
  split
  · exact .refl r
  · exact grows_accept r _

theorem grows_commitCachedAgent (r : AgentDirectoryReplica υ ρ) (token : AgentLifecycleToken)
    (agent : Agent υ ρ) : Grows r (r.commitCachedAgent token agent) := by
  have hsettled : Grows r { r with pendingCacheReads := r.pendingCacheReads.erase token.agentId } :=
    ⟨fun h => h, fun _ => le_rfl⟩
  unfold commitCachedAgent
  dsimp only
  split
  · exact hsettled
  · split
    · exact hsettled
    · exact hsettled.trans (grows_accept _ agent)

/-! ## What becomes of an agent in the replica -/

theorem get_accept (r : AgentDirectoryReplica υ ρ) (agent : Agent υ ρ) (id : String) :
    (r.accept agent).agents.get id =
      if id = agent.id then some (r.accepted agent) else r.agents.get id :=
  OrderedMap.get_set _ _ _ _

theorem isSome_applyDelta (r : AgentDirectoryReplica υ ρ) (delta : AgentDirectoryDelta υ ρ) :
    ((r.applyDelta delta).agents.get id).isSome = (word id delta).getD (r.agents.get id).isSome := by
  cases delta with
  | remove agentId =>
    have hget : (r.applyDelta (.remove agentId)).agents.get id =
        if id = agentId then none else r.agents.get id := OrderedMap.get_delete _ _ _
    rw [hget, word]
    by_cases hid : agentId = id
    · simp [hid]
    · have hne : id ≠ agentId := fun heq => hid heq.symm
      simp [hid, hne]
  | upsert agent project =>
    have hget : ∃ accepted, (r.applyDelta (.upsert agent project)).agents.get id =
        if id = agent.id then some accepted else r.agents.get id := by
      unfold applyDelta
      dsimp only
      split
      · exact ⟨_, get_accept r _ id⟩
      · exact ⟨_, get_accept r _ id⟩
    obtain ⟨accepted, hget⟩ := hget
    rw [hget, word]
    by_cases hid : agent.id = id
    · simp [hid]
    · have hne : id ≠ agent.id := fun heq => hid heq.symm
      simp [hid, hne]

theorem lt_version_remove (r : AgentDirectoryReplica υ ρ) (id : String) :
    r.lifecycleVersions id < (r.remove id).lifecycleVersions id := by
  have hadvanced : (r.remove id).lifecycleVersions id = r.lifecycleVersions id + 1 :=
    advanceEach_of_mem (Finset.mem_singleton_self id)
  omega

theorem lt_version_foldl (r : AgentDirectoryReplica υ ρ) (h : lastWord id deltas = some false) :
    r.lifecycleVersions id < (deltas.foldl (·.applyDelta ·) r).lifecycleVersions id := by
  induction deltas using List.reverseRecOn with
  | nil => contradiction
  | append_singleton deltas delta ih =>
    rw [foldl_append, foldl_cons, foldl_nil]
    rw [lastWord_concat] at h
    cases hword : word id delta with
    | none =>
      rw [hword, none_or] at h
      exact (ih h).trans_le ((grows_applyDelta _ delta).versions id)
    | some there =>
      rw [hword, some_or] at h
      have hremove : delta = .remove id := word_eq_some_false.1 (hword.trans h)
      rw [hremove]
      exact ((grows_foldl r deltas).versions id).trans_lt (lt_version_remove _ id)

/-- An agent behind a snapshot: by the updates, else by the snapshot. -/
theorem isSome_commitSnapshot (r : AgentDirectoryReplica υ ρ) (entries : List (FetchAgentsEntry υ ρ))
    (deltas : List (AgentDirectoryDelta υ ρ)) :
    ((r.commitSnapshot entries deltas).agents.get id).isSome =
      (lastWord id deltas).getD (decide (∃ entry ∈ entries, entry.agent.id = id)) := by
  have hentries : (upserts (·.agent.id) entries (fun _ => none) id).isSome =
      decide (∃ entry ∈ entries, entry.agent.id = id) := by
    rw [Bool.eq_iff_iff, upserts_isSome_iff, decide_eq_true_eq]
  rw [get_commitSnapshot, shown, isSome_map, foldl_lastWord Option.isSome isSome_settle, hentries]

theorem mem_mergedEntries (hkeyed : r.agents.Keyed (·.id))
    (h : ∃ entry ∈ (r.mergedEntries entries).values, entry.agent.id = id) :
    (∃ entry ∈ entries, entry.agent.id = id) ∨ (r.agents.get id).isSome := by
  have hmerged : (r.mergedEntries entries).Keyed (·.agent.id) :=
    (OrderedMap.keyed_empty.setAll _).setAll entries
  obtain ⟨entry, hentry, rfl⟩ := h
  rw [OrderedMap.mem_values_iff hmerged, mergedEntries, OrderedMap.get_setAll] at hentry
  by_cases hnamed : ∃ other ∈ entries, other.agent.id = entry.agent.id
  · exact .inl hnamed
  · right
    have hothers : ∀ other ∈ entries, other.agent.id ≠ entry.agent.id :=
      fun other hother hid => hnamed ⟨other, hother, hid⟩
    rw [upserts_of_forall_ne hothers, OrderedMap.get_setAll_filterMap hkeyed] at hentry
    · obtain ⟨agent, hagent, -⟩ := bind_eq_some_iff.mp hentry
      rw [hagent]
      rfl
    · intro agent projected hprojected
      obtain ⟨project, -, rfl⟩ := map_eq_some_iff.mp hprojected
      rfl

/-- An agent that is there behind changes was there before, or the changes say so. -/
theorem isSome_commitChanges (hkeyed : r.agents.Keyed (·.id)) {removals : List String}
    (h : ((r.commitChanges entries removals deltas).agents.get id).isSome = true) :
    lastWord id deltas = some true ∨ lastWord id deltas = none ∧
      ((∃ entry ∈ entries, entry.agent.id = id) ∨ (r.agents.get id).isSome) := by
  rw [commitChanges, isSome_commitSnapshot, lastWord_removals] at h
  cases hlast : lastWord id deltas with
  | some there =>
    rw [hlast, some_or, getD_some] at h
    exact .inl (by rw [h])
  | none =>
    rw [hlast, none_or] at h
    refine .inr ⟨rfl, ?_⟩
    split at h
    · contradiction
    · exact mem_mergedEntries hkeyed (of_decide_eq_true h)

theorem get_submitTimelineAgent (r : AgentDirectoryReplica υ ρ) (token : AgentLifecycleToken)
    (payload : AgentSnapshotPayload υ ρ)
    (h : payload.id = id → token.version ≠ r.lifecycleVersions token.agentId) :
    (r.submitTimelineAgent token payload).agents.get id = r.agents.get id := by
  unfold submitTimelineAgent
  split
  · rfl
  · rename_i hcurrent
    rw [get_accept, if_neg]
    intro hid
    exact hcurrent (h hid.symm)

theorem get_commitCachedAgent (r : AgentDirectoryReplica υ ρ) (token : AgentLifecycleToken)
    (h : agent.id = id → token.version ≠ r.lifecycleVersions token.agentId) :
    (r.commitCachedAgent token agent).agents.get id = r.agents.get id := by
  unfold commitCachedAgent
  dsimp only
  split
  · rfl
  · rename_i hcurrent
    split
    · rfl
    · rw [get_accept, if_neg]
      intro hid
      exact hcurrent (h hid.symm)

theorem get_set_eq_none {r : AgentDirectoryReplica υ ρ} {agentId : String}
    (hget : r.agents.get agentId = some agent) (agent' : Agent υ ρ) (hnone : r.agents.get id = none) :
    (r.agents.set agentId agent').get id = none := by
  have hne : id ≠ agentId := by
    rintro rfl
    rw [hnone] at hget
    contradiction
  rw [OrderedMap.get_set_ne hne, hnone]

theorem get_archive_eq_none (archivedAt : ℕ) (agentId : String) (hnone : r.agents.get id = none) :
    (r.archive agentId archivedAt).agents.get id = none := by
  unfold archive
  split
  · exact hnone
  · rename_i agent hget
    exact get_set_eq_none hget _ hnone

theorem get_applyTurnLiveness_eq_none (agentId : String) (transitions : List TurnLivenessTransition)
    (hnone : r.agents.get id = none) :
    (r.applyTurnLiveness agentId transitions).agents.get id = none := by
  unfold applyTurnLiveness
  split
  · exact hnone
  · rename_i agent hget
    exact get_set_eq_none hget _ hnone

theorem get_remove_eq_none (agentId : String) (hnone : r.agents.get id = none) :
    (r.remove agentId).agents.get id = none := by
  have hget : (r.remove agentId).agents.get id =
      if id = agentId then none else r.agents.get id := OrderedMap.get_delete _ _ _
  rw [hget, hnone, ite_self]

/-- The version of an agent that is taken off what a refresh has fetched. -/
theorem lt_version_commitSnapshot (entries : List (FetchAgentsEntry υ ρ))
    (h : id ∈ r.members ∨ id ∈ r.pendingCacheReads) (hlast : lastWord id deltas = some false) :
    r.lifecycleVersions id < (r.commitSnapshot entries deltas).lifecycleVersions id := by
  apply lt_versionsAfter h
  have hsettled : ((reconcileAgentDirectory entries deltas).get id).isSome = false := by
    rw [get_reconcileAgentDirectory, foldl_lastWord Option.isSome isSome_settle, hlast, getD_some]
  rw [List.mem_toFinset, OrderedMap.mem_keys_iff, hsettled]
  exact Bool.false_ne_true

end AgentDirectoryReplica

end Orqara.Directory
