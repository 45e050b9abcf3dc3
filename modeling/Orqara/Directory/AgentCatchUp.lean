import Orqara.Directory.AgentReplica
import Orqara.Directory.CatchUpLog

/-!
# Changes against a snapshot

A refresh of the agents is answered with all of them or with what has changed. The changes are
committed over entries that are made of the agents at hand, so that both lead to the same agents as
long as these entries are those of the daemon. An agent without a placement has no entry.
-/

namespace Orqara

open KeyedUpdates OrderedMap List Option

namespace Directory

variable {υ ρ : Type} {entry entry' : FetchAgentsEntry υ ρ} {a : Agent υ ρ}
  {previous : Option (Agent υ ρ)} {id : String}

/-! ## Fields -/

@[simp] theorem mergeSnapshotTurn_updatedAt :
    (mergeSnapshotTurn previous a).updatedAt = a.updatedAt := by cases previous <;> rfl

@[simp] theorem mergeSnapshotTurn_lastUsage :
    (mergeSnapshotTurn previous a).lastUsage = a.lastUsage := by cases previous <;> rfl

@[simp] theorem mergeSnapshotTurn_id : (mergeSnapshotTurn previous a).id = a.id := by
  cases previous <;> rfl

@[simp] theorem mergeSnapshotTurn_placement :
    (mergeSnapshotTurn previous a).projectPlacement = a.projectPlacement := by cases previous <;> rfl

theorem mergeSnapshotTurn_withLastUsage (previous : Option (Agent υ ρ)) (a : Agent υ ρ)
    (lastUsage : Option υ) :
    mergeSnapshotTurn previous { a with lastUsage } =
      { mergeSnapshotTurn previous a with lastUsage } := by cases previous <;> rfl

theorem agentOfEntry_eq (entry : FetchAgentsEntry υ ρ) :
    agentOfEntry entry =
      { normalizeAgentSnapshot entry.agent with projectPlacement := some entry.project } := rfl

/-! ## One agent of a commit -/

variable [DecidableEq υ]

/-- What a delta makes of the entry of one agent. -/
def settle (id : String) (previousEntry : Option (FetchAgentsEntry υ ρ)) :
    AgentDirectoryDelta υ ρ → Option (FetchAgentsEntry υ ρ)
  | .remove agentId => if id = agentId then none else previousEntry
  | .upsert agent project =>
    if id = agent.id then some (acceptEntry previousEntry agent project) else previousEntry

/-- The agent that an entry is committed as. -/
def shown (previous : Option (Agent υ ρ)) (entry : Option (FetchAgentsEntry υ ρ)) :
    Option (Agent υ ρ) :=
  entry.map fun entry => mergeSnapshotTurn previous (agentOfEntry entry)

theorem id_acceptEntry {previousEntry : Option (FetchAgentsEntry υ ρ)}
    {agent : AgentSnapshotPayload υ ρ} (h : ∀ entry ∈ previousEntry, entry.agent.id = agent.id)
    (project : Option ProjectPlacement) :
    (acceptEntry previousEntry agent project).agent.id = agent.id := by
  cases previousEntry with
  | none => rfl
  | some entry =>
    have hid : entry.agent.id = agent.id := h entry rfl
    simp only [acceptEntry, acceptAgentDirectoryUpdate, map_some]
    split
    · rfl
    · split
      · exact hid
      · split
        · exact hid
        · exact hid

theorem keyed_reconcileAgentDirectory (snapshot : List (FetchAgentsEntry υ ρ))
    (deltas : List (AgentDirectoryDelta υ ρ)) :
    (reconcileAgentDirectory snapshot deltas).Keyed (·.agent.id) := by
  unfold reconcileAgentDirectory
  have hsnapshot : ((∅ : OrderedMap String (FetchAgentsEntry υ ρ)).setAll (·.agent.id) snapshot).Keyed
      (·.agent.id) := keyed_empty.setAll snapshot
  generalize (∅ : OrderedMap String (FetchAgentsEntry υ ρ)).setAll _ snapshot = entries at hsnapshot
  induction deltas generalizing entries with
  | nil => exact hsnapshot
  | cons delta deltas ih =>
    apply ih
    cases delta with
    | remove agentId => exact hsnapshot.delete agentId
    | upsert agent project =>
      have hid : (acceptEntry (entries.get agent.id) agent project).agent.id = agent.id :=
        id_acceptEntry (fun entry hentry => hsnapshot agent.id entry hentry) project
      have hset := hsnapshot.set (acceptEntry (entries.get agent.id) agent project)
      simp only [hid] at hset
      exact hset

theorem get_reconcileDelta (entries : OrderedMap String (FetchAgentsEntry υ ρ))
    (delta : AgentDirectoryDelta υ ρ) (id : String) :
    (reconcileDelta entries delta).get id = settle id (entries.get id) delta := by
  cases delta with
  | remove agentId => rw [reconcileDelta, settle, get_delete]
  | upsert agent project =>
    rw [reconcileDelta, settle, get_set]
    split
    · rename_i hid
      rw [hid]
    · rfl

theorem get_reconcileAgentDirectory (snapshot : List (FetchAgentsEntry υ ρ))
    (deltas : List (AgentDirectoryDelta υ ρ)) (id : String) :
    (reconcileAgentDirectory snapshot deltas).get id =
      deltas.foldl (settle id) (upserts (·.agent.id) snapshot (fun _ => none) id) := by
  unfold reconcileAgentDirectory
  have hget : ((∅ : OrderedMap String (FetchAgentsEntry υ ρ)).setAll (·.agent.id) snapshot).get id =
      upserts (·.agent.id) snapshot (fun _ => none) id := get_setAll snapshot ∅ id
  rw [← hget]
  generalize (∅ : OrderedMap String (FetchAgentsEntry υ ρ)).setAll _ snapshot = entries
  induction deltas generalizing entries with
  | nil => rfl
  | cons delta deltas ih => rw [foldl_cons, foldl_cons, ih, get_reconcileDelta]

namespace AgentDirectoryReplica

variable (r : AgentDirectoryReplica υ ρ)

theorem get_commitSnapshot (entries : List (FetchAgentsEntry υ ρ))
    (deltas : List (AgentDirectoryDelta υ ρ)) (id : String) :
    (r.commitSnapshot entries deltas).agents.get id =
      shown (r.agents.get id)
        (deltas.foldl (settle id) (upserts (·.agent.id) entries (fun _ => none) id)) := by
  have hkeyed : OrderedMap.Keyed (·.id)
      ((reconcileAgentDirectory entries deltas).mapValues agentOfEntry) :=
    (keyed_reconcileAgentDirectory entries deltas).mapValues fun _ => rfl
  have hfetched : ((∅ : OrderedMap String (Agent υ ρ)).setAll (·.id)
      ((reconcileAgentDirectory entries deltas).values.map agentOfEntry)).get id =
      ((reconcileAgentDirectory entries deltas).get id).map agentOfEntry := by
    have hvalues : (reconcileAgentDirectory entries deltas).values.map agentOfEntry =
        ((reconcileAgentDirectory entries deltas).mapValues agentOfEntry).values := by
      simp [values, mapValues]
    rw [hvalues, get_setAll_values hkeyed, get_mapValues, get_empty,
      or_none]
  have hagents : (r.commitSnapshot entries deltas).agents.get id =
      (((reconcileAgentDirectory entries deltas).get id).map agentOfEntry).map
        fun agent => mergeSnapshotTurn (r.agents.get agent.id) agent := by
    rw [← hfetched]
    exact get_mapValues _ _ id
  rw [hagents, ← get_reconcileAgentDirectory]
  cases hget : (reconcileAgentDirectory entries deltas).get id with
  | none => rfl
  | some entry =>
    have hid : entry.agent.id = id := keyed_reconcileAgentDirectory entries deltas id entry hget
    have hagent : (agentOfEntry entry).id = id := hid
    rw [map_some, map_some, hagent]
    rfl

/-- The entry of an agent that the changes do not name is made of the agent at hand. -/
theorem get_commitChanges (hkeyed : r.agents.Keyed (·.id)) (entries : List (FetchAgentsEntry υ ρ))
    (removals : List String) (deltas : List (AgentDirectoryDelta υ ρ)) (id : String) :
    (r.commitChanges entries removals deltas).agents.get id =
      shown (r.agents.get id)
        (deltas.foldl (settle id)
          (if id ∈ removals then none
          else upserts (·.agent.id) entries
            (fun id => (r.agents.get id).bind projectAgentDirectoryEntry) id)) := by
  have hprojected : ((∅ : OrderedMap String (FetchAgentsEntry υ ρ)).setAll (·.agent.id)
      (r.agents.values.filterMap projectAgentDirectoryEntry)).get =
      fun id => (r.agents.get id).bind projectAgentDirectoryEntry := by
    funext id
    apply get_setAll_filterMap hkeyed
    intro agent entry hentry
    obtain ⟨project, -, rfl⟩ := map_eq_some_iff.mp hentry
    rfl
  have hmerged : upserts (·.agent.id) (r.mergedEntries entries).values (fun _ => none) id =
      upserts (·.agent.id) entries
        (fun id => (r.agents.get id).bind projectAgentDirectoryEntry) id := by
    have hkeyed' : (r.mergedEntries entries).Keyed (·.agent.id) :=
      (keyed_empty.setAll _).setAll entries
    have hvalues := get_setAll_values (m := ∅) hkeyed' id
    rw [get_setAll, get_empty, or_none] at hvalues
    rw [← hprojected, ← get_setAll]
    exact hvalues
  have hremovals (xs : List String) (x : Option (FetchAgentsEntry υ ρ)) :
      (xs.map AgentDirectoryDelta.remove).foldl (settle id) x = if id ∈ xs then none else x := by
    induction xs generalizing x with
    | nil => rfl
    | cons head xs ih =>
      rw [map_cons, foldl_cons, ih, settle]
      by_cases hmem : id ∈ xs
      · simp [hmem]
      · by_cases hhead : id = head
        · simp [hhead]
        · simp [hmem, hhead]
  rw [commitChanges, get_commitSnapshot, foldl_append, hremovals, hmerged]

end AgentDirectoryReplica

/-! ## Entries that are shown alike -/

theorem shown_some (h : shown previous (some entry) = shown previous (some entry')) :
    mergeSnapshotTurn previous (agentOfEntry entry) =
      mergeSnapshotTurn previous (agentOfEntry entry') := Option.some.inj h

/-- An update makes entries that are shown alike of such entries. -/
theorem shown_acceptEntry (agent : AgentSnapshotPayload υ ρ) (project : Option ProjectPlacement)
    (h : shown previous (some entry) = shown previous (some entry')) :
    shown previous (some (acceptEntry (some entry) agent project)) =
      shown previous (some (acceptEntry (some entry') agent project)) := by
  have hshown := shown_some h
  have hupdated : entry.agent.updatedAt = entry'.agent.updatedAt := by
    simpa [agentOfEntry_eq, normalizeAgentSnapshot] using congrArg Agent.updatedAt hshown
  have husage : entry.agent.lastUsage = entry'.agent.lastUsage := by
    simpa [agentOfEntry_eq, normalizeAgentSnapshot] using congrArg Agent.lastUsage hshown
  have hproject : entry.project = entry'.project := by
    simpa [agentOfEntry_eq] using congrArg Agent.projectPlacement hshown
  have hnewer : isNewer (some entry.agent) agent = isNewer (some entry'.agent) agent := by
    simp only [isNewer, all_some, AgentUpdateValue.updatedAt, hupdated]
  have hwith (lastUsage : Option υ) :
      shown previous (some ⟨{ entry.agent with lastUsage }, entry.project⟩) =
        shown previous (some ⟨{ entry'.agent with lastUsage }, entry'.project⟩) := by
    have hmerged (e : FetchAgentsEntry υ ρ) :
        mergeSnapshotTurn previous (agentOfEntry ⟨{ e.agent with lastUsage }, e.project⟩) =
          { mergeSnapshotTurn previous (agentOfEntry e) with lastUsage } :=
      mergeSnapshotTurn_withLastUsage previous (agentOfEntry e) lastUsage
    rw [shown, shown, map_some, map_some, hmerged entry, hmerged entry', hshown]
  by_cases hnew : isNewer (some entry'.agent) agent = true
  · simp only [acceptEntry, acceptAgentDirectoryUpdate, map_some, hnewer, hnew, if_true,
      hproject]
  · simp only [acceptEntry, acceptAgentDirectoryUpdate, map_some, hnewer, hnew, if_false,
      getD_some, AgentUpdateValue.lastUsage, AgentUpdateValue.withLastUsage, husage,
      Bool.false_eq_true]
    split
    · exact h
    · split
      · exact h
      · exact hwith agent.lastUsage

theorem shown_settle {x y : Option (FetchAgentsEntry υ ρ)} (h : shown previous x = shown previous y)
    (delta : AgentDirectoryDelta υ ρ) :
    shown previous (settle id x delta) = shown previous (settle id y delta) := by
  cases delta with
  | remove agentId =>
    simp only [settle]
    split
    · rfl
    · exact h
  | upsert agent project =>
    simp only [settle]
    split
    · cases x with
      | none =>
        cases y with
        | none => rfl
        | some entry' => simp [shown] at h
      | some entry =>
        cases y with
        | none => simp [shown] at h
        | some entry' => exact shown_acceptEntry agent project h
    · exact h

theorem shown_foldl {x y : Option (FetchAgentsEntry υ ρ)} (h : shown previous x = shown previous y)
    (deltas : List (AgentDirectoryDelta υ ρ)) :
    shown previous (deltas.foldl (settle id) x) = shown previous (deltas.foldl (settle id) y) := by
  induction deltas generalizing x y with
  | nil => exact h
  | cons delta deltas ih => exact ih (shown_settle h delta)

/-! ## An agent and the entry it was made of -/

omit [DecidableEq υ]

/-- The agent is the entry's, with a cancellation that was asked for here, and perhaps without its
placement. -/
structure Agent.Holds (a : Agent υ ρ) (entry : FetchAgentsEntry υ ρ) : Prop where
  content : a =
    { normalizeAgentSnapshot entry.agent with
      turn := ⟨normalizeActiveTurn entry.agent, a.turn.cancellationRequestId⟩
      projectPlacement := a.projectPlacement }
  placement : a.projectPlacement = none ∨ a.projectPlacement = some entry.project

/-- The entry made of the agent has all that the agent has. -/
structure Agent.Survives (a : Agent υ ρ) : Prop where
  placement : a.projectPlacement ≠ none
  workspaceId : a.workspaceId ≠ some ""
  thinkingOptionId : a.thinkingOptionId ≠ none
  lastError : a.lastError ≠ some ""

theorem filter_eq_self_iff (text : Option String) :
    text.filter (· ≠ "") = text ↔ text ≠ some "" := by
  cases text with
  | none => simp
  | some text => by_cases h : text = "" <;> simp [h]

theorem some_getD_eq_self_iff (option : Option (Option String)) :
    some (option.getD none) = option ↔ option ≠ none := by
  cases option <;> simp

theorem Agent.Holds.id_eq (h : a.Holds entry) : a.id = entry.agent.id :=
  congrArg Agent.id h.content

/-- The turn survives as long as the agent has the status that it was told by. -/
theorem Agent.Holds.normalizeActiveTurn_project (h : a.Holds entry) :
    normalizeActiveTurn (projectAgentSnapshot a) = normalizeActiveTurn entry.agent := by
  have hturn : a.turn.activeTurn = normalizeActiveTurn entry.agent :=
    congrArg (·.turn.activeTurn) h.content
  have hstatus : a.status = entry.agent.status := congrArg Agent.status h.content
  have hmessage : a.lastUserMessageAt = entry.agent.lastUserMessageAt :=
    congrArg Agent.lastUserMessageAt h.content
  simp only [normalizeActiveTurn, projectAgentSnapshot, projectActiveTurn, hturn, hstatus, hmessage]
  cases entry.agent.activeTurn with
  | none => by_cases hrunning : entry.agent.status = "running" <;> simp [hrunning]
  | some activeTurn => cases activeTurn <;> simp

theorem Agent.Holds.shown_eq_iff (h : a.Holds entry) :
    shown (some a) (some entry) = shown (some a) (projectAgentDirectoryEntry a) ↔ a.Survives := by
  rcases h.placement with hnone | hplaced
  · have hentry : projectAgentDirectoryEntry a = none := by rw [projectAgentDirectoryEntry, hnone]; rfl
    rw [hentry]
    constructor
    · intro hshown
      simp [shown] at hshown
    · intro hsurvives
      exact absurd hnone hsurvives.placement
  · have hentry : projectAgentDirectoryEntry a =
        some ⟨projectAgentSnapshot a, entry.project⟩ := by
      rw [projectAgentDirectoryEntry, hplaced]
      rfl
    rw [hentry, shown, shown, map_some, map_some, some_inj]
    have hleft : mergeSnapshotTurn (some a) (agentOfEntry entry) =
        { a with
          turn := reduceTurnLiveness a.turn (.snapshot (normalizeActiveTurn entry.agent))
          projectPlacement := some entry.project } := by
      have hagent : agentOfEntry entry =
          { a with
            turn := ⟨normalizeActiveTurn entry.agent, none⟩
            projectPlacement := some entry.project } := by
        rw [h.content]
        rfl
      rw [hagent]
      rfl
    have hright : mergeSnapshotTurn (some a)
        (agentOfEntry ⟨projectAgentSnapshot a, entry.project⟩) =
        { a with
          workspaceId := a.workspaceId.filter (· ≠ "")
          turn := reduceTurnLiveness a.turn (.snapshot (normalizeActiveTurn entry.agent))
          thinkingOptionId := some (a.thinkingOptionId.getD none)
          lastError := a.lastError.filter (· ≠ "")
          projectPlacement := some entry.project } := by
      rw [← h.normalizeActiveTurn_project]
      rfl
    rw [hleft, hright, Agent.mk.injEq]
    constructor
    · rintro ⟨-, -, hworkspaceId, -, -, -, -, hthinkingOptionId, -, hlastError, -⟩
      exact ⟨by simp [hplaced], (filter_eq_self_iff _).1 hworkspaceId.symm,
        (some_getD_eq_self_iff _).1 hthinkingOptionId.symm, (filter_eq_self_iff _).1 hlastError.symm⟩
    · intro hsurvives
      exact ⟨rfl, rfl, ((filter_eq_self_iff _).2 hsurvives.workspaceId).symm, rfl, rfl, rfl, rfl,
        ((some_getD_eq_self_iff _).2 hsurvives.thinkingOptionId).symm, rfl,
        ((filter_eq_self_iff _).2 hsurvives.lastError).symm, rfl, rfl, rfl⟩

/-! ## Two answers of the daemon -/

/-- The agents are those of a directory of the daemon. -/
def AgentDirectoryReplica.Mirrors (r : AgentDirectoryReplica υ ρ)
    (directory : String → Option (FetchAgentsEntry υ ρ)) : Prop :=
  ∀ id, Option.Rel Agent.Holds (r.agents.get id) (directory id)

/-- The same agents, with the same content. -/
def AgentDirectoryReplica.SameAgents (r r' : AgentDirectoryReplica υ ρ) : Prop :=
  ∀ id, r.agents.get id = r'.agents.get id

/-- The directory that a daemon has after some changes. -/
def agentDirectory (fingerprint : FetchAgentsEntry υ ρ → String) (maxTombstones : ℕ)
    (changes : List (CollectionOp (FetchAgentsEntry υ ρ))) :
    VersionedCollection (FetchAgentsEntry υ ρ) :=
  (VersionedCollection.start maxTombstones).run (·.agent.id) fingerprint changes

namespace CollectionRead

def entries (read : CollectionRead (FetchAgentsEntry υ ρ)) : List (FetchAgentsEntry υ ρ) :=
  read.values.map (·.value)

def removedIds (read : CollectionRead (FetchAgentsEntry υ ρ)) : List String :=
  read.removals.map (·.id)

/-- An agent that an answer says nothing about. -/
def Unchanged (read : CollectionRead (FetchAgentsEntry υ ρ)) (id : String) : Prop :=
  (∀ entry ∈ read.entries, entry.agent.id ≠ id) ∧ id ∉ read.removedIds

end CollectionRead

theorem AgentDirectoryReplica.Mirrors.keyed {r : AgentDirectoryReplica υ ρ}
    {c : VersionedCollection (FetchAgentsEntry υ ρ)} (h : r.Mirrors c.state)
    (hc : c.Sound (·.agent.id)) : r.agents.Keyed (·.id) := by
  intro id a hget
  have hrel := h id
  rw [hget] at hrel
  cases hstate : c.state id with
  | none =>
    rw [hstate] at hrel
    cases hrel
  | some entry =>
    rw [hstate] at hrel
    cases hrel with
    | some hholds =>
      obtain ⟨stored, hstored, rfl⟩ := map_eq_some_iff.mp hstate
      exact hholds.id_eq.trans (hc.ids id stored hstored)

theorem sound_agentDirectory (fingerprint : FetchAgentsEntry υ ρ → String) (maxTombstones : ℕ)
    (changes : List (CollectionOp (FetchAgentsEntry υ ρ))) :
    (agentDirectory fingerprint maxTombstones changes).Sound (·.agent.id) :=
  (VersionedCollection.run_spec fingerprint 0 (fun _ => none) changes _
    (VersionedCollection.sound_start _ maxTombstones)).1

section Answers

variable {r : AgentDirectoryReplica υ ρ} {old new : String → Option (FetchAgentsEntry υ ρ)}
  {read : CollectionRead (FetchAgentsEntry υ ρ)}

/-- The entry of an agent under the changes, before the updates that came in meanwhile. -/
def AgentDirectoryReplica.changedEntry (r : AgentDirectoryReplica υ ρ)
    (read : CollectionRead (FetchAgentsEntry υ ρ)) (id : String) : Option (FetchAgentsEntry υ ρ) :=
  if id ∈ read.removedIds then none
  else upserts (·.agent.id) read.entries
    (fun id => (r.agents.get id).bind projectAgentDirectoryEntry) id

/-- The changes and the directory that they lead to differ where an agent that they leave out has lost
something. -/
theorem shown_changedEntry_iff (hmirrors : r.Mirrors old)
    (hread : VersionedCollection.applyRead (·.agent.id) read old = new) (id : String) :
    shown (r.agents.get id) (new id) = shown (r.agents.get id) (r.changedEntry read id) ↔
      ∀ a, r.agents.get id = some a → read.Unchanged id → a.Survives := by
  have hnew : new id = if id ∈ read.removedIds then none
      else upserts (·.agent.id) read.entries old id := by
    rw [← hread]
    exact removals_apply read.removedIds _ id
  by_cases hremoved : id ∈ read.removedIds
  · rw [hnew, AgentDirectoryReplica.changedEntry, if_pos hremoved, if_pos hremoved]
    refine iff_of_true rfl ?_
    intro a _ hunchanged
    exact absurd hremoved hunchanged.2
  · rw [hnew, AgentDirectoryReplica.changedEntry, if_neg hremoved, if_neg hremoved]
    by_cases hnamed : ∃ entry ∈ read.entries, entry.agent.id = id
    · refine iff_of_true (by rw [upserts_congr hnamed]) ?_
      intro a _ hunchanged
      obtain ⟨entry, hentry, hid⟩ := hnamed
      exact absurd hid (hunchanged.1 entry hentry)
    · have hothers : ∀ entry ∈ read.entries, entry.agent.id ≠ id :=
        fun entry hentry hid => hnamed ⟨entry, hentry, hid⟩
      rw [upserts_of_forall_ne hothers, upserts_of_forall_ne hothers]
      have hrel := hmirrors id
      cases hget : r.agents.get id with
      | none =>
        rw [hget] at hrel
        cases hold : old id with
        | none => simp
        | some entry =>
          rw [hold] at hrel
          cases hrel
      | some a =>
        rw [hget] at hrel
        cases hold : old id with
        | none =>
          rw [hold] at hrel
          cases hrel
        | some entry =>
          rw [hold] at hrel
          cases hrel with
          | some hholds =>
            rw [bind_some, hholds.shown_eq_iff]
            constructor
            · intro hsurvives b hb _
              rw [← some.inj hb]
              exact hsurvives
            · intro hall
              exact hall a rfl ⟨hothers, hremoved⟩

end Answers

def idleAgent : AgentSnapshotPayload ℕ Unit where
  id := "a"
  cwd := "/p"
  workspaceId := some "w"
  updatedAt := 5
  lastUserMessageAt := none
  status := "idle"
  activeTurn := some none
  thinkingOptionId := some none
  lastUsage := none
  lastError := none
  archivedAt := none
  rest := ()

def idleEntry : FetchAgentsEntry ℕ Unit :=
  ⟨idleAgent, ⟨"p", "p", none, plainCheckout "/p"⟩⟩

def fetchedReplica : AgentDirectoryReplica ℕ Unit :=
  AgentDirectoryReplica.start.commitSnapshot [idleEntry] []

/-- Behind the snapshot the agent has come as the response that created it has it. -/
def createdReplica : AgentDirectoryReplica ℕ Unit :=
  fetchedReplica.accept (normalizeAgentSnapshot idleAgent)

def idleDirectory : VersionedCollection (FetchAgentsEntry ℕ Unit) :=
  agentDirectory (fun _ => "") 10 [.replace idleEntry]

theorem mirrors_idleDirectory {r : AgentDirectoryReplica ℕ Unit} {a : Agent ℕ Unit}
    (hkeys : r.agents.keys = ["a"]) (hget : r.agents.get "a" = some a) (hholds : a.Holds idleEntry) :
    r.Mirrors idleDirectory.state := by
  intro id
  by_cases hid : id = "a"
  · have hstate : idleDirectory.state "a" = some idleEntry := by decide +kernel
    rw [hid, hget, hstate]
    exact .some hholds
  · have hagent : r.agents.get id = none := by
      rw [get_eq_none_iff, hkeys]
      simpa using hid
    have hkeys' : idleDirectory.valuesById.keys = ["a"] := by decide +kernel
    have hentry : idleDirectory.state id = none := by
      rw [VersionedCollection.state, map_eq_none_iff, get_eq_none_iff, hkeys']
      simpa using hid
    rw [hagent, hentry]
    exact .none

end Directory

end Orqara
