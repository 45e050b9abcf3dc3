import Orqara.Directory.AgentLifecycle
import Orqara.Directory.AgentSync

/-!
# Agents that are deleted

A deleted agent comes back by what was under way when it was deleted. The lifecycle versions keep
responses about the agent itself away, and an update that removes it is buffered behind what a refresh
has fetched. A message that it was deleted is not, so that the refresh brings it back.
-/

namespace Orqara.Directory

open DirectoryTransactionOwner List Option

variable {υ ρ : Type} [DecidableEq υ] {id : String}

namespace AgentSync

open AgentDirectoryReplica

variable {s s' : AgentSync υ ρ} {event : AgentEvent υ ρ} {replica : AgentDirectoryReplica υ ρ}
  {owner : DirectoryTransactionOwner (AgentSnapshot υ ρ) (AgentDirectoryDelta υ ρ)}
  {events : List (AgentEvent υ ρ)}

/-! ## Reachable states -/

/-- The transaction is one of the connection, and no request has seen a later version. -/
structure Sound (s : AgentSync υ ρ) : Prop where
  on : s.transactions.On s.connection
  keyed : s.replica.agents.Keyed (·.id)
  versions : ∀ fetch ∈ s.fetches,
    fetch.token.version ≤ s.replica.lifecycleVersions fetch.token.agentId
  numbers : ∀ fetch ∈ s.fetches, fetch.number < s.fetched

theorem sound_start : Sound (start : AgentSync υ ρ) where
  on _ h := nomatch h
  keyed := OrderedMap.keyed_empty
  versions _ h := nomatch h
  numbers _ h := nomatch h

/-- Requests that were under way before, or later ones. -/
structure Later (s s' : AgentSync υ ρ) : Prop where
  grows : Grows s.replica s'.replica
  fetches : ∀ fetch ∈ s'.fetches, fetch ∈ s.fetches ∨ s.fetched ≤ fetch.number ∧
    fetch.number < s'.fetched ∧
    fetch.token.version = s.replica.lifecycleVersions fetch.token.agentId
  fetched : s.fetched ≤ s'.fetched
  begun : s.transactions.begun ≤ s'.transactions.begun

theorem Sound.later (h : Sound s) (hlater : Later s s') (hon : s'.transactions.On s'.connection) :
    Sound s' where
  on := hon
  keyed := hlater.grows.keyed h.keyed
  versions fetch hfetch := by
    have hgrown := hlater.grows.versions fetch.token.agentId
    rcases hlater.fetches fetch hfetch with hold | ⟨-, -, hnew⟩
    · exact (h.versions fetch hold).trans hgrown
    · omega
  numbers fetch hfetch := by
    rcases hlater.fetches fetch hfetch with hold | ⟨-, hnew, -⟩
    · exact (h.numbers fetch hold).trans_le hlater.fetched
    · exact hnew

theorem on_none (h : owner.current = none) (connection : Option DirectorySourceToken) :
    owner.On connection := by
  intro current hcurrent
  rw [h] at hcurrent
  contradiction

theorem on_write {connection : Option DirectorySourceToken} (h : owner.On connection)
    (f : AgentSnapshot υ ρ → AgentSnapshot υ ρ) : (owner.write f).On connection := by
  intro current hcurrent
  obtain ⟨before, hbefore, rfl⟩ := map_eq_some_iff.mp hcurrent
  exact h before hbefore

/-- A refresh that fails applies what was buffered, if its transaction is the current one. -/
theorem failed_cases (s : AgentSync υ ρ) (i transaction : ℕ) :
    s.transactions.isCurrent transaction = true ∧ s.failed i transaction =
        { s with
          transactions := { s.transactions with current := none }
          replica := s.transactions.buffered.foldl (·.applyDelta ·) s.replica
          refreshes := s.refreshes.eraseIdx i } ∨
      s.failed i transaction = s.leave i := by
  cases hcurrent : s.transactions.current with
  | none =>
    right
    simp [failed, fail, complete, hcurrent]
  | some current =>
    by_cases hid : current.id = transaction
    · left
      constructor
      · simp [isCurrent, hcurrent, hid]
      · simp [failed, fail, complete, hcurrent, hid,
          buffered, applyDeltas, leave]
    · right
      simp [failed, fail, complete, hcurrent, hid]

/-- A refresh that completes commits what it has, if its transaction is the current one. -/
theorem complete_cases (s : AgentSync υ ρ) (i transaction : ℕ) (source : DirectorySourceToken) :
    (∃ current, s.transactions.current = some current ∧ current.id = transaction ∧
      s.connection = some source ∧ s.agentsComplete i transaction source =
        { s with
          transactions := { s.transactions with current := none }
          replica := (s.commitAgentSnapshot current.snapshot current.deltas).replica
          refreshes := s.refreshes.eraseIdx i }) ∨
      (s.transactions.isCurrent transaction = true → s.connection ≠ some source) ∧
        s.agentsComplete i transaction source = s.failed i transaction := by
  by_cases hconnection : s.connection = some source
  · cases hcurrent : s.transactions.current with
    | none =>
      right
      simp [agentsComplete, complete, isCurrent,
        hcurrent, hconnection]
    | some current =>
      by_cases hid : current.id = transaction
      · left
        refine ⟨current, rfl, hid, hconnection, ?_⟩
        simp [agentsComplete, complete, hcurrent, hconnection, hid, leave,
          commitAgentSnapshot]
      · right
        simp [agentsComplete, complete, isCurrent,
          hcurrent, hconnection, hid]
  · right
    simp [agentsComplete, hconnection]

theorem flush_eq (s : AgentSync υ ρ) :
    s.flushAbortedTransactions =
      { s with
        transactions := { s.transactions with current := none }
        replica := s.transactions.buffered.foldl (·.applyDelta ·) s.replica } := by
  cases hcurrent : s.transactions.current with
  | none =>
    have howner : { s.transactions with current := none } = s.transactions := by rw [← hcurrent]
    simp [flushAbortedTransactions, abort, applyDeltas,
      buffered, hcurrent, howner]
  | some current =>
    simp [flushAbortedTransactions, abort, applyDeltas,
      buffered, hcurrent]

theorem grows_commitAgentSnapshot (s : AgentSync υ ρ) (snapshot : AgentSnapshot υ ρ)
    (deltas : List (AgentDirectoryDelta υ ρ)) :
    Grows s.replica (s.commitAgentSnapshot snapshot deltas).replica := by
  unfold commitAgentSnapshot
  dsimp only
  split <;> exact grows_commitSnapshot s.replica _ _

theorem later_beginFetch (s : AgentSync υ ρ) (read : AgentRead) (agentId : String) :
    Later s (s.beginFetch read agentId) where
  grows := .refl s.replica
  fetches fetch hfetch := by
    rcases mem_append.mp hfetch with hold | hnew
    · exact .inl hold
    · rw [mem_singleton.mp hnew]
      exact .inr ⟨le_rfl, Nat.lt_succ_self _, rfl⟩
  fetched := Nat.le_succ _
  begun := le_rfl

/-! ## A deleted agent -/

/-- The update that removes the agent is the last one about it that is still buffered. -/
def Pending (id : String) (s : AgentSync υ ρ) : Prop :=
  lastWord id s.transactions.buffered = some false

/-- How many refreshes and fetches had been begun. -/
structure Moment where
  transactions : ℕ
  fetches : ℕ

def moment (s : AgentSync υ ρ) : Moment := ⟨s.transactions.begun, s.fetched⟩

/-- The agent was deleted at a moment, or the update that removes it is `buffered`; no request from
before finds the version that it had then. -/
structure Gone (id : String) (m : Moment) (buffered : Prop) (s : AgentSync υ ρ) : Prop where
  absent : s.replica.agents.get id = none ∨ buffered ∧ s.Pending id
  stale : ∀ fetch ∈ s.fetches, fetch.token.agentId = id → fetch.number < m.fetches →
    fetch.token.version < s.replica.lifecycleVersions id ∨ buffered ∧ s.Pending id
  fetched : m.fetches ≤ s.fetched

variable {m : Moment} {buffered : Prop}

section

variable (h : Gone id m buffered s)
include h

omit [DecidableEq υ] in
theorem Gone.later (hlater : Later s s')
    (habsent : s'.replica.agents.get id = none ∨ buffered ∧ s'.Pending id)
    (hpending : s.Pending id → s'.Pending id ∨
      ∀ fetch ∈ s.fetches, fetch.token.agentId = id →
        fetch.token.version < s'.replica.lifecycleVersions id) : Gone id m buffered s' where
  absent := habsent
  stale fetch hfetch hid hnumber := by
    rcases hlater.fetches fetch hfetch with hold | ⟨hnew, -, -⟩
    · rcases h.stale fetch hold hid hnumber with hstale | ⟨hbuffered, hwaits⟩
      · exact .inl (hstale.trans_le (hlater.grows.versions id))
      · rcases hpending hwaits with hwaits' | hstale
        · exact .inr ⟨hbuffered, hwaits'⟩
        · exact .inl (hstale fetch hold hid)
    · have hfetched := h.fetched
      omega
  fetched := h.fetched.trans hlater.fetched

/-- A step that leaves the transaction alone, or only adds to it. -/
theorem Gone.quiet (hlater : Later s s') (hpending : s.Pending id → s'.Pending id)
    (habsent : s.replica.agents.get id = none → s'.replica.agents.get id = none) :
    Gone id m buffered s' := by
  refine h.later hlater ?_ fun hwaits => .inl (hpending hwaits)
  rcases h.absent with hnone | ⟨hbuffered, hwaits⟩
  · exact .inl (habsent hnone)
  · exact .inr ⟨hbuffered, hpending hwaits⟩

/-- Something that a refresh has got is about to be taken over, and brings the agent back. -/
def Revives (id : String) (transaction : DirectoryTransaction (AgentSnapshot υ ρ) (AgentDirectoryDelta υ ρ))
    (commits : Bool) : Prop :=
  lastWord id transaction.deltas = some true ∨
    commits ∧ lastWord id transaction.deltas = none ∧
      ∃ entry ∈ transaction.snapshot.entries, entry.agent.id = id

/-- The replica has the agent or looks for it in the cache, or else no request for it is under way
that its version lets through. -/
def Known (id : String) (s : AgentSync υ ρ) : Prop :=
  id ∈ s.replica.members ∨ id ∈ s.replica.pendingCacheReads ∨
    ∀ fetch ∈ s.fetches, fetch.token.agentId = id →
      fetch.token.version ≠ s.replica.lifecycleVersions id

/-- What was buffered is applied one after the other. -/
theorem Gone.applied (hsound : Sound s) (hlater : Later s s')
    (hreplica : s'.replica = s.transactions.buffered.foldl (·.applyDelta ·) s.replica)
    (hnot : lastWord id s.transactions.buffered ≠ some true) : Gone id m buffered s' := by
  have hhas : (s'.replica.agents.get id).isSome =
      (lastWord id s.transactions.buffered).getD (s.replica.agents.get id).isSome := by
    rw [hreplica]
    exact foldl_lastWord (fun r : AgentDirectoryReplica υ ρ => (r.agents.get id).isSome)
      isSome_applyDelta _ _
  refine h.later hlater (.inl ?_) fun hwaits => .inr fun fetch hfetch hid => ?_
  · rw [← not_isSome_iff_eq_none, hhas]
    cases hlast : lastWord id s.transactions.buffered with
    | none =>
      rcases h.absent with hnone | ⟨-, hwaits⟩
      · simp [hnone]
      · rw [Pending, hlast] at hwaits
        contradiction
    | some there =>
      cases there with
      | true => exact absurd hlast hnot
      | false => simp
  · have hversion := hsound.versions fetch hfetch
    rw [hid] at hversion
    rw [hreplica]
    exact hversion.trans_lt (lt_version_foldl _ hwaits)

/-- A refresh is committed with what was buffered. -/
theorem Gone.committed (hsound : Sound s) (hlater : Later s s')
    {transaction : DirectoryTransaction (AgentSnapshot υ ρ) (AgentDirectoryDelta υ ρ)}
    (hcurrent : s.transactions.current = some transaction) (hreplica : s'.replica =
      (s.commitAgentSnapshot transaction.snapshot transaction.deltas).replica)
    (hnot : ¬ Revives id transaction true) (hknown : buffered → s.Pending id → s.Known id) :
    Gone id m buffered s' := by
  have hbuffered : s.transactions.buffered = transaction.deltas := by
    rw [DirectoryTransactionOwner.buffered, hcurrent]
  have hnever : lastWord id transaction.deltas ≠ some true := fun hlast => hnot (.inl hlast)
  have hnamed : lastWord id transaction.deltas = none →
      ¬ ∃ entry ∈ transaction.snapshot.entries, entry.agent.id = id :=
    fun hlast hentry => hnot (.inr ⟨rfl, hlast, hentry⟩)
  have hbefore : lastWord id transaction.deltas = none → s.replica.agents.get id = none := by
    intro hlast
    rcases h.absent with hnone | ⟨-, hwaits⟩
    · exact hnone
    · rw [Pending, hbuffered, hlast] at hwaits
      contradiction
  refine ⟨.inl ?_, ?_, h.fetched.trans hlater.fetched⟩
  · rw [← not_isSome_iff_eq_none, hreplica]
    unfold commitAgentSnapshot
    dsimp only
    split
    · intro hsome
      rcases isSome_commitChanges hsound.keyed hsome with hlast | ⟨hlast, hentry | hsome'⟩
      · exact hnever hlast
      · exact hnamed hlast hentry
      · rw [hbefore hlast] at hsome'
        contradiction
    · rw [isSome_commitSnapshot]
      cases hlast : lastWord id transaction.deltas with
      | none => simpa using hnamed hlast
      | some there =>
        cases there with
        | true => exact absurd hlast hnever
        | false => simp
  · intro fetch hfetch hid hnumber
    rcases hlater.fetches fetch hfetch with hold | ⟨hnew, -, -⟩
    · rcases h.stale fetch hold hid hnumber with hstale | ⟨hbuf, hwaits⟩
      · exact .inl (hstale.trans_le (hlater.grows.versions id))
      · left
        have hversion := hsound.versions fetch hold
        rw [hid] at hversion
        have hlast : lastWord id transaction.deltas = some false := by rw [← hbuffered]; exact hwaits
        have hgrown (hmem : id ∈ s.replica.members ∨ id ∈ s.replica.pendingCacheReads) :
            s.replica.lifecycleVersions id < s'.replica.lifecycleVersions id := by
          rw [hreplica]
          unfold commitAgentSnapshot
          dsimp only
          split
          · apply lt_version_commitSnapshot _ hmem
            rw [lastWord_removals, hlast, some_or]
          · exact lt_version_commitSnapshot _ hmem hlast
        rcases hknown hbuf hwaits with hmember | hread | hnone
        · exact hversion.trans_lt (hgrown (.inl hmember))
        · exact hversion.trans_lt (hgrown (.inr hread))
        · exact (lt_of_le_of_ne hversion (hnone fetch hold hid)).trans_le
            (hlater.grows.versions id)
    · have hfetched := h.fetched
      omega

end

/-! ## Steps -/

/-- An event that brings an agent back by right: an update, or a response to a request that was made
after the moment. -/
def Recreates (id : String) (m : Moment) (s : AgentSync υ ρ) : AgentEvent υ ρ → Prop
  | .agentUpdate delta => word id delta = some true
  | .acceptAgent agent => agent.id = id
  | .agentsPage i entries _ =>
    (∃ refresh ∈ s.refreshes[i]?, m.transactions ≤ refresh.1) ∧ ∃ entry ∈ entries, entry.agent.id = id
  | .timelineArrives i agent =>
    (∃ fetch ∈ s.fetches[i]?, m.fetches ≤ fetch.number) ∧ agent.map (·.id) = some id
  | .cachedAgentArrives i agent =>
    (∃ fetch ∈ s.fetches[i]?, m.fetches ≤ fetch.number) ∧ agent.map (·.id) = some id
  | _ => False

/-- Whether the event ends the current transaction, and whether by a commit of what it has fetched. -/
def takesOver (s : AgentSync υ ρ) : AgentEvent υ ρ → Option Bool
  | .connectionChanged connection => if s.connection = connection then none else some false
  | .agentsPage i _ _ => (s.refreshes[i]?).bind fun refresh =>
      if s.transactions.isCurrent refresh.1 ∧ s.connection ≠ some refresh.2 then some false else none
  | .agentsError i => (s.refreshes[i]?).bind fun refresh =>
      if s.transactions.isCurrent refresh.1 then some false else none
  | .agentsComplete i => (s.refreshes[i]?).bind fun refresh =>
      if s.transactions.isCurrent refresh.1 then some (decide (s.connection = some refresh.2)) else none
  | _ => none
/-- A request for the agent is answered that finds the version it was made for. -/
def InTime (id : String) (i : ℕ) (s : AgentSync υ ρ) : Prop :=
  ∃ fetch ∈ s.fetches[i]?, fetch.token.agentId = id ∧ fetch.token.version = s.replica.lifecycleVersions id

/-- An event that brings the agent where it is not. -/
def Brings (id : String) (s : AgentSync υ ρ) : AgentEvent υ ρ → Prop
  | .agentUpdate delta => word id delta = some true
  | .acceptAgent agent => agent.id = id
  | .timelineArrives i agent => agent.map (·.id) = some id ∧ InTime id i s
  | .cachedAgentArrives i agent => agent.map (·.id) = some id ∧ InTime id i s
  | _ => False

/-- The transaction has no part in the event. -/
structure Quiet (s : AgentSync υ ρ) (event : AgentEvent υ ρ) (s' : AgentSync υ ρ) : Prop where
  later : Later s s'
  transactions : s'.transactions = s.transactions
  connection : s'.connection = s.connection
  absent : ∀ id, s.replica.agents.get id = none →
    s'.replica.agents.get id = none ∨ Brings id s event

/-- What an event does to the transaction. -/
inductive Effect (s : AgentSync υ ρ) : AgentEvent υ ρ → AgentSync υ ρ → Prop
  | quiet {event : AgentEvent υ ρ} {s' : AgentSync υ ρ} (h : Quiet s event s') : Effect s event s'
  | recorded {current : DirectoryTransaction (AgentSnapshot υ ρ) (AgentDirectoryDelta υ ρ)}
      {delta : AgentDirectoryDelta υ ρ} (hcurrent : s.transactions.current = some current) :
      Effect s (.agentUpdate delta)
        { s with
          transactions := { s.transactions with
            current := some { current with deltas := current.deltas ++ [delta] } } }
  | begun {source : DirectorySourceToken} (hsource : s.connection = some source) :
      Effect s .refreshAgents (s.refreshAgents source)
  | written {i : ℕ} {refresh : ℕ × DirectorySourceToken} {entries : List (FetchAgentsEntry υ ρ)}
      {sync : Option (ReadMode × List String)} (hrefresh : s.refreshes[i]? = some refresh)
      (hcurrent : s.transactions.isCurrent refresh.1 = true) :
      Effect s (.agentsPage i entries sync)
        { s with transactions := s.transactions.write (addPage entries sync) }
  /-- what was buffered is applied, without what was fetched -/
  | applied {event : AgentEvent υ ρ} {connection : Option DirectorySourceToken}
      {refreshes : List (ℕ × DirectorySourceToken)} (htakes : false ∈ s.takesOver event) :
      Effect s event
        { s with
          connection
          transactions := { s.transactions with current := none }
          replica := s.transactions.buffered.foldl (·.applyDelta ·) s.replica
          refreshes }
  | committed {i : ℕ} {current : DirectoryTransaction (AgentSnapshot υ ρ) (AgentDirectoryDelta υ ρ)}
      (hcurrent : s.transactions.current = some current)
      (htakes : true ∈ s.takesOver (.agentsComplete i)) :
      Effect s (.agentsComplete i)
        { s with
          transactions := { s.transactions with current := none }
          replica := (s.commitAgentSnapshot current.snapshot current.deltas).replica
          refreshes := s.refreshes.eraseIdx i }

theorem effect_replica (hgrows : Grows s.replica replica)
    (habsent : ∀ id, s.replica.agents.get id = none → replica.agents.get id = none ∨ Brings id s event) :
    Effect s event { s with replica } :=
  .quiet ⟨⟨hgrows, fun _ h => .inl h, le_rfl, le_rfl⟩, rfl, rfl, habsent⟩

theorem effect_leaveFetch (hgrows : Grows s.replica replica)
    (habsent : ∀ id, s.replica.agents.get id = none → replica.agents.get id = none ∨ Brings id s event)
    (i : ℕ) : Effect s event { s.leaveFetch i with replica } :=
  .quiet ⟨⟨hgrows, fun _ h => .inl (mem_of_mem_eraseIdx h), le_rfl, le_rfl⟩, rfl, rfl, habsent⟩

theorem effect_unanswered (i : ℕ) : Effect s event (s.leaveFetch i) :=
  effect_leaveFetch (.refl s.replica) (fun _ h => .inl h) i

theorem effect_failed (i transaction : ℕ)
    (htakes : s.transactions.isCurrent transaction = true → false ∈ s.takesOver event) :
    Effect s event (s.failed i transaction) := by
  rcases failed_cases s i transaction with ⟨hcurrent, hfailed⟩ | hfailed
  · rw [hfailed]
    exact .applied (htakes hcurrent)
  · rw [hfailed]
    exact .quiet ⟨⟨.refl s.replica, fun _ h => .inl h, le_rfl, le_rfl⟩, rfl, rfl, fun _ h => .inl h⟩

/-- One case for each event. -/
theorem step_effect (hstep : s.step event = some s') : Effect s event s' := by
  cases event with
  | connectionChanged connection =>
    rw [← some.inj hstep, connectionChanged]
    split
    · exact effect_replica (.refl s.replica) fun _ h => .inl h
    · rename_i hchanged
      rw [flush_eq]
      exact .applied (if_neg hchanged)
  | agentUpdate delta =>
    obtain ⟨source, -, rfl⟩ := map_eq_some_iff.mp hstep
    unfold agentUpdate
    split
    · rename_i transactions hrecord
      obtain ⟨current, hcurrent, -, rfl⟩ := record_eq_some hrecord
      exact .recorded hcurrent
    · refine effect_replica (grows_foldl s.replica [delta]) fun id hnone => ?_
      have hhas : ((s.replica.applyDelta delta).agents.get id).isSome =
          (word id delta).getD (s.replica.agents.get id).isSome :=
        isSome_applyDelta s.replica delta
      rw [hnone] at hhas
      cases hdelta : word id delta with
      | none => exact .inl (by simpa [hdelta] using hhas)
      | some there =>
        cases there with
        | true => exact .inr hdelta
        | false => exact .inl (by simpa [hdelta] using hhas)
  | agentDeleted agentId =>
    obtain ⟨source, -, rfl⟩ := map_eq_some_iff.mp hstep
    exact effect_replica (grows_remove s.replica agentId) fun _ h => .inl (get_remove_eq_none agentId h)
  | agentArchived agentId archivedAt =>
    obtain ⟨source, -, rfl⟩ := map_eq_some_iff.mp hstep
    exact effect_replica (grows_archive s.replica agentId archivedAt) fun _ h =>
      .inl (get_archive_eq_none archivedAt agentId h)
  | refreshAgents =>
    obtain ⟨source, hsource, rfl⟩ := map_eq_some_iff.mp hstep
    exact .begun hsource
  | agentsPage i entries sync =>
    obtain ⟨⟨transaction, source⟩, hrefresh, rfl⟩ := map_eq_some_iff.mp hstep
    unfold agentsPage
    split
    · rename_i hcurrent
      exact .written hrefresh hcurrent.1
    · rename_i hstale
      refine effect_failed i transaction fun hcurrent => ?_
      show (s.refreshes[i]?).bind _ = some false
      rw [hrefresh, bind_some]
      exact if_pos ⟨hcurrent, fun heq => hstale ⟨hcurrent, heq⟩⟩
  | agentsError i =>
    obtain ⟨⟨transaction, source⟩, hrefresh, rfl⟩ := map_eq_some_iff.mp hstep
    refine effect_failed i transaction fun hcurrent => ?_
    show (s.refreshes[i]?).bind _ = some false
    rw [hrefresh, bind_some]
    exact if_pos hcurrent
  | agentsComplete i =>
    obtain ⟨⟨transaction, source⟩, hrefresh, rfl⟩ := map_eq_some_iff.mp hstep
    have htakes (hcurrent : s.transactions.isCurrent transaction = true) :
        s.takesOver (.agentsComplete i) = some (decide (s.connection = some source)) := by
      show (s.refreshes[i]?).bind _ = _
      rw [hrefresh, bind_some]
      exact if_pos hcurrent
    rcases complete_cases s i transaction source with
      ⟨current, hcurrent, hid, hconnection, hcomplete⟩ | ⟨hstale, hcomplete⟩
    · have hnow : s.transactions.isCurrent transaction = true := by
        rw [isCurrent, hcurrent]
        simp [hid]
      rw [hcomplete]
      exact .committed hcurrent (by rw [htakes hnow, hconnection]; simp)
    · rw [hcomplete]
      exact effect_failed i transaction fun hcurrent => by simp [htakes hcurrent, hstale hcurrent]
  | fetchTimeline agentId =>
    obtain ⟨source, -, rfl⟩ := map_eq_some_iff.mp hstep
    exact .quiet ⟨later_beginFetch s .timeline agentId, rfl, rfl, fun _ h => .inl h⟩
  | loadCachedAgent agentId =>
    rw [← some.inj hstep, loadCachedAgent]
    split
    · exact effect_replica (.refl s.replica) fun _ h => .inl h
    · have hbegin := later_beginFetch s .cache agentId
      exact .quiet ⟨⟨⟨fun hkeyed => hkeyed, fun _ => le_rfl⟩, hbegin.fetches, hbegin.fetched, le_rfl⟩, rfl,
        rfl, fun _ h => .inl h⟩
  | timelineArrives i agent =>
    obtain ⟨fetch, hfound, rfl⟩ := map_eq_some_iff.mp hstep
    obtain ⟨hfetch, hanswered⟩ := filter_eq_some_iff.mp hfound
    cases agent with
    | none => exact effect_unanswered i
    | some agent =>
      have hanswer : agent.id = fetch.token.agentId := by
        simpa using (Bool.and_eq_true_iff.mp hanswered).2
      refine effect_leaveFetch (grows_submitTimelineAgent s.replica _ agent) (fun id hnone => ?_) i
      by_cases hbrings : agent.id = id ∧ fetch.token.version = s.replica.lifecycleVersions id
      · exact .inr ⟨congrArg some hbrings.1, fetch, hfetch, hanswer.symm.trans hbrings.1, hbrings.2⟩
      · left
        rw [get_submitTimelineAgent, hnone]
        rintro rfl hversion
        exact hbrings ⟨rfl, hanswer ▸ hversion⟩
  | cachedAgentArrives i agent =>
    obtain ⟨fetch, hfound, rfl⟩ := map_eq_some_iff.mp hstep
    obtain ⟨hfetch, hanswered⟩ := filter_eq_some_iff.mp hfound
    cases agent with
    | none => exact effect_unanswered i
    | some agent =>
      have hanswer : agent.id = fetch.token.agentId := by
        simpa using (Bool.and_eq_true_iff.mp hanswered).2
      unfold cachedAgentArrives
      dsimp only
      split
      · exact effect_unanswered i
      · refine effect_leaveFetch (grows_commitCachedAgent s.replica _ agent) (fun id hnone => ?_) i
        by_cases hbrings : agent.id = id ∧ fetch.token.version = s.replica.lifecycleVersions id
        · exact .inr ⟨congrArg some hbrings.1, fetch, hfetch, hanswer.symm.trans hbrings.1, hbrings.2⟩
        · left
          rw [get_commitCachedAgent, hnone]
          rintro rfl hversion
          exact hbrings ⟨rfl, hanswer ▸ hversion⟩
  | turnLiveness agentId transitions =>
    rw [← some.inj hstep]
    exact effect_replica (grows_applyTurnLiveness s.replica agentId transitions) fun _ h =>
      .inl (get_applyTurnLiveness_eq_none agentId transitions h)
  | acceptAgent agent =>
    rw [← some.inj hstep]
    refine effect_replica (grows_accept s.replica agent) fun id hnone => ?_
    by_cases hid : agent.id = id
    · exact .inr hid
    · left
      rw [get_accept, if_neg (Ne.symm hid), hnone]
  | removeAgent agentId =>
    rw [← some.inj hstep]
    exact effect_replica (grows_remove s.replica agentId) fun _ h => .inl (get_remove_eq_none agentId h)

theorem Effect.later (h : Effect s event s') : Later s s' := by
  cases h with
  | quiet hquiet => exact hquiet.later
  | recorded _ => exact ⟨.refl s.replica, fun _ hf => .inl hf, le_rfl, le_rfl⟩
  | begun _ => exact ⟨.refl s.replica, fun _ hf => .inl hf, le_rfl, Nat.le_succ _⟩
  | written _ _ => exact ⟨.refl s.replica, fun _ hf => .inl hf, le_rfl, le_rfl⟩
  | applied _ => exact ⟨grows_foldl s.replica _, fun _ hf => .inl hf, le_rfl, le_rfl⟩
  | committed _ _ => exact ⟨grows_commitAgentSnapshot s _ _, fun _ hf => .inl hf, le_rfl, le_rfl⟩

theorem Sound.step (h : Sound s) (hstep : s.step event = some s') : Sound s' := by
  have heffect := step_effect hstep
  apply h.later heffect.later
  cases heffect with
  | quiet hquiet =>
    rw [hquiet.transactions, hquiet.connection]
    exact h.on
  | @recorded current delta hcurrent =>
    intro recorded hrecorded
    rw [← some.inj hrecorded]
    exact h.on current hcurrent
  | begun hsource =>
    show (s.transactions.begin _ _).On s.connection
    rw [hsource]
    exact on_begin
  | written _ _ => exact on_write h.on _
  | applied _ => exact on_none rfl _
  | committed _ _ => exact on_none rfl _

omit [DecidableEq υ] in
/-- What comes without right finds another version, as long as no update is buffered. -/
theorem Gone.brings (h : Gone id m buffered s) (hrecreates : ¬ Recreates id m s event)
    (hbrings : Brings id s event) : buffered ∧ s.Pending id := by
  have hresponse {i : ℕ} (hnew : ¬ ∃ fetch ∈ s.fetches[i]?, m.fetches ≤ fetch.number)
      (htime : InTime id i s) : buffered ∧ s.Pending id := by
    obtain ⟨fetch, hfetch, hid, hversion⟩ := htime
    have hbefore : fetch.number < m.fetches := by
      by_contra hle
      exact hnew ⟨fetch, hfetch, Nat.le_of_not_lt hle⟩
    rcases h.stale fetch (mem_of_getElem? hfetch) hid hbefore with hstale | hwaits
    · omega
    · exact hwaits
  cases event with
  | agentUpdate delta => exact absurd hbrings hrecreates
  | acceptAgent agent => exact absurd hbrings hrecreates
  | timelineArrives i agent => exact hresponse (fun hnew => hrecreates ⟨hnew, hbrings.1⟩) hbrings.2
  | cachedAgentArrives i agent => exact hresponse (fun hnew => hrecreates ⟨hnew, hbrings.1⟩) hbrings.2
  | _ => exact hbrings.elim

theorem gone_step (hsound : Sound s) (hstep : s.step event = some s') (h : Gone id m buffered s)
    (hrecreates : ¬ Recreates id m s event)
    (hrevives : ∀ commits ∈ s.takesOver event, ∀ current ∈ s.transactions.current,
      ¬ Revives id current commits)
    (hknown : true ∈ s.takesOver event → buffered → s.Pending id → s.Known id) :
    Gone id m buffered s' := by
  have heffect := step_effect hstep
  have hlater := heffect.later
  cases heffect with
  | quiet hquiet =>
    have hpending : s'.Pending id ↔ s.Pending id := by rw [Pending, hquiet.transactions, Pending]
    refine h.later hlater ?_ fun hwaits => .inl (hpending.mpr hwaits)
    rw [hpending]
    rcases h.absent with hnone | hwaits
    · exact (hquiet.absent id hnone).imp_right (h.brings hrecreates)
    · exact .inr hwaits
  | @recorded current delta hcurrent =>
    refine h.quiet hlater ?_ fun hnone => hnone
    intro hwaits
    rw [Pending, DirectoryTransactionOwner.buffered, hcurrent] at hwaits
    show lastWord id (current.deltas ++ [delta]) = some false
    rw [lastWord_concat, hwaits]
    cases hdelta : word id delta with
    | none => rfl
    | some there =>
      cases there with
      | true => exact absurd hdelta hrecreates
      | false => rfl
  | begun hsource =>
    refine h.quiet hlater ?_ fun hnone => hnone
    intro hwaits
    have hon := hsound.on
    rw [hsource] at hon
    show lastWord id (s.transactions.begin _ _).buffered = some false
    rw [buffered_begin hon]
    exact hwaits
  | written _ _ =>
    refine h.quiet hlater ?_ fun hnone => hnone
    intro hwaits
    show lastWord id (s.transactions.write _).buffered = some false
    rw [buffered_write]
    exact hwaits
  | applied htakes =>
    refine h.applied hsound hlater rfl ?_
    intro hlast
    cases howner : s.transactions.current with
    | none =>
      rw [buffered_of_none howner] at hlast
      contradiction
    | some current =>
      rw [DirectoryTransactionOwner.buffered, howner] at hlast
      exact hrevives false htakes current howner (.inl hlast)
  | committed hcurrent htakes =>
    exact h.committed hsound hlater hcurrent rfl (hrevives true htakes _ hcurrent) (hknown htakes)

/-! ## What waits behind an update that removes the agent -/

/-- What the current transaction has of the agent, the update takes off; a transaction begun later has
nothing of it. -/
def Clean (id : String) (m : Moment) (s : AgentSync υ ρ) : Prop :=
  m.transactions ≤ s.transactions.begun ∧ ∀ current ∈ s.transactions.current,
    lastWord id current.deltas = some false ∨ lastWord id current.deltas = none ∧
      m.transactions ≤ current.id ∧ ∀ entry ∈ current.snapshot.entries, entry.agent.id ≠ id

omit [DecidableEq υ] in
theorem Clean.of_none (hbegun : m.transactions ≤ s.transactions.begun)
    (hnone : s.transactions.current = none) : Clean id m s := by
  refine ⟨hbegun, ?_⟩
  rw [hnone]
  simp

omit [DecidableEq υ] in
theorem Clean.not_revives (h : Clean id m s)
    {current : DirectoryTransaction (AgentSnapshot υ ρ) (AgentDirectoryDelta υ ρ)}
    (hcurrent : s.transactions.current = some current) (commits : Bool) :
    ¬ Revives id current commits := by
  rcases h.2 current hcurrent with hlast | ⟨hlast, -, hentries⟩
  · rintro (htrue | ⟨-, hnone, -⟩)
    · rw [hlast] at htrue
      contradiction
    · rw [hlast] at hnone
      contradiction
  · rintro (htrue | ⟨-, -, entry, hentry, hid⟩)
    · rw [hlast] at htrue
      contradiction
    · exact hentries entry hentry hid

theorem Clean.step (hsound : Sound s) (hstep : s.step event = some s') (h : Clean id m s)
    (hrecreates : ¬ Recreates id m s event) : Clean id m s' := by
  cases step_effect hstep with
  | quiet hquiet =>
    rw [Clean, hquiet.transactions]
    exact h
  | @recorded current delta hcurrent =>
    refine ⟨h.1, ?_⟩
    intro recorded hrecorded
    rw [← some.inj hrecorded, lastWord_concat]
    cases hdelta : word id delta with
    | none => exact h.2 current hcurrent
    | some there =>
      cases there with
      | true => exact absurd hdelta hrecreates
      | false => exact .inl rfl
  | begun hsource =>
    have hon := hsound.on
    rw [hsource] at hon
    refine ⟨h.1.trans (Nat.le_succ _), ?_⟩
    intro begun hbegun
    rw [← some.inj hbegun, carried_of_on hon, DirectoryTransactionOwner.buffered]
    cases howner : s.transactions.current with
    | none => exact .inr ⟨rfl, h.1, by simp⟩
    | some current =>
      rcases h.2 current howner with hlast | ⟨hlast, -, -⟩
      · exact .inl hlast
      · exact .inr ⟨hlast, h.1, by simp⟩
  | @written i refresh entries sync hrefresh hnow =>
    refine ⟨h.1, ?_⟩
    intro written hwritten
    obtain ⟨current, hcurrent, rfl⟩ := map_eq_some_iff.mp hwritten
    have hid : current.id = refresh.1 := by
      rw [isCurrent, hcurrent] at hnow
      simpa using hnow
    rcases h.2 current hcurrent with hlast | ⟨hlast, hlater, hentries⟩
    · exact .inl hlast
    · refine .inr ⟨hlast, hlater, ?_⟩
      intro entry hentry hnamed
      rcases mem_append.mp hentry with hold | hnew
      · exact hentries entry hold hnamed
      · exact hrecreates ⟨⟨refresh, hrefresh, hid ▸ hlater⟩, entry, hnew, hnamed⟩
  | applied _ => exact .of_none h.1 rfl
  | committed _ _ => exact .of_none h.1 rfl

/-! ## Runs behind a deletion -/

/-- The agent is deleted by a message, by the app itself or by an update. -/
def Deletes (id : String) : AgentEvent υ ρ → Prop
  | .agentDeleted agentId => agentId = id
  | .removeAgent agentId => agentId = id
  | .agentUpdate delta => word id delta = some false
  | _ => False

def isUpdate : AgentEvent υ ρ → Bool
  | .agentUpdate _ => true
  | _ => false

/-- A deletion that has to wait for the current refresh. -/
def Buffers (s : AgentSync υ ρ) (deletion : AgentEvent υ ρ) : Prop :=
  isUpdate deletion ∧ s.transactions.current ≠ none

/-- What holds of every state and the event that follows on it. -/
def Along (P : AgentSync υ ρ → AgentEvent υ ρ → Prop) : AgentSync υ ρ → List (AgentEvent υ ρ) → Prop
  | _, [] => True
  | s, event :: events => P s event ∧ ∀ s' ∈ s.step event, Along P s' events

/-- Behind a deletion that is no update, nothing from before is taken over that brings the agent
back. Behind an update, the agent is known when it is committed. -/
def Careful (id : String) (update : Bool) (s : AgentSync υ ρ) (event : AgentEvent υ ρ) : Prop :=
  ∀ commits ∈ s.takesOver event, ∀ current ∈ s.transactions.current,
    if update then commits = true → lastWord id current.deltas = some false → s.Known id
    else ¬ Revives id current commits

/-- A deletion advances the version of the agent, unless it is buffered. -/
theorem gone_of_deletion {deletion : AgentEvent υ ρ} (hsound : Sound s)
    (hdeletes : Deletes id deletion) (hstep : s.step deletion = some s') :
    Gone id s'.moment (Buffers s deletion) s' ∧
      (isUpdate deletion = true → Clean id s'.moment s') := by
  have hremoved : s'.replica = s.replica.remove id → s'.fetches = s.fetches →
      Gone id s'.moment (Buffers s deletion) s' := by
    intro hreplica hfetches
    refine ⟨.inl ?_, ?_, le_rfl⟩
    · rw [hreplica]
      exact OrderedMap.get_delete_self
    · intro fetch hfetch hid _
      left
      rw [hfetches] at hfetch
      have hversion := hsound.versions fetch hfetch
      rw [hid] at hversion
      rw [hreplica]
      exact hversion.trans_lt (lt_version_remove s.replica id)
  cases deletion with
  | agentDeleted agentId =>
    obtain ⟨source, -, rfl⟩ := map_eq_some_iff.mp hstep
    have hid : agentId = id := hdeletes
    exact ⟨hremoved (by rw [hid]) rfl, fun hupdate => absurd hupdate Bool.false_ne_true⟩
  | removeAgent agentId =>
    have hid : agentId = id := hdeletes
    rw [← some.inj hstep] at hremoved ⊢
    exact ⟨hremoved (by rw [hid]) rfl, fun hupdate => absurd hupdate Bool.false_ne_true⟩
  | agentUpdate delta =>
    obtain ⟨source, hsource, rfl⟩ := map_eq_some_iff.mp hstep
    have hword : word id delta = some false := hdeletes
    have hon := hsound.on
    rw [hsource] at hon
    unfold agentUpdate at hremoved ⊢
    split at hremoved
    · rename_i transactions hrecord
      obtain ⟨current, hcurrent, -, rfl⟩ := record_eq_some hrecord
      have hlast : lastWord id (current.deltas ++ [delta]) = some false := by
        rw [lastWord_concat, hword, some_or]
      have hbuffers : Buffers s (.agentUpdate delta) := ⟨rfl, by rw [hcurrent]; simp⟩
      refine ⟨⟨.inr ⟨hbuffers, hlast⟩, fun _ _ _ _ => .inr ⟨hbuffers, hlast⟩, le_rfl⟩, fun _ => ?_⟩
      refine ⟨le_rfl, ?_⟩
      intro recorded hrecorded
      rw [← some.inj hrecorded]
      exact .inl hlast
    · rename_i hrecord
      rw [word_eq_some_false.1 hword] at hremoved ⊢
      have hnone := current_of_record_eq_none hon hrecord
      exact ⟨hremoved rfl rfl, fun _ => .of_none le_rfl hnone⟩
  | _ => exact False.elim hdeletes

theorem sound_run (h : Sound s) (hrun : s.run events = some s') :
    Sound s' := by
  induction events generalizing s with
  | nil =>
    rw [← some.inj hrun]
    exact h
  | cons event events ih =>
    obtain ⟨next, hstep, hrest⟩ := bind_eq_some_iff.mp hrun
    exact ih (h.step hstep) hrest

theorem gone_run {update : Bool} (hsound : Sound s) (hrun : s.run events = some s')
    (hgone : Gone id m buffered s) (hclean : update = true → Clean id m s)
    (hbuffered : buffered → update = true)
    (hnew : s.Along (fun s event => ¬ Recreates id m s event) events)
    (hcareful : s.Along (Careful id update) events) : Gone id m buffered s' := by
  induction events generalizing s with
  | nil =>
    rw [← some.inj hrun]
    exact hgone
  | cons event events ih =>
    obtain ⟨next, hstep, hrest⟩ := bind_eq_some_iff.mp hrun
    have hrevives : ∀ commits ∈ s.takesOver event, ∀ current ∈ s.transactions.current,
        ¬ Revives id current commits := by
      intro commits hcommits current hcurrent
      cases update with
      | true => exact (hclean rfl).not_revives hcurrent commits
      | false => exact hcareful.1 commits hcommits current hcurrent
    have hknown : true ∈ s.takesOver event → buffered → s.Pending id → s.Known id := by
      intro hcommits hwaits hpending
      have hupdate := hbuffered hwaits
      subst hupdate
      cases howner : s.transactions.current with
      | none =>
        rw [Pending, buffered_of_none howner] at hpending
        contradiction
      | some current =>
        rw [Pending, DirectoryTransactionOwner.buffered, howner] at hpending
        exact hcareful.1 true hcommits current howner rfl hpending
    exact ih (hsound.step hstep) hrest (gone_step hsound hstep hgone hnew.1 hrevives hknown)
      (fun hupdate => (hclean hupdate).step hsound hstep hnew.1) (hnew.2 next hstep)
      (hcareful.2 next hstep)

/-- An agent that is there, with its timeline being fetched. -/
def fetchingTimeline : List (AgentEvent ℕ Unit) :=
  [.connectionChanged (some ⟨1, 1⟩), .refreshAgents, .agentsPage 0 [idleEntry] none,
    .agentsComplete 0, .fetchTimeline "a"]

def beforeDeletion : AgentSync ℕ Unit := (start.run fetchingTimeline).getD start

def behindDeletion : AgentSync ℕ Unit := (beforeDeletion.step (.agentDeleted "a")).getD start

def behindTimeline : AgentSync ℕ Unit :=
  (behindDeletion.run [.timelineArrives 0 (some idleAgent)]).getD start

theorem eq_some_getD {α : Type*} {option : Option α} (h : option.isSome = true) (a : α) :
    option = some (option.getD a) := by
  cases option with
  | none => contradiction
  | some _ => rfl

/-- The first page was computed before the deletion. -/
def deletedWhileRefreshing : List (AgentEvent ℕ Unit) :=
  [.connectionChanged (some ⟨1, 1⟩), .refreshAgents, .agentsPage 0 [idleEntry] none,
    .agentDeleted "a", .agentsPage 0 [] none, .agentsComplete 0]

/-- The agent is not in the replica when the update that removes it is committed. -/
def removedWhileFetching : List (AgentEvent ℕ Unit) :=
  [.connectionChanged (some ⟨1, 1⟩), .refreshAgents, .fetchTimeline "a",
    .agentUpdate (.remove "a"), .agentsPage 0 [] none, .agentsComplete 0,
    .timelineArrives 0 (some idleAgent)]

end AgentSync

end Orqara.Directory
