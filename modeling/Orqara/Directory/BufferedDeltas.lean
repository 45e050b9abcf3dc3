import Orqara.Directory.DirectorySync

/-!
# Every live delta is applied once

The deltas applied to a replica, with those that wait in its current transaction, are the deltas
that came in, in the order in which they did. As long as a refresh is on its way for a
transaction that holds deltas, nothing waits when no refresh is left.
-/

namespace Orqara.Directory

open List Option

/-! ## One replica -/

namespace ReplicaSync

open DirectoryTransactionOwner

variable {π δ μ : Type*} {s s' : ReplicaSync π δ μ} {connection connection' : DirectoryConnection}
  {arrived : List δ} {i : ℕ} {source : DirectorySourceToken} {cacheLoad : CacheLoad}
  {hasMatchingSession : Bool}

@[simp] theorem deltas_applyDeltas (ds : List δ) : (s.applyDeltas ds).deltas = s.deltas ++ ds := by
  simp only [deltas, applyDeltas, filterMap_append, filterMap_map]
  congr 1
  exact filterMap_some

@[simp] theorem deltas_commitSnapshot (pages : List π) (ds : List δ) :
    (s.commitSnapshot pages ds).deltas = s.deltas ++ ds := by
  simp only [deltas, commitSnapshot, filterMap_append, filterMap_cons,
    filterMap_map]
  congr 1
  exact filterMap_some

@[simp] theorem deltas_liveMessage (message : μ) : (s.liveMessage message).deltas = s.deltas := by
  simp [deltas, liveMessage]

/-- Every delta that came in has been applied or waits, in the order of arrival, and the current
transaction is one of the connection. -/
structure Once (connection : DirectoryConnection) (arrived : List δ) (s : ReplicaSync π δ μ) :
    Prop where
  once : s.deltas ++ s.transactions.buffered = arrived
  on : s.transactions.On (connection.getOnlineConnection.map Prod.snd)

theorem once_idle : Once connection [] (idle : ReplicaSync π δ μ) where
  once := rfl
  on := fun _ h => nomatch h

section

variable (h : Once connection arrived s)
include h

/-- What waited has been applied. -/
theorem Once.flushed (hcurrent : s'.transactions.current = none)
    (hdeltas : s'.deltas = s.deltas ++ s.transactions.buffered) : Once connection' arrived s' where
  once := by
    rw [hdeltas, h.once, buffered_of_none hcurrent, append_nil]
  on := fun current hmem => by
    rw [hcurrent] at hmem
    cases hmem

/-- Another transaction takes over what waits. -/
theorem Once.begun {client : ℕ} (honline : connection.getOnlineConnection = some (client, source))
    (htransactions : s'.transactions = s.transactions.begin source []) (hreplica : s'.replica = s.replica) :
    Once connection arrived s' where
  once := by
    have hon : s.transactions.On (some source) := by
      have hon := h.on
      rwa [honline] at hon
    rw [htransactions, buffered_begin hon, ← h.once, deltas, deltas, hreplica]
  on := by
    rw [htransactions, honline]
    exact on_begin

/-- The refreshes play no part. -/
theorem Once.refreshes (refreshes : List Refresh) :
    Once connection arrived { s with refreshes } := ⟨h.once, h.on⟩

theorem once_flushAborted :
    Once connection' arrived s.flushAborted := by
  apply h.flushed
  · exact current_abort
  · rw [flushAborted, deltas_applyDeltas, snd_abort]
    rfl

theorem once_startFetching :
    Once connection arrived (s.startFetching connection) := by
  unfold startFetching
  cases honline : connection.getOnlineConnection with
  | none => exact h
  | some online => exact h.begun honline rfl rfl

theorem once_primeForCacheLoad :
    Once connection arrived (s.primeForCacheLoad connection) := by
  unfold primeForCacheLoad
  cases honline : connection.getOnlineConnection with
  | none => exact h.refreshes _
  | some online => exact h.begun honline rfl rfl

theorem once_failed (transaction : ℕ) :
    Once connection arrived (s.failed i transaction) := by
  unfold failed
  cases hfail : s.transactions.fail transaction with
  | none => exact h.refreshes _
  | some failed =>
    obtain ⟨hcurrent, hdeltas⟩ := fail_eq_some hfail
    apply h.flushed
    · exact hcurrent
    · show (applyDeltas _ failed.2).deltas = _
      rw [deltas_applyDeltas, hdeltas]
      rfl

omit h in
/-- What the end of the cache load makes of a refresh that awaits it. -/
theorem resume_cases (h : s.resume connection cacheLoad i = some s') :
    (∃ primed, s.refreshes[i]? = some (.loadingCache primed)) ∧
      ((cacheLoad = .loaded ∧ connection.getOnlineConnection = none ∧ s' = s.leave i) ∨
        (cacheLoad = .failed ∧ s' = s.leave i) ∨
        ∃ client source, connection.getOnlineConnection = some (client, source) ∧
          s' = { s with
            transactions := s.transactions.begin source []
            refreshes := s.refreshes.set i (.fetching client source s.transactions.begun) }) := by
  unfold resume at h
  split at h
  · next primed hrefresh =>
    refine ⟨⟨primed, hrefresh⟩, ?_⟩
    split at h
    · next honline => exact .inl ⟨rfl, honline, (some.inj h).symm⟩
    · next client source honline =>
      exact .inr (.inr ⟨client, source, honline, (some.inj h).symm⟩)
  · next primed hrefresh => exact ⟨⟨primed, hrefresh⟩, .inr (.inl ⟨rfl, (some.inj h).symm⟩)⟩
  · cases h

theorem once_resume (hresume : s.resume connection cacheLoad i = some s') :
    Once connection arrived s' := by
  obtain ⟨-, ⟨-, -, rfl⟩ | ⟨-, rfl⟩ | ⟨client, source, honline, rfl⟩⟩ := resume_cases hresume
  · exact h.refreshes _
  · exact h.refreshes _
  · exact h.begun honline rfl rfl

omit h in
theorem page_cases {page : π} (h : s.page connection i page = some s') :
    ∃ client source transaction, s.refreshes[i]? = some (.fetching client source transaction) ∧
      (s' = { s with transactions := s.transactions.write fun pages => pages ++ [page] } ∨
        s' = s.failed i transaction) := by
  unfold ReplicaSync.page at h
  split at h
  · next client source transaction hrefresh =>
    refine ⟨client, source, transaction, hrefresh, ?_⟩
    split at h
    · exact .inl (some.inj h).symm
    · exact .inr (some.inj h).symm
  · cases h

theorem once_page {page : π} (hpage : s.page connection i page = some s') : Once connection arrived s' := by
  obtain ⟨client, source, transaction, -, rfl | rfl⟩ := page_cases hpage
  · constructor
    · show s.deltas ++ (s.transactions.write _).buffered = arrived
      rw [buffered_write, h.once]
    · intro current hcurrent
      obtain ⟨before, hbefore, rfl⟩ := map_eq_some_iff.mp hcurrent
      exact h.on before hbefore
  · exact once_failed h transaction

omit h in
theorem error_cases (h : s.error i = some s') :
    ∃ client source transaction, s.refreshes[i]? = some (.fetching client source transaction) ∧
      s' = s.failed i transaction := by
  unfold error at h
  split at h
  · next client source transaction hrefresh =>
    exact ⟨client, source, transaction, hrefresh, (some.inj h).symm⟩
  · cases h

omit h in
theorem complete_cases (h : s.complete connection i hasMatchingSession = some s') :
    ∃ client source transaction, s.refreshes[i]? = some (.fetching client source transaction) ∧
      (s' = s.failed i transaction ∨ ∃ transactions pages ds,
        s.transactions.complete transaction = some (transactions, pages, ds) ∧
          s' = ({ s with transactions }.commitSnapshot pages ds |>.leave i)) := by
  unfold complete at h
  split at h
  · next client source transaction hrefresh =>
    refine ⟨client, source, transaction, hrefresh, ?_⟩
    split at h
    · split at h
      · next transactions pages ds hcomplete =>
        exact .inr ⟨transactions, pages, ds, hcomplete, (some.inj h).symm⟩
      · exact .inl (some.inj h).symm
    · exact .inl (some.inj h).symm
  · cases h

theorem once_complete (hcomplete : s.complete connection i hasMatchingSession = some s') :
    Once connection arrived s' := by
  obtain ⟨client, source, transaction, -, rfl | ⟨transactions, pages, ds, hcurrent, rfl⟩⟩ :=
    complete_cases hcomplete
  · exact once_failed h transaction
  · obtain ⟨hnone, hdeltas⟩ := complete_eq_some hcurrent
    apply h.flushed
    · exact hnone
    · show (commitSnapshot _ pages ds).deltas = _
      rw [deltas_commitSnapshot, hdeltas]
      rfl

end

theorem once_liveDelta {client : ℕ} (delta : δ) (h : Once connection arrived s)
    (honline : connection.getOnlineConnection = some (client, source)) :
    Once connection (arrived ++ [delta]) (s.liveDelta source delta) := by
  have hon : s.transactions.On (some source) := by
    have hon := h.on
    rwa [honline] at hon
  unfold liveDelta
  cases hrecord : s.transactions.record source delta with
  | some transactions =>
    obtain ⟨current, hcurrent, hsource, rfl⟩ := record_eq_some hrecord
    constructor
    · show s.deltas ++ (current.deltas ++ [delta]) = _
      rw [← h.once, buffered, hcurrent, append_assoc]
    · intro other hother
      rw [← some.inj hother]
      exact h.on current hcurrent
  | none =>
    have hnone : s.transactions.current = none := current_of_record_eq_none hon hrecord
    have honce := h.once
    rw [buffered_of_none hnone, append_nil] at honce
    constructor
    · show (s.applyDeltas [delta]).deltas ++ s.transactions.buffered = _
      rw [deltas_applyDeltas, buffered_of_none hnone, append_nil, honce]
    · exact h.on

/-! ## Transactions with a refresh on its way -/

/-- A refresh on its way has begun the current transaction, if that one holds deltas of a
kind. -/
def Backed (P : List δ → Prop) (s : ReplicaSync π δ μ) : Prop :=
  ∀ current ∈ s.transactions.current, P current.deltas →
    some current.id ∈ s.refreshes.map Refresh.transaction

variable {P : List δ → Prop}

instance [DecidablePred P] : Decidable (Backed P s) :=
  inferInstanceAs (Decidable (∀ current ∈ s.transactions.current, P current.deltas →
    some current.id ∈ s.refreshes.map Refresh.transaction))

theorem Backed.of_none (h : s.transactions.current = none) : Backed P s := by
  intro current hcurrent
  rw [h] at hcurrent
  cases hcurrent

theorem backed_begin {refreshes : List Refresh}
    (h : some s.transactions.begun ∈ refreshes.map Refresh.transaction) :
    Backed P { s with transactions := s.transactions.begin source [], refreshes := refreshes } := by
  intro current hcurrent _
  rw [← some.inj hcurrent]
  exact h

section

variable (h : Backed P s)
include h

/-- A refresh that is not the one of the current transaction may leave. -/
theorem Backed.leave (hother : ∀ current ∈ s.transactions.current,
    P current.deltas → ∀ refresh ∈ s.refreshes[i]?, refresh.transaction ≠ some current.id) :
    Backed P (s.leave i) := by
  intro current hcurrent hp
  obtain ⟨refresh, hrefresh, hid⟩ := List.mem_map.mp (h current hcurrent hp)
  apply List.mem_map.mpr
  refine ⟨refresh, ?_, hid⟩
  obtain ⟨j, hj⟩ := mem_iff_getElem?.mp hrefresh
  apply mem_eraseIdx_iff_getElem?.mpr
  refine ⟨j, ?_, hj⟩
  rintro rfl
  exact hother current hcurrent hp refresh hj hid

theorem backed_startFetching : Backed P (s.startFetching connection) := by
  unfold startFetching
  cases connection.getOnlineConnection with
  | none => exact h
  | some online =>
    apply backed_begin
    simp [Refresh.transaction]

theorem backed_startLoading : Backed P s.startLoading := by
  intro current hcurrent hp
  show some current.id ∈ (s.refreshes ++ [Refresh.loadingCache none]).map Refresh.transaction
  rw [map_append]
  exact mem_append_left _ (h current hcurrent hp)

theorem backed_primeForCacheLoad : Backed P (s.primeForCacheLoad connection) := by
  unfold primeForCacheLoad
  cases connection.getOnlineConnection with
  | none => exact backed_startLoading h
  | some online =>
    apply backed_begin
    simp [Refresh.transaction]

theorem backed_failed {transaction : ℕ}
    (hrefresh : ∀ refresh ∈ s.refreshes[i]?, refresh.transaction = some transaction) :
    Backed P (s.failed i transaction) := by
  unfold failed
  cases hfail : s.transactions.fail transaction with
  | none =>
    apply h.leave
    intro current hcurrent _ refresh hmem heq
    rw [hrefresh refresh hmem, Option.some.injEq] at heq
    exact fail_eq_none hfail current hcurrent heq.symm
  | some failed => exact Backed.of_none (fail_eq_some hfail).1

omit h in
theorem transaction_of_fetching {client transaction : ℕ}
    (h : s.refreshes[i]? = some (.fetching client source transaction)) :
    ∀ refresh ∈ s.refreshes[i]?, refresh.transaction = some transaction := by
  intro refresh hrefresh
  rw [h] at hrefresh
  rw [← some.inj hrefresh]
  rfl

theorem backed_page {page : π} (hpage : s.page connection i page = some s') :
    Backed P s' := by
  obtain ⟨client, source, transaction, hrefresh, rfl | rfl⟩ := page_cases hpage
  · intro current hcurrent hp
    obtain ⟨before, hbefore, rfl⟩ := map_eq_some_iff.mp hcurrent
    exact h before hbefore hp
  · exact backed_failed h (transaction_of_fetching hrefresh)

theorem backed_complete (hcomplete : s.complete connection i hasMatchingSession = some s') :
    Backed P s' := by
  obtain ⟨client, source, transaction, hrefresh, rfl | ⟨transactions, pages, ds, hcurrent, rfl⟩⟩ :=
    complete_cases hcomplete
  · exact backed_failed h (transaction_of_fetching hrefresh)
  · exact Backed.of_none (complete_eq_some hcurrent).1

theorem backed_error (herror : s.error i = some s') : Backed P s' := by
  obtain ⟨client, source, transaction, hrefresh, rfl⟩ := error_cases herror
  exact backed_failed h (transaction_of_fetching hrefresh)

/-- Deltas of a kind do not wait in the transaction that a refresh leaves behind when the load
of the cache fails. -/
def LeavesNothing (P : List δ → Prop) (s : ReplicaSync π δ μ) (cacheLoad : CacheLoad) (i : ℕ) :
    Prop :=
  cacheLoad = .failed → ∀ current ∈ s.transactions.current, P current.deltas →
    ∀ refresh ∈ s.refreshes[i]?, refresh.transaction ≠ some current.id

instance [DecidablePred P] (cacheLoad : CacheLoad) : Decidable (s.LeavesNothing P cacheLoad i) :=
  inferInstanceAs (Decidable (cacheLoad = .failed → ∀ current ∈ s.transactions.current,
    P current.deltas → ∀ refresh ∈ s.refreshes[i]?, refresh.transaction ≠ some current.id))

theorem backed_resume (hon : s.transactions.On (connection.getOnlineConnection.map Prod.snd))
    (hleaves : s.LeavesNothing P cacheLoad i) (hresume : s.resume connection cacheLoad i = some s') :
    Backed P s' := by
  obtain ⟨⟨primed, hrefresh⟩, ⟨-, honline, rfl⟩ | ⟨hfailed, rfl⟩ | ⟨client, source, -, rfl⟩⟩ :=
    resume_cases hresume
  · -- there is no transaction without a connection
    apply Backed.of_none
    cases hcurrent : s.transactions.current with
    | none => exact hcurrent
    | some current =>
      have hsource := hon current hcurrent
      rw [honline] at hsource
      cases hsource
  · exact h.leave (hleaves hfailed)
  · apply backed_begin
    obtain ⟨hi, -⟩ := List.getElem?_eq_some_iff.mp hrefresh
    exact List.mem_map.mpr ⟨_, mem_set hi _, rfl⟩

end

/-- A delta comes in while the current transaction has a refresh on its way. -/
theorem backed_liveDelta {delta : δ} (h : Backed (fun _ => True) s) :
    Backed P (s.liveDelta source delta) := by
  unfold liveDelta
  cases hrecord : s.transactions.record source delta with
  | none => exact fun current hcurrent _ => h current hcurrent trivial
  | some transactions =>
    obtain ⟨current, hcurrent, -, rfl⟩ := record_eq_some hrecord
    intro other hother _
    rw [← some.inj hother]
    exact h current hcurrent trivial

theorem Backed.buffered_eq_nil (h : Backed (· ≠ []) s) (hrefreshes : s.refreshes = []) :
    s.transactions.buffered = [] := by
  unfold buffered
  cases hcurrent : s.transactions.current with
  | none => rfl
  | some current =>
    by_contra hne
    have hmem := h current hcurrent hne
    rw [hrefreshes] at hmem
    cases hmem

/-! ## Refreshes that begin no transaction for the cache -/

/-- No refresh awaits the cache with a transaction. -/
def Unprimed (s : ReplicaSync π δ μ) : Prop :=
  ∀ primed, Refresh.loadingCache (some primed) ∉ s.refreshes

section

variable (h : Unprimed s)
include h

theorem Unprimed.leave : Unprimed (s.leave i) := fun primed hmem =>
  h primed (List.mem_of_mem_eraseIdx hmem)

theorem unprimed_startFetching : Unprimed (s.startFetching connection) := by
  unfold startFetching
  cases connection.getOnlineConnection with
  | none => exact h
  | some online =>
    intro primed hmem
    rcases mem_append.mp hmem with hold | hnew
    · exact h primed hold
    · simp at hnew

theorem unprimed_startLoading : Unprimed s.startLoading := by
  intro primed hmem
  rcases mem_append.mp hmem with hold | hnew
  · exact h primed hold
  · simp at hnew

theorem unprimed_failed (transaction : ℕ) : Unprimed (s.failed i transaction) := by
  unfold failed
  cases s.transactions.fail transaction with
  | none => exact h.leave
  | some failed =>
    intro primed hmem
    exact h primed (mem_of_mem_eraseIdx hmem)

theorem unprimed_resume (hresume : s.resume connection cacheLoad i = some s') :
    Unprimed s' := by
  obtain ⟨-, ⟨-, -, rfl⟩ | ⟨-, rfl⟩ | ⟨client, source, -, rfl⟩⟩ := resume_cases hresume
  · exact h.leave
  · exact h.leave
  · intro primed hmem
    rcases mem_or_eq_of_mem_set hmem with hold | hnew
    · exact h primed hold
    · cases hnew

theorem unprimed_page {page : π} (hpage : s.page connection i page = some s') :
    Unprimed s' := by
  obtain ⟨client, source, transaction, -, rfl | rfl⟩ := page_cases hpage
  · exact h
  · exact unprimed_failed h transaction

theorem unprimed_error (herror : s.error i = some s') : Unprimed s' := by
  obtain ⟨client, source, transaction, -, rfl⟩ := error_cases herror
  exact unprimed_failed h transaction

theorem unprimed_complete (hcomplete : s.complete connection i hasMatchingSession = some s') :
    Unprimed s' := by
  obtain ⟨client, source, transaction, -, rfl | ⟨transactions, pages, ds, -, rfl⟩⟩ :=
    complete_cases hcomplete
  · exact unprimed_failed h transaction
  · exact fun primed hmem => h primed (mem_of_mem_eraseIdx hmem)

theorem unprimed_liveDelta {delta : δ} :
    Unprimed (s.liveDelta source delta) := by
  unfold liveDelta
  cases s.transactions.record source delta with
  | none => exact h
  | some transactions => exact h

/-- A refresh that awaits the cache without a transaction leaves nothing behind. -/
theorem leavesNothing_of_unprimed (hresume : s.resume connection cacheLoad i = some s') :
    s.LeavesNothing P cacheLoad i := by
  obtain ⟨⟨primed, hrefresh⟩, -⟩ := resume_cases hresume
  intro _ current _ _ refresh hmem hid
  rw [hrefresh] at hmem
  rw [← some.inj hmem] at hid
  have hprimed : primed = some current.id := hid
  rw [hprimed] at hrefresh
  exact h current.id (mem_of_getElem? hrefresh)

end

end ReplicaSync

/-! ## The directory of a host -/

def Event.agentDelta? {π δ ρ ε : Type*} : Event π δ ρ ε → Option δ
  | .agentUpdate delta => some delta
  | _ => none

def Event.workspaceDelta? {π δ ρ ε : Type*} : Event π δ ρ ε → Option ε
  | .workspaceUpdate delta => some delta
  | _ => none

namespace DirectorySync

open ReplicaSync

variable {π δ ρ ε : Type*} {s s' : DirectorySync π δ ρ ε} {seen events : List (Event π δ ρ ε)}
  {checkpoints : Bool} {event : Event π δ ρ ε}

theorem isCurrent_of_online {connection : DirectoryConnection} {client : ℕ}
    {source : DirectorySourceToken}
    (h : connection.getOnlineConnection = some (client, source)) :
    connection.isCurrent client source = true := by
  unfold DirectoryConnection.getOnlineConnection at h
  split at h
  · next honline =>
    obtain ⟨other, hclient, heq⟩ := map_eq_some_iff.mp h
    injection heq with hother hsource
    simp [DirectoryConnection.isCurrent, hclient, hother, hsource, honline]
  · cases h

/-- A connection that is not told apart from the one before and has not gone offline. -/
theorem online_of_unchanged {before after : DirectoryConnection}
    {online : ℕ × DirectorySourceToken}
    (hchanged : ¬ (before.client ≠ after.client ∨ before.source ≠ after.source))
    (hoffline : ¬ (before.online ∧ ¬ after.online))
    (h : before.getOnlineConnection = some online) : after.getOnlineConnection = some online := by
  simp only [ne_eq, not_or, not_not] at hchanged
  unfold DirectoryConnection.getOnlineConnection at h ⊢
  split at h
  · next honline =>
    have hafter : after.online = true := by
      by_contra hfalse
      exact hoffline ⟨honline, hfalse⟩
    rw [if_pos hafter, ← hchanged.1, ← hchanged.2]
    exact h
  · cases h

/-- What holds after the events seen. -/
structure Inv (seen : List (Event π δ ρ ε)) (s : DirectorySync π δ ρ ε) : Prop where
  agents : Once s.connection (seen.filterMap Event.agentDelta?) s.agents
  workspaces : Once s.connection (seen.filterMap Event.workspaceDelta?) s.workspaces
  /-- live messages come in on the connection that there is -/
  subscribed : ∀ subscription ∈ s.subscription, s.connection.getOnlineConnection = some subscription
  workspaces_backed : Backed (fun _ => True) s.workspaces
  workspaces_unprimed : Unprimed s.workspaces

theorem inv_start : Inv [] (start checkpoints : DirectorySync π δ ρ ε) where
  agents := once_idle
  workspaces := once_idle
  subscribed := fun _ h => nomatch h
  workspaces_backed := Backed.of_none rfl
  workspaces_unprimed := fun _ h => nomatch h

section

variable (h : Inv seen s)
include h

/-- An event that only the agents have a part in. -/
theorem Inv.withAgents {agents : ReplicaSync π δ AgentMessage} (hother : event.workspaceDelta? = none)
    (honce : Once s.connection ((seen ++ [event]).filterMap Event.agentDelta?) agents) :
    Inv (seen ++ [event]) { s with agents } where
  agents := honce
  workspaces := by
    rw [filterMap_append, filterMap_cons_none hother, filterMap_nil,
      append_nil]
    exact h.workspaces
  subscribed := h.subscribed
  workspaces_backed := h.workspaces_backed
  workspaces_unprimed := h.workspaces_unprimed

/-- An event that only the workspaces have a part in. -/
theorem Inv.withWorkspaces {workspaces : ReplicaSync ρ ε Empty} (hother : event.agentDelta? = none)
    (honce : Once s.connection ((seen ++ [event]).filterMap Event.workspaceDelta?) workspaces)
    (hbacked : Backed (fun _ => True) workspaces) (hunprimed : Unprimed workspaces) :
    Inv (seen ++ [event]) { s with workspaces } where
  agents := by
    rw [filterMap_append, filterMap_cons_none hother, filterMap_nil,
      append_nil]
    exact h.agents
  workspaces := honce
  subscribed := h.subscribed
  workspaces_backed := hbacked
  workspaces_unprimed := hunprimed

omit h in
theorem filterMap_snoc_none {α β : Type*} {f : α → Option β} {xs : List α} {x : α}
    (h : f x = none) : (xs ++ [x]).filterMap f = xs.filterMap f := by
  rw [filterMap_append, filterMap_cons_none h, filterMap_nil, append_nil]

theorem Inv.snoc (hagent : event.agentDelta? = none) (hworkspace : event.workspaceDelta? = none) :
    Inv (seen ++ [event]) s where
  agents := by
    rw [filterMap_snoc_none hagent]
    exact h.agents
  workspaces := by
    rw [filterMap_snoc_none hworkspace]
    exact h.workspaces
  subscribed := h.subscribed
  workspaces_backed := h.workspaces_backed
  workspaces_unprimed := h.workspaces_unprimed

theorem Inv.loadCachedDirectory : Inv seen s.loadCachedDirectory := by
  unfold DirectorySync.loadCachedDirectory
  split
  · exact ⟨h.agents, h.workspaces, h.subscribed, h.workspaces_backed, h.workspaces_unprimed⟩
  · exact h

omit h in
theorem inv_connectionChanged (connection : DirectoryConnection) (h : Inv seen s) :
    Inv seen (s.connectionChanged connection) := by
  unfold connectionChanged
  dsimp only
  split
  · next hsame =>
    have honline : ∀ online, s.connection.getOnlineConnection = some online →
        connection.getOnlineConnection = some online :=
      fun online => online_of_unchanged hsame.1 hsame.2
    have hsource : ∀ source, s.connection.getOnlineConnection.map Prod.snd = some source →
        connection.getOnlineConnection.map Prod.snd = some source := by
      intro source hmap
      obtain ⟨online, hbefore, rfl⟩ := map_eq_some_iff.mp hmap
      rw [honline online hbefore]
      rfl
    exact
      { agents := ⟨h.agents.once, fun current hcurrent =>
          hsource _ (h.agents.on current hcurrent)⟩
        workspaces := ⟨h.workspaces.once, fun current hcurrent =>
          hsource _ (h.workspaces.on current hcurrent)⟩
        subscribed := fun subscription hmem => honline _ (h.subscribed subscription hmem)
        workspaces_backed := h.workspaces_backed
        workspaces_unprimed := h.workspaces_unprimed }
  · exact
      { agents := once_flushAborted h.agents
        workspaces := once_flushAborted h.workspaces
        subscribed := fun subscription hmem => hmem
        workspaces_backed := Backed.of_none DirectoryTransactionOwner.current_abort
        workspaces_unprimed := h.workspaces_unprimed }

/-- A message is handled when it comes in: listening ends with the connection. -/
theorem Inv.handled {β : Type*} {client : ℕ} {source : DirectorySourceToken}
    (hsubscription : s.subscription = some (client, source)) (a b : β) :
    (if s.connection.isCurrent client source then a else b) = a :=
  if_pos (isCurrent_of_online (h.subscribed _ hsubscription))

theorem inv_agentUpdate {delta : δ} (hstep : s.step (.agentUpdate delta) = some s') :
    Inv (seen ++ [.agentUpdate delta]) s' ∧ ∃ source, s'.agents = s.agents.liveDelta source delta := by
  obtain ⟨⟨client, source⟩, hsubscription, rfl⟩ := map_eq_some_iff.mp hstep
  dsimp only
  rw [h.handled hsubscription]
  refine ⟨h.withAgents rfl ?_, source, rfl⟩
  rw [filterMap_append]
  exact once_liveDelta delta h.agents (h.subscribed _ hsubscription)

theorem inv_workspaceUpdate {delta : ε} (hstep : s.step (.workspaceUpdate delta) = some s') :
    Inv (seen ++ [.workspaceUpdate delta]) s' := by
  obtain ⟨⟨client, source⟩, hsubscription, rfl⟩ := map_eq_some_iff.mp hstep
  dsimp only
  rw [h.handled hsubscription]
  apply h.withWorkspaces rfl
  · rw [filterMap_append]
    exact once_liveDelta delta h.workspaces (h.subscribed _ hsubscription)
  · exact backed_liveDelta h.workspaces_backed
  · exact unprimed_liveDelta h.workspaces_unprimed

theorem inv_agentMessage {message : AgentMessage} (hstep : s.step (.agentMessage message) = some s') :
    Inv (seen ++ [.agentMessage message]) s' := by
  obtain ⟨⟨client, source⟩, hsubscription, rfl⟩ := map_eq_some_iff.mp hstep
  dsimp only
  rw [h.handled hsubscription]
  apply h.withAgents rfl
  rw [filterMap_snoc_none rfl]
  refine ⟨?_, h.agents.on⟩
  rw [deltas_liveMessage]
  exact h.agents.once

theorem inv_step (hstep : s.step event = some s') :
    Inv (seen ++ [event]) s' := by
  cases event with
  | connectionChanged connection =>
    rw [← some.inj hstep]
    exact (inv_connectionChanged connection h).snoc rfl rfl
  | dispose =>
    rw [← some.inj hstep]
    apply Inv.snoc _ rfl rfl
    exact
      { agents := once_flushAborted h.agents
        workspaces := once_flushAborted h.workspaces
        subscribed := fun _ hmem => nomatch hmem
        workspaces_backed := Backed.of_none DirectoryTransactionOwner.current_abort
        workspaces_unprimed := h.workspaces_unprimed }
  | agentUpdate delta => exact (inv_agentUpdate h hstep).1
  | workspaceUpdate delta => exact inv_workspaceUpdate h hstep
  | agentMessage message => exact inv_agentMessage h hstep
  | loadCachedDirectory =>
    rw [← some.inj hstep]
    exact h.loadCachedDirectory.snoc rfl rfl
  | cacheLoadSettles succeeds =>
    simp only [step] at hstep
    split at hstep
    · rw [← some.inj hstep]
      apply Inv.snoc _ rfl rfl
      exact ⟨h.agents, h.workspaces, h.subscribed, h.workspaces_backed, h.workspaces_unprimed⟩
    · cases hstep
  | refreshAgents loadDirectoryCache =>
    simp only [step] at hstep
    split at hstep
    · rw [← some.inj hstep]
      apply Inv.withAgents h.loadCachedDirectory rfl
      rw [filterMap_snoc_none rfl]
      unfold DirectorySync.loadCachedDirectory
      split
      · exact once_primeForCacheLoad h.agents
      · exact once_primeForCacheLoad h.agents
    · rw [← some.inj hstep]
      apply h.withAgents rfl
      rw [filterMap_snoc_none rfl]
      exact once_startFetching h.agents
  | refreshWorkspaces loadDirectoryCache =>
    simp only [step] at hstep
    split at hstep
    · rw [← some.inj hstep]
      apply Inv.withWorkspaces h.loadCachedDirectory rfl
      · rw [filterMap_snoc_none rfl]
        unfold DirectorySync.loadCachedDirectory
        split
        · exact h.workspaces.refreshes _
        · exact h.workspaces.refreshes _
      · exact backed_startLoading h.workspaces_backed
      · exact unprimed_startLoading h.workspaces_unprimed
    · rw [← some.inj hstep]
      apply h.withWorkspaces rfl
      · rw [filterMap_snoc_none rfl]
        exact once_startFetching h.workspaces
      · exact backed_startFetching h.workspaces_backed
      · exact unprimed_startFetching h.workspaces_unprimed
  | agentsResume i =>
    obtain ⟨agents, hresume, rfl⟩ := map_eq_some_iff.mp hstep
    apply h.withAgents rfl
    rw [filterMap_snoc_none rfl]
    exact once_resume h.agents hresume
  | workspacesResume i =>
    obtain ⟨workspaces, hresume, rfl⟩ := map_eq_some_iff.mp hstep
    apply h.withWorkspaces rfl
    · rw [filterMap_snoc_none rfl]
      exact once_resume h.workspaces hresume
    · exact backed_resume h.workspaces_backed h.workspaces.on
        (leavesNothing_of_unprimed h.workspaces_unprimed hresume) hresume
    · exact unprimed_resume h.workspaces_unprimed hresume
  | agentsPage i page =>
    obtain ⟨agents, hpage, rfl⟩ := map_eq_some_iff.mp hstep
    apply h.withAgents rfl
    rw [filterMap_snoc_none rfl]
    exact once_page h.agents hpage
  | workspacesPage i page =>
    obtain ⟨workspaces, hpage, rfl⟩ := map_eq_some_iff.mp hstep
    apply h.withWorkspaces rfl
    · rw [filterMap_snoc_none rfl]
      exact once_page h.workspaces hpage
    · exact backed_page h.workspaces_backed hpage
    · exact unprimed_page h.workspaces_unprimed hpage
  | agentsError i =>
    obtain ⟨agents, herror, rfl⟩ := map_eq_some_iff.mp hstep
    obtain ⟨client, source, transaction, -, rfl⟩ := error_cases herror
    apply h.withAgents rfl
    rw [filterMap_snoc_none rfl]
    exact once_failed h.agents transaction
  | workspacesError i =>
    obtain ⟨workspaces, herror, rfl⟩ := map_eq_some_iff.mp hstep
    apply h.withWorkspaces rfl
    · rw [filterMap_snoc_none rfl]
      obtain ⟨client, source, transaction, -, rfl⟩ := error_cases herror
      exact once_failed h.workspaces transaction
    · exact backed_error h.workspaces_backed herror
    · exact unprimed_error h.workspaces_unprimed herror
  | agentsComplete i hasMatchingSession =>
    obtain ⟨agents, hcomplete, rfl⟩ := map_eq_some_iff.mp hstep
    apply h.withAgents rfl
    rw [filterMap_snoc_none rfl]
    exact once_complete h.agents hcomplete
  | workspacesComplete i hasMatchingSession =>
    obtain ⟨workspaces, hcomplete, rfl⟩ := map_eq_some_iff.mp hstep
    apply h.withWorkspaces rfl
    · rw [filterMap_snoc_none rfl]
      exact once_complete h.workspaces hcomplete
    · exact backed_complete h.workspaces_backed hcomplete
    · exact unprimed_complete h.workspaces_unprimed hcomplete

/-! ## Transactions that a failed cache load leaves behind -/

/-- A load of the cache that fails leaves no agent deltas behind, and no agent delta comes in
over a transaction that was left behind. -/
def StrandsNothing (s : DirectorySync π δ ρ ε) : Event π δ ρ ε → Prop
  | .agentsResume i => s.agents.LeavesNothing (· ≠ []) s.cacheLoad i
  | .agentUpdate _ => s.agents.Backed fun _ => True
  | _ => True

/-- No step of a run strands a delta. -/
def RunStrandsNothing (s : DirectorySync π δ ρ ε) : List (Event π δ ρ ε) → Prop
  | [] => True
  | event :: events => s.StrandsNothing event ∧
      ∀ s' ∈ s.step event, s'.RunStrandsNothing events

instance : (event : Event π δ ρ ε) → Decidable (s.StrandsNothing event)
  | .agentsResume i => inferInstanceAs (Decidable (s.agents.LeavesNothing (· ≠ []) s.cacheLoad i))
  | .agentUpdate _ => inferInstanceAs (Decidable (s.agents.Backed fun _ => True))
  | .connectionChanged _ => .isTrue trivial
  | .dispose => .isTrue trivial
  | .workspaceUpdate _ => .isTrue trivial
  | .agentMessage _ => .isTrue trivial
  | .loadCachedDirectory => .isTrue trivial
  | .cacheLoadSettles _ => .isTrue trivial
  | .refreshAgents _ => .isTrue trivial
  | .refreshWorkspaces _ => .isTrue trivial
  | .workspacesResume _ => .isTrue trivial
  | .agentsPage _ _ => .isTrue trivial
  | .workspacesPage _ _ => .isTrue trivial
  | .agentsError _ => .isTrue trivial
  | .workspacesError _ => .isTrue trivial
  | .agentsComplete _ _ => .isTrue trivial
  | .workspacesComplete _ _ => .isTrue trivial

/-- Whether a run strands a delta can be computed. -/
def decideRunStrandsNothing (s : DirectorySync π δ ρ ε) :
    (events : List (Event π δ ρ ε)) → Decidable (s.RunStrandsNothing events)
  | [] => .isTrue trivial
  | event :: events =>
    have := fun s' : DirectorySync π δ ρ ε => decideRunStrandsNothing s' events
    inferInstanceAs (Decidable (_ ∧ ∀ s' ∈ s.step event, _))

instance : Decidable (s.RunStrandsNothing events) := decideRunStrandsNothing s events

theorem agents_backed_step (hbacked : s.agents.Backed (· ≠ [])) (hstrands : s.StrandsNothing event)
    (hstep : s.step event = some s') : s'.agents.Backed (· ≠ []) := by
  cases event with
  | connectionChanged connection =>
    rw [← some.inj hstep]
    unfold connectionChanged
    dsimp only
    split
    · exact hbacked
    · exact Backed.of_none DirectoryTransactionOwner.current_abort
  | dispose =>
    rw [← some.inj hstep]
    exact Backed.of_none DirectoryTransactionOwner.current_abort
  | agentUpdate delta =>
    obtain ⟨-, source, hagents⟩ := inv_agentUpdate h hstep
    rw [hagents]
    exact backed_liveDelta hstrands
  | workspaceUpdate delta =>
    obtain ⟨⟨client, source⟩, hsubscription, rfl⟩ := map_eq_some_iff.mp hstep
    dsimp only
    rw [h.handled hsubscription]
    exact hbacked
  | agentMessage message =>
    obtain ⟨⟨client, source⟩, hsubscription, rfl⟩ := map_eq_some_iff.mp hstep
    dsimp only
    rw [h.handled hsubscription]
    exact hbacked
  | loadCachedDirectory =>
    rw [← some.inj hstep]
    unfold DirectorySync.loadCachedDirectory
    split <;> exact hbacked
  | cacheLoadSettles succeeds =>
    simp only [step] at hstep
    split at hstep
    · rw [← some.inj hstep]
      exact hbacked
    · cases hstep
  | refreshAgents loadDirectoryCache =>
    simp only [step] at hstep
    split at hstep
    · rw [← some.inj hstep]
      exact backed_primeForCacheLoad hbacked
    · rw [← some.inj hstep]
      exact backed_startFetching hbacked
  | refreshWorkspaces loadDirectoryCache =>
    simp only [step] at hstep
    split at hstep
    · rw [← some.inj hstep]
      unfold DirectorySync.loadCachedDirectory
      split <;> exact hbacked
    · rw [← some.inj hstep]
      exact hbacked
  | agentsResume i =>
    obtain ⟨agents, hresume, rfl⟩ := map_eq_some_iff.mp hstep
    exact backed_resume hbacked h.agents.on hstrands hresume
  | workspacesResume i =>
    obtain ⟨workspaces, -, rfl⟩ := map_eq_some_iff.mp hstep
    exact hbacked
  | agentsPage i page =>
    obtain ⟨agents, hpage, rfl⟩ := map_eq_some_iff.mp hstep
    exact backed_page hbacked hpage
  | workspacesPage i page =>
    obtain ⟨workspaces, -, rfl⟩ := map_eq_some_iff.mp hstep
    exact hbacked
  | agentsError i =>
    obtain ⟨agents, herror, rfl⟩ := map_eq_some_iff.mp hstep
    exact backed_error hbacked herror
  | workspacesError i =>
    obtain ⟨workspaces, -, rfl⟩ := map_eq_some_iff.mp hstep
    exact hbacked
  | agentsComplete i hasMatchingSession =>
    obtain ⟨agents, hcomplete, rfl⟩ := map_eq_some_iff.mp hstep
    exact backed_complete hbacked hcomplete
  | workspacesComplete i hasMatchingSession =>
    obtain ⟨workspaces, -, rfl⟩ := map_eq_some_iff.mp hstep
    exact hbacked

/-- Over a run, with or without a load of the cache that fails. -/
theorem inv_run (hrun : s.run events = some s') : Inv (seen ++ events) s' := by
  induction events generalizing s seen with
  | nil =>
    rw [append_nil, ← some.inj hrun]
    exact h
  | cons event events ih =>
    obtain ⟨next, hnext, hrun⟩ := bind_eq_some_iff.mp hrun
    have hrest := ih (inv_step h hnext) hrun
    rwa [append_assoc] at hrest

theorem agents_backed_run (hbacked : s.agents.Backed (· ≠ [])) (hstrands : s.RunStrandsNothing events)
    (hrun : s.run events = some s') :
    s'.agents.Backed (· ≠ []) := by
  induction events generalizing s seen with
  | nil =>
    rw [← some.inj hrun]
    exact hbacked
  | cons event events ih =>
    obtain ⟨next, hnext, hrun⟩ := bind_eq_some_iff.mp hrun
    exact ih (inv_step h hnext) (agents_backed_step h hbacked hstrands.1 hnext)
      (hstrands.2 next hnext) hrun

end

end DirectorySync

/-- What is promised of the deltas that came in with the events of a run. -/
structure AppliedOnce {π δ ρ ε : Type*} (events : List (Event π δ ρ ε))
    (s : DirectorySync π δ ρ ε) : Prop where
  /-- in the order of arrival, each has been applied or waits in the current transaction -/
  agents_once : s.agents.deltas ++ s.agents.transactions.buffered =
    events.filterMap Event.agentDelta?
  workspaces_once : s.workspaces.deltas ++ s.workspaces.transactions.buffered =
    events.filterMap Event.workspaceDelta?
  /-- deltas wait for a refresh that is on its way -/
  agents_awaited : s.agents.Backed (· ≠ [])
  workspaces_awaited : s.workspaces.Backed (· ≠ [])
  agents_settled : s.agents.refreshes = [] → s.agents.deltas = events.filterMap Event.agentDelta?
  workspaces_settled : s.workspaces.refreshes = [] →
    s.workspaces.deltas = events.filterMap Event.workspaceDelta?

open DirectorySync ReplicaSync in
/-- In every run that strands no delta, each delta is applied exactly once, in order. -/
theorem deltas_applied_once {π δ ρ ε : Type*} {checkpoints : Bool}
    {events : List (Event π δ ρ ε)} {s : DirectorySync π δ ρ ε}
    (hstrands : (start checkpoints).RunStrandsNothing events)
    (hrun : (start checkpoints).run events = some s) : AppliedOnce events s := by
  have h : Inv events s := inv_run inv_start hrun
  have hagents : s.agents.Backed (· ≠ []) :=
    agents_backed_run inv_start (Backed.of_none rfl) hstrands hrun
  have hworkspaces : s.workspaces.Backed (· ≠ []) :=
    fun current hcurrent _ => h.workspaces_backed current hcurrent trivial
  constructor
  · exact h.agents.once
  · exact h.workspaces.once
  · exact hagents
  · exact hworkspaces
  · intro hrefreshes
    rw [← h.agents.once, hagents.buffered_eq_nil hrefreshes, List.append_nil]
  · intro hrefreshes
    rw [← h.workspaces.once, hworkspaces.buffered_eq_nil hrefreshes, List.append_nil]

/-! ## A delta that is never applied -/

/-- A host that is connected. -/
def connected : DirectoryConnection := ⟨some 1, true, ⟨1, 1⟩⟩

/-- Agents are refreshed while two deltas come in, and the second refresh takes over. -/
def supersededRefresh : List (Event ℕ ℕ ℕ ℕ) :=
  [.connectionChanged connected, .refreshAgents true, .agentUpdate 1, .cacheLoadSettles true,
    .agentsResume 0, .refreshAgents false, .agentUpdate 2, .agentsPage 1 0, .agentsComplete 0 true,
    .agentsComplete 0 true]

/-- The cache of the directory cannot be read when agents are refreshed. -/
def unreadableCache : List (Event ℕ ℕ ℕ ℕ) :=
  [.connectionChanged connected, .refreshAgents true, .agentUpdate 1, .cacheLoadSettles false,
    .agentsResume 0, .agentUpdate 2]

theorem deltas_applied_once_superseded :
    ∃ s, (DirectorySync.start true).run supersededRefresh = some s ∧
      AppliedOnce supersededRefresh s := by
  have hstrands : (DirectorySync.start true).RunStrandsNothing supersededRefresh := by
    decide +kernel
  exact ⟨_, rfl, deltas_applied_once hstrands rfl⟩

/-- The transaction begun for the load of the cache stays current, and takes the deltas. -/
theorem unreadable_cache_strands :
    ∃ s, (DirectorySync.start true).run unreadableCache = some s ∧ s.agents.refreshes = [] ∧
      s.agents.deltas = [] ∧ ¬ AppliedOnce unreadableCache s := by
  refine ⟨_, rfl, rfl, rfl, ?_⟩
  intro h
  have hdeltas := h.agents_settled rfl
  exact absurd hdeltas (by decide)

end Orqara.Directory
