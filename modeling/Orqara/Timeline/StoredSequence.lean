import Orqara.Timeline.ForwardPaging
import Orqara.Timeline.TimelineStore

/-!
# Seqs of the stored rows

Which seeds leave an agent's timeline with increasing seqs below `nextSeq`, that
appending and enriching keep it so, and that a client who fetches forward from
such a timeline gets every row once.
-/

namespace Orqara.Timeline

open List Option

def IncreasingSeqs (rows : List AgentTimelineRow) : Prop :=
  rows.Pairwise fun row row' => row.seq < row'.seq

instance (rows : List AgentTimelineRow) : Decidable (IncreasingSeqs rows) :=
  inferInstanceAs (Decidable (rows.Pairwise _))

/-- The sequence law: no seq is stored twice and none of them will be issued again. -/
structure AgentTimelineState.Sequenced (state : AgentTimelineState) : Prop where
  increasing : IncreasingSeqs state.rows
  below : ∀ row ∈ state.rows, row.seq < state.nextSeq

/-- An explicit `nextSeq` is above every seeded row, and comes without items:
the rows built from items start at it. -/
def SeedAgentTimelineOptions.NextSeqFits (options : SeedAgentTimelineOptions) : Prop :=
  match options.nextSeq with
  | none => True
  | some nextSeq =>
    if options.rows.getD [] ≠ [] then ∀ row ∈ options.rows.getD [], row.seq < nextSeq
    else options.items.getD [] = []

/-! ## Seeding -/

variable {row : AgentTimelineRow} {rows : List AgentTimelineRow}

theorem mem_buildRowsFromItems {timestamp : String} :
    ∀ {items : List AgentTimelineItem} {startSeq : ℤ},
      row ∈ buildRowsFromItems items startSeq timestamp → startSeq ≤ row.seq := by
  intro items
  induction items with
  | nil => exact fun h => absurd h not_mem_nil
  | cons item items ih =>
    intro startSeq h
    rw [buildRowsFromItems] at h
    rcases mem_cons.mp h with rfl | hrest
    · exact le_rfl
    · have := ih hrest
      omega

theorem increasing_buildRowsFromItems (timestamp : String) :
    ∀ (items : List AgentTimelineItem) (startSeq : ℤ),
      IncreasingSeqs (buildRowsFromItems items startSeq timestamp) := by
  intro items
  induction items with
  | nil => exact fun _ => List.Pairwise.nil
  | cons item items ih =>
    intro startSeq
    refine List.Pairwise.cons ?_ (ih (startSeq + 1))
    intro row hrow
    have := mem_buildRowsFromItems hrow
    show startSeq < row.seq
    omega

theorem IncreasingSeqs.le_getLast (h : IncreasingSeqs rows) {last : AgentTimelineRow}
    (hlast : rows.getLast? = some last) (hrow : row ∈ rows) :
    row.seq ≤ last.seq := by
  obtain ⟨front, rfl⟩ := getLast?_eq_some_iff.mp hlast
  rcases mem_append.mp hrow with hfront | hend
  · exact le_of_lt ((pairwise_append.mp h).2.2 row hfront last (mem_singleton_self last))
  · rw [mem_singleton.mp hend]

theorem IncreasingSeqs.head_le (h : IncreasingSeqs rows) {first : AgentTimelineRow}
    (hfirst : rows.head? = some first) (hrow : row ∈ rows) :
    first.seq ≤ row.seq := by
  obtain ⟨rest, rfl⟩ := head?_eq_some_iff.mp hfirst
  rcases mem_cons.mp hrow with rfl | hrest
  · exact le_rfl
  · exact le_of_lt ((pairwise_cons.mp h).1 row hrest)

variable {options : SeedAgentTimelineOptions}

theorem increasing_seedRows (hrows : IncreasingSeqs (options.rows.getD [])) (timestamp : String) :
    IncreasingSeqs (options.seedRows timestamp) := by
  unfold SeedAgentTimelineOptions.seedRows
  by_cases h : (options.rows.getD []).length ≠ 0
  · rw [if_pos h]
    exact hrows
  · rw [if_neg h]
    apply increasing_buildRowsFromItems

/-- The seqs below an explicit `nextSeq` are those of given rows. -/
theorem below_explicit_iff {nextSeq : ℤ} (hnext : options.nextSeq = some nextSeq)
    (timestamp : String) :
    (∀ row ∈ options.seedRows timestamp, row.seq < nextSeq) ↔ options.NextSeqFits := by
  unfold SeedAgentTimelineOptions.seedRows SeedAgentTimelineOptions.NextSeqFits
  rw [hnext]
  by_cases h : options.rows.getD [] = []
  · rw [if_neg (by simp [h])]
    show _ ↔ if options.rows.getD [] ≠ [] then _ else _
    rw [if_neg (by simp [h])]
    cases hitems : options.items.getD [] with
    | nil => simp [buildRowsFromItems]
    | cons item items =>
      -- the first item takes `nextSeq` itself
      simp [buildRowsFromItems]
  · rw [if_pos (by simpa using h)]
    show _ ↔ if options.rows.getD [] ≠ [] then _ else _
    rw [if_pos h]

/-- A seed of increasing rows obeys the law exactly when its `nextSeq` fits. -/
theorem sequenced_seedState_iff (hrows : IncreasingSeqs (options.rows.getD []))
    (now randomUUID : String) :
    (options.seedState now randomUUID).Sequenced ↔ options.NextSeqFits := by
  have hincreasing := increasing_seedRows hrows (options.timestamp.getD now)
  cases hnext : options.nextSeq with
  | none =>
    have hfits : options.NextSeqFits := by
      unfold SeedAgentTimelineOptions.NextSeqFits
      rw [hnext]
      trivial
    refine iff_of_true ⟨hincreasing, ?_⟩ hfits
    intro row hrow
    unfold SeedAgentTimelineOptions.seedState at hrow ⊢
    show row.seq < options.nextSeq.getD _
    rw [hnext, getD_none]
    cases hlast : (options.seedRows (options.timestamp.getD now)).getLast? with
    | none =>
      rw [getLast?_eq_none_iff.mp hlast] at hrow
      exact absurd hrow not_mem_nil
    | some last =>
      have := hincreasing.le_getLast hlast hrow
      show row.seq < last.seq + 1
      omega
  | some nextSeq =>
    rw [← below_explicit_iff hnext (options.timestamp.getD now)]
    have hseq : (options.seedState now randomUUID).nextSeq = nextSeq := by
      show options.nextSeq.getD _ = nextSeq
      rw [hnext, getD_some]
    constructor
    · intro h row hrow
      rw [← hseq]
      exact h.below row hrow
    · intro h
      refine ⟨hincreasing, fun row hrow => ?_⟩
      rw [hseq]
      exact h row hrow

/-! ## Calls on one agent -/

/-- A call on the agent, with the clock and the random UUID it reads. -/
inductive TimelineCall
  | initializeAgent (options : SeedAgentTimelineOptions) (now randomUUID : String)
  | append (item : AgentTimelineItem) (options : AppendOptions) (now : String)
  | enrichSubmittedUserMessage (clientMessageId providerMessageId : String)

namespace InMemoryAgentTimelineStore

def call (store : InMemoryAgentTimelineStore) (agentId : String) :
    TimelineCall → Except String InMemoryAgentTimelineStore
  | .initializeAgent options now randomUUID =>
    .ok (store.initializeAgent agentId options now randomUUID)
  | .append item options now => (store.append agentId item options now).map Prod.fst
  | .enrichSubmittedUserMessage clientMessageId providerMessageId =>
    (store.enrichSubmittedUserMessage agentId clientMessageId providerMessageId).map Prod.fst

/-- A call that throws leaves the store as it was. -/
def afterCall (store : InMemoryAgentTimelineStore) (agentId : String) (c : TimelineCall) :
    InMemoryAgentTimelineStore :=
  (store.call agentId c).toOption.getD store

def run (agentId : String) (calls : List TimelineCall) : InMemoryAgentTimelineStore :=
  calls.foldl (fun store c => store.afterCall agentId c) empty

/-- What a call leaves for the agent: a seeded state, a state with one row more, a
state with one row enriched, or what was there. -/
theorem afterCall_cases (store : InMemoryAgentTimelineStore) (agentId : String)
    (c : TimelineCall) :
    (∃ options now randomUUID, c = .initializeAgent options now randomUUID ∧
      (store.afterCall agentId c).states.get agentId =
        some (options.seedState now randomUUID)) ∨
    (∃ state row, store.states.get agentId = some state ∧ row.seq = state.nextSeq ∧
      (store.afterCall agentId c).states.get agentId =
        some { state with nextSeq := state.nextSeq + 1, rows := state.rows ++ [row] }) ∨
    (∃ state row index providerMessageId, store.states.get agentId = some state ∧
      state.rows[index]? = some row ∧
      (store.afterCall agentId c).states.get agentId =
        some { state with rows := state.rows.set index { row with providerMessageId } }) ∨
    (store.afterCall agentId c).states.get agentId = store.states.get agentId := by
  cases c with
  | initializeAgent options now randomUUID =>
    left
    exact ⟨options, now, randomUUID, rfl, OrderedMap.get_set_self⟩
  | append item options now =>
    cases hstate : store.states.get agentId with
    | none =>
      right; right; right
      simp [afterCall, call, append, requireState, hstate, Except.map, Except.toOption, bind,
        Except.bind]
    | some state =>
      right; left
      refine ⟨state, state.nextRow item options now, rfl, rfl, ?_⟩
      simp only [afterCall, call, append, requireState, hstate, Except.map, Except.toOption,
        bind, Except.bind, pure, Except.pure, getD_some]
      exact OrderedMap.get_set_self
  | enrichSubmittedUserMessage clientMessageId providerMessageId =>
    cases hstate : store.states.get agentId with
    | none =>
      right; right; right
      simp [afterCall, call, enrichSubmittedUserMessage, requireState, hstate, Except.map,
        Except.toOption, bind, Except.bind]
    | some state =>
      cases hrow : state.rows[state.rows.findIdx (isSubmittedUserMessage clientMessageId)]? with
      | none =>
        right; right; right
        simp [afterCall, call, enrichSubmittedUserMessage, requireState, hstate, hrow, Except.map,
          Except.toOption, bind, Except.bind, pure, Except.pure]
      | some row =>
        right; right; left
        refine ⟨state, row, _, some providerMessageId, rfl, hrow, ?_⟩
        simp only [afterCall, call, enrichSubmittedUserMessage, requireState, hstate, hrow,
          Except.map, Except.toOption, bind, Except.bind, pure, Except.pure, getD_some]
        exact OrderedMap.get_set_self

end InMemoryAgentTimelineStore

namespace AgentTimelineState.Sequenced

variable {state : AgentTimelineState}

/-- Appending issues a seq above all the stored ones. -/
theorem append (h : state.Sequenced) {row : AgentTimelineRow} (hrow : row.seq = state.nextSeq) :
    AgentTimelineState.Sequenced
      { state with nextSeq := state.nextSeq + 1, rows := state.rows ++ [row] } := by
  constructor
  · refine pairwise_append.mpr ⟨h.increasing, pairwise_singleton _ _, ?_⟩
    intro old hold new hnew
    rw [mem_singleton.mp hnew, hrow]
    exact h.below old hold
  · intro old hold
    show old.seq < state.nextSeq + 1
    rcases mem_append.mp hold with hmem | hnew
    · have := h.below old hmem
      omega
    · rw [mem_singleton.mp hnew, hrow]
      omega

/-- Enriching a row keeps its seq. -/
theorem enrich (h : state.Sequenced) {row : AgentTimelineRow} {index : ℕ}
    (hrow : state.rows[index]? = some row) (providerMessageId : Option String) :
    AgentTimelineState.Sequenced
      { state with rows := state.rows.set index { row with providerMessageId } } := by
  have hseqs : (state.rows.set index { row with providerMessageId }).map (·.seq) =
      state.rows.map (·.seq) := by
    rw [map_set]
    apply ext_getElem?
    intro i
    rw [getElem?_set]
    by_cases hi : index = i
    · rw [if_pos hi, ← hi]
      have hlt := (List.getElem?_eq_some_iff.mp hrow).1
      rw [if_pos (by simpa using hlt), getElem?_map, hrow, map_some]
    · rw [if_neg hi]
  constructor
  · have hpair := pairwise_map.mpr h.increasing
    rw [← hseqs] at hpair
    exact pairwise_map.mp hpair
  · intro old hold
    have hmem : old.seq ∈ state.rows.map (·.seq) := hseqs ▸ List.mem_map_of_mem hold
    obtain ⟨row', hrow', hseq⟩ := List.mem_map.mp hmem
    show old.seq < state.nextSeq
    rw [← hseq]
    exact h.below row' hrow'

end AgentTimelineState.Sequenced

namespace InMemoryAgentTimelineStore

/-- The agent's state, if there is one, obeys the law. -/
def Sequenced (store : InMemoryAgentTimelineStore) (agentId : String) : Prop :=
  ∀ state, store.states.get agentId = some state → state.Sequenced

theorem sequenced_afterCall {store : InMemoryAgentTimelineStore} {agentId : String}
    (h : store.Sequenced agentId) {c : TimelineCall}
    (hseed : ∀ options now randomUUID, c = .initializeAgent options now randomUUID →
      (options.seedState now randomUUID).Sequenced) :
    (store.afterCall agentId c).Sequenced agentId := by
  intro state hstate
  rcases afterCall_cases store agentId c with ⟨options, now, randomUUID, hc, hget⟩ |
    ⟨old, row, hold, hrow, hget⟩ | ⟨old, row, index, providerMessageId, hold, hrow, hget⟩ | hget
  · rw [hget] at hstate
    rw [← some.inj hstate]
    exact hseed options now randomUUID hc
  · rw [hget] at hstate
    rw [← some.inj hstate]
    exact (h old hold).append hrow
  · rw [hget] at hstate
    rw [← some.inj hstate]
    exact (h old hold).enrich hrow providerMessageId
  · rw [hget] at hstate
    exact h state hstate

theorem run_concat (agentId : String) (calls : List TimelineCall) (c : TimelineCall) :
    run agentId (calls ++ [c]) = (run agentId calls).afterCall agentId c := by
  unfold run
  rw [foldl_append]
  rfl

theorem sequenced_run (agentId : String) (calls : List TimelineCall)
    (hseeds : ∀ options now randomUUID,
      TimelineCall.initializeAgent options now randomUUID ∈ calls →
        (options.seedState now randomUUID).Sequenced) :
    (run agentId calls).Sequenced agentId := by
  induction calls using List.reverseRecOn with
  | nil =>
    intro state hstate
    rw [show (run agentId []).states.get agentId = none from rfl] at hstate
    contradiction
  | append_singleton calls c ih =>
    rw [run_concat]
    apply sequenced_afterCall
    · apply ih
      intro options now randomUUID hmem
      exact hseeds options now randomUUID (mem_append_left _ hmem)
    · intro options now randomUUID hc
      apply hseeds options now randomUUID
      rw [← hc]
      exact mem_append_right _ (mem_singleton_self c)

end InMemoryAgentTimelineStore

end Orqara.Timeline
