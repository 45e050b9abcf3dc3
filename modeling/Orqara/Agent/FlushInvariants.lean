import Orqara.Agent.CoalescedEntries

/-!
# What flushes keep

The invariants of the coalescer: what every buffer, every timeout and the running flush
have to do with each other, and with what was handled and flushed.
-/

namespace Orqara.Agent

open Orqara.Timeline List Option

/-! ## Buffers -/

/-- The index of tool calls is that of the entries. -/
def PendingAgentStreamBuffer.Indexed (buffer : PendingAgentStreamBuffer) : Prop :=
  ∀ callId i, buffer.toolCallEntryIndexes.get callId = some i ↔
    ∃ entry, buffer.entries[i]? = some entry ∧ entry.callId? = some callId

variable {entries : List PendingAgentStreamEntry}

/-- An update goes to the only place of its tool call. -/
theorem place_eq_set {entry previous : PendingAgentStreamEntry} {callId : String} {i : ℕ}
    (hentry : entry.callId? = some callId) (hi : entries[i]? = some previous)
    (hprevious : previous.callId? = some callId)
    (honly : ∀ j x, entries[j]? = some x → x.callId? = some callId → j = i) :
    place entries entry = entries.set i entry := by
  induction entries generalizing i with
  | nil => simp at hi
  | cons head entries ih =>
    rw [place]
    cases i with
    | zero =>
      have hhead : head = previous := by simpa using hi
      rw [if_pos (updates_iff.mpr ⟨callId, hentry, by rw [hhead, hprevious]⟩)]
      rfl
    | succ i =>
      have hnot : ¬ entry.updates head = true := by
        intro hupdates
        obtain ⟨own, hown, hhead⟩ := updates_iff.mp hupdates
        rw [hentry] at hown
        rw [← hown] at hhead
        have := honly 0 head (by simp) hhead
        omega
      rw [if_neg hnot, set_cons_succ]
      congr 1
      apply ih (by simpa using hi)
      intro j x hj hx
      have := honly (j + 1) x (by simpa using hj) hx
      omega

theorem getElem?_concat_eq_some {entry x : PendingAgentStreamEntry} {i : ℕ} :
    (entries ++ [entry])[i]? = some x ↔
      entries[i]? = some x ∨ (i = entries.length ∧ entry = x) := by
  rw [getElem?_append]
  split
  · constructor
    · exact .inl
    · rintro (h | ⟨heq, -⟩)
      · exact h
      · omega
  · have hnone : entries[i]? = none := getElem?_eq_none (by omega)
    rw [hnone, getElem?_singleton]
    split
    · simp only [Option.some.injEq, reduceCtorEq, false_or]
      exact ⟨fun h => ⟨by omega, h⟩, fun h => h.2⟩
    · simp only [reduceCtorEq, false_or, false_iff]
      intro h
      omega

namespace PendingAgentStreamBuffer

variable {buffer : PendingAgentStreamBuffer} {entry : PendingAgentStreamEntry}

/-- Appending to a buffer places the entry. -/
theorem entries_appendToBuffer (h : buffer.Indexed) :
    (appendToBuffer buffer entry).entries = place buffer.entries entry := by
  unfold appendToBuffer
  cases hentry : entry.callId? with
  | none =>
    symm
    apply place_end
    intro x _ hupdates
    obtain ⟨callId, hcall, -⟩ := updates_iff.mp hupdates
    rw [hentry] at hcall
    cases hcall
  | some callId =>
    dsimp only
    split
    · rename_i existingIndex hget
      obtain ⟨previous, hprevious, hcall⟩ := (h callId existingIndex).mp hget
      symm
      apply place_eq_set hentry hprevious hcall
      intro j x hj hx
      have hindex := (h callId j).mpr ⟨x, hj, hx⟩
      rw [hget] at hindex
      exact (some.inj hindex).symm
    · rename_i hget
      symm
      apply place_end
      intro x hx hupdates
      obtain ⟨i, hi⟩ := getElem?_of_mem hx
      have hindex := (h callId i).mpr ⟨x, hi, (updates_of_callId hentry).mp hupdates⟩
      rw [hget] at hindex
      cases hindex

theorem Indexed.appendToBuffer (h : buffer.Indexed) : (appendToBuffer buffer entry).Indexed := by
  intro callId i
  unfold Agent.appendToBuffer
  cases hentry : entry.callId? with
  | none =>
    show buffer.toolCallEntryIndexes.get callId = some i ↔
      ∃ x, (buffer.entries ++ [entry])[i]? = some x ∧ x.callId? = some callId
    rw [h callId i]
    constructor
    · rintro ⟨x, hx, hcall⟩
      exact ⟨x, getElem?_concat_eq_some.mpr (.inl hx), hcall⟩
    · rintro ⟨x, hx, hcall⟩
      rcases getElem?_concat_eq_some.mp hx with hold | ⟨-, heq⟩
      · exact ⟨x, hold, hcall⟩
      · rw [← heq, hentry] at hcall
        cases hcall
  | some own =>
    dsimp only
    split
    · rename_i existingIndex hget
      obtain ⟨previous, hprevious, hown⟩ := (h own existingIndex).mp hget
      obtain ⟨hlt, -⟩ := List.getElem?_eq_some_iff.mp hprevious
      show buffer.toolCallEntryIndexes.get callId = some i ↔
        ∃ x, (buffer.entries.set existingIndex entry)[i]? = some x ∧ x.callId? = some callId
      rw [h callId i, getElem?_set]
      by_cases hi : existingIndex = i
      · -- the new entry is of the call that the old one was of
        rw [if_pos hi, if_pos hlt, ← hi, hprevious]
        simp [hentry, hown]
      · rw [if_neg hi]
    · rename_i hget
      show (buffer.toolCallEntryIndexes.set own buffer.entries.length).get callId = some i ↔
        ∃ x, (buffer.entries ++ [entry])[i]? = some x ∧ x.callId? = some callId
      rw [OrderedMap.get_set]
      by_cases hcall : callId = own
      · rw [if_pos hcall, hcall]
        constructor
        · intro hi
          exact ⟨entry, getElem?_concat_eq_some.mpr (.inr ⟨(some.inj hi).symm, rfl⟩), hentry⟩
        · rintro ⟨x, hx, hxcall⟩
          rcases getElem?_concat_eq_some.mp hx with hold | ⟨hi, -⟩
          · have hindex := (h own i).mpr ⟨x, hold, hxcall⟩
            rw [hget] at hindex
            cases hindex
          · rw [hi]
      · rw [if_neg hcall, h callId i]
        constructor
        · rintro ⟨x, hx, hxcall⟩
          exact ⟨x, getElem?_concat_eq_some.mpr (.inl hx), hxcall⟩
        · rintro ⟨x, hx, hxcall⟩
          rcases getElem?_concat_eq_some.mp hx with hold | ⟨-, heq⟩
          · exact ⟨x, hold, hxcall⟩
          · rw [← heq, hentry] at hxcall
            exact absurd (some.inj hxcall).symm hcall

theorem indexed_nil (h : buffer.entries = []) (hindexes : buffer.toolCallEntryIndexes = ∅) :
    buffer.Indexed := by
  intro callId i
  simp [h, hindexes]

/-- Only the entries and their index change. -/
theorem appendToBuffer_same (buffer : PendingAgentStreamBuffer) (entry : PendingAgentStreamEntry) :
    (Agent.appendToBuffer buffer entry).id = buffer.id ∧
      (Agent.appendToBuffer buffer entry).timer = buffer.timer ∧
      (Agent.appendToBuffer buffer entry).flushing = buffer.flushing ∧
      (Agent.appendToBuffer buffer entry).lastFlushAt = buffer.lastFlushAt := by
  unfold Agent.appendToBuffer
  split
  · simp
  · split
    · simp
    · simp

end PendingAgentStreamBuffer

namespace AgentStreamCoalescer

/-- The entries of a running flush that `onFlush` was not called with yet. -/
def undelivered (c : AgentStreamCoalescer) (agentId : String) : List PendingAgentStreamEntry :=
  match c.running with
  | some flush => if flush.agentId = agentId then flush.remaining else []
  | none => []

def sent (c : AgentStreamCoalescer) (agentId : String) : List PendingAgentStreamEntry :=
  c.flushed agentId ++ c.undelivered agentId

def buffered (c : AgentStreamCoalescer) (agentId : String) : List PendingAgentStreamEntry :=
  ((c.buffers.get agentId).map (·.entries)).getD []

def flushes (c : AgentStreamCoalescer) (agentId : String) : Bool :=
  c.running.any (·.agentId = agentId)

/-! ## Invariants -/

structure Wired (c : AgentStreamCoalescer) : Prop where
  indexed : ∀ agentId buffer, c.buffers.get agentId = some buffer → buffer.Indexed
  flushing : ∀ agentId buffer, c.buffers.get agentId = some buffer →
    buffer.flushing = c.flushes agentId
  present : ∀ agentId, c.flushes agentId = true → c.buffers.get agentId ≠ none

/-- The timeouts are the timers of the buffers. -/
structure Timed (c : AgentStreamCoalescer) : Prop where
  pending : ∀ timeout, timeout ∈ c.timeouts ↔ ∃ buffer,
    c.buffers.get timeout.agentId = some buffer ∧ buffer.id = timeout.bufferId ∧
      buffer.timer = some timeout.id
  fresh : ∀ timeout ∈ c.timeouts, timeout.id < c.nextId
  unique : ∀ a ∈ c.timeouts, ∀ b ∈ c.timeouts, a.id = b.id → a = b

structure Kept (c : AgentStreamCoalescer) : Prop where
  told : ∀ agentId, ∃ waiting, Told (c.handled agentId) (c.sent agentId) waiting ∧
    c.buffered agentId = placed waiting
  discarding : ∀ flush ∈ c.running, flush.discards = true → c.buffered flush.agentId = []

structure Sound (c : AgentStreamCoalescer) : Prop where
  wired : Wired c
  timed : Timed c
  kept : Kept c

/-- A buffer with entries has a timer. -/
def ArmedAt (c : AgentStreamCoalescer) (agentId : String) : Prop :=
  ∀ buffer, c.buffers.get agentId = some buffer → buffer.entries ≠ [] → buffer.timer.isSome = true

section SetBuffer

variable {c c' : AgentStreamCoalescer} {agentId : String} {buffer : PendingAgentStreamBuffer}
  {value : Option PendingAgentStreamBuffer}

/-- The buffer of one agent is set. -/
def Sets (c c' : AgentStreamCoalescer) (agentId : String)
    (buffer : Option PendingAgentStreamBuffer) : Prop :=
  ∀ other, c'.buffers.get other = if other = agentId then buffer else c.buffers.get other

section

variable (h : Sets c c' agentId value)
include h

theorem Sets.self :
    c'.buffers.get agentId = value := by
  rw [h, if_pos rfl]

theorem Sets.other {other : String} (hother : other ≠ agentId) :
    c'.buffers.get other = c.buffers.get other := by
  rw [h, if_neg hother]

theorem Sets.buffered_other {other : String} (hother : other ≠ agentId) :
    c'.buffered other = c.buffered other := by
  rw [buffered, h.other hother, buffered]

end

theorem Wired.sets (h : Wired c) (hsets : Sets c c' agentId (some buffer))
    (hindexed : buffer.Indexed) (hflushing : buffer.flushing = c'.flushes agentId)
    (hothers : ∀ other, other ≠ agentId → c'.flushes other = c.flushes other) : Wired c' where
  indexed := by
    intro other buffer' hget
    by_cases hother : other = agentId
    · rw [hother, hsets.self] at hget
      exact some.inj hget ▸ hindexed
    · rw [hsets.other hother] at hget
      exact h.indexed other buffer' hget
  flushing := by
    intro other buffer' hget
    by_cases hother : other = agentId
    · rw [hother, hsets.self] at hget
      rw [← some.inj hget, hother, hflushing]
    · rw [hsets.other hother] at hget
      rw [h.flushing other buffer' hget, hothers other hother]
  present := by
    intro other hflushes
    by_cases hother : other = agentId
    · rw [hother, hsets.self]
      simp
    · rw [hsets.other hother]
      exact h.present other (hothers other hother ▸ hflushes)

theorem Kept.sets (h : Kept c) (hsets : Sets c c' agentId value)
    (htold : ∃ waiting, Told (c'.handled agentId) (c'.sent agentId) waiting ∧
      c'.buffered agentId = placed waiting) (hothers : ∀ other, other ≠ agentId →
      c'.handled other = c.handled other ∧ c'.sent other = c.sent other)
    (hdiscarding : ∀ flush ∈ c'.running, flush.discards = true → c'.buffered flush.agentId = []) :
    Kept c' where
  told := by
    intro other
    by_cases hother : other = agentId
    · rw [hother]
      exact htold
    · obtain ⟨hhandled, hsent⟩ := hothers other hother
      rw [hhandled, hsent, hsets.buffered_other hother]
      exact h.told other
  discarding := hdiscarding

/-- Nothing about timers changes. -/
theorem Timed.sets (h : Timed c) (hsets : Sets c c' agentId (some buffer))
    (htimeouts : c'.timeouts = c.timeouts) (hnext : c.nextId ≤ c'.nextId)
    (hsame : ∀ timer, buffer.timer = some timer ↔
      ∃ old, c.buffers.get agentId = some old ∧ old.id = buffer.id ∧ old.timer = some timer)
    (hid : ∀ old, c.buffers.get agentId = some old → old.id = buffer.id) : Timed c' where
  pending := by
    intro timeout
    rw [htimeouts, h.pending timeout]
    by_cases hagent : timeout.agentId = agentId
    · rw [hagent, hsets.self]
      constructor
      · rintro ⟨old, hold, hbuffer, htimer⟩
        exact ⟨buffer, rfl, (hid old hold).symm.trans hbuffer,
          (hsame timeout.id).mpr ⟨old, hold, hid old hold, htimer⟩⟩
      · rintro ⟨found, hfound, hbuffer, htimer⟩
        rw [← some.inj hfound] at hbuffer htimer
        obtain ⟨old, hold, hsameId, holdTimer⟩ := (hsame timeout.id).mp htimer
        exact ⟨old, hold, hsameId.trans hbuffer, holdTimer⟩
    · rw [hsets.other hagent]
  fresh := by
    intro timeout hmem
    rw [htimeouts] at hmem
    exact lt_of_lt_of_le (h.fresh timeout hmem) hnext
  unique := by
    rw [htimeouts]
    exact h.unique

end SetBuffer

/-! ## Timers -/

section Timers

variable {c : AgentStreamCoalescer} {agentId : String} {buffer : PendingAgentStreamBuffer}

theorem sets_setBuffer : Sets c (c.setBuffer agentId buffer) agentId (some buffer) :=
  fun other => OrderedMap.get_set c.buffers agentId other buffer

theorem sets_clearTimer (h : c.buffers.get agentId = some buffer) :
    Sets c (c.clearTimer agentId buffer) agentId (some { buffer with timer := none }) := by
  unfold clearTimer
  cases htimer : buffer.timer with
  | none =>
    intro other
    by_cases hother : other = agentId
    · rw [if_pos hother, hother, h, ← htimer]
    · rw [if_neg hother]
  | some timer => exact sets_setBuffer

theorem clearTimer_same (c : AgentStreamCoalescer) (agentId : String)
    (buffer : PendingAgentStreamBuffer) :
    (c.clearTimer agentId buffer).running = c.running ∧
      (c.clearTimer agentId buffer).handled = c.handled ∧
      (c.clearTimer agentId buffer).flushed = c.flushed := by
  unfold clearTimer
  cases buffer.timer with
  | none => simp
  | some timer => simp [setBuffer]

theorem Timed.clearTimer (h : Timed c) (hget : c.buffers.get agentId = some buffer) :
    Timed (c.clearTimer agentId buffer) := by
  have hsets := sets_clearTimer hget
  have hmem : ∀ timeout, timeout ∈ (c.clearTimer agentId buffer).timeouts ↔
      timeout ∈ c.timeouts ∧ buffer.timer ≠ some timeout.id := by
    intro timeout
    unfold AgentStreamCoalescer.clearTimer
    cases htimer : buffer.timer with
    | none => simp
    | some timer =>
      simp only [mem_filter, decide_eq_true_eq, ne_eq, Option.some.injEq]
      rw [eq_comm (a := timer)]
  have hnext : (c.clearTimer agentId buffer).nextId = c.nextId := by
    unfold AgentStreamCoalescer.clearTimer
    cases buffer.timer with
    | none => rfl
    | some timer => rfl
  constructor
  · intro timeout
    rw [hmem, h.pending]
    by_cases hagent : timeout.agentId = agentId
    · rw [hagent, hsets.self]
      constructor
      · rintro ⟨⟨found, hfound, -, htimer⟩, hne⟩
        rw [hget] at hfound
        exact absurd (some.inj hfound ▸ htimer) hne
      · rintro ⟨found, hfound, -, htimer⟩
        rw [← some.inj hfound] at htimer
        cases htimer
    · rw [hsets.other hagent]
      constructor
      · exact fun hfound => hfound.1
      · intro hfound
        refine ⟨hfound, ?_⟩
        intro htimer
        -- two timeouts of one id are one, so its agent is this one
        have hown : { id := timeout.id, agentId, bufferId := buffer.id } ∈ c.timeouts :=
          (h.pending _).mpr ⟨buffer, hget, rfl, htimer⟩
        have hsame := h.unique timeout ((h.pending timeout).mpr hfound) _ hown rfl
        rw [hsame] at hagent
        exact hagent rfl
  · intro timeout hfound
    rw [hnext]
    exact h.fresh timeout ((hmem timeout).mp hfound).1
  · intro a ha b hb
    exact h.unique a ((hmem a).mp ha).1 b ((hmem b).mp hb).1

theorem sets_scheduleFlush (c : AgentStreamCoalescer) (agentId : String)
    (buffer : PendingAgentStreamBuffer) : Sets c (c.scheduleFlush agentId buffer) agentId
    (some { buffer with timer := some c.nextId }) := sets_setBuffer

theorem Timed.scheduleFlush (h : Timed c) (hget : c.buffers.get agentId = some buffer)
    (htimer : buffer.timer = none) : Timed (c.scheduleFlush agentId buffer) := by
  have hsets := sets_scheduleFlush c agentId buffer
  have hmem : ∀ timeout, timeout ∈ (c.scheduleFlush agentId buffer).timeouts ↔
      timeout ∈ c.timeouts ∨ timeout = { id := c.nextId, agentId, bufferId := buffer.id } := by
    intro timeout
    simp [AgentStreamCoalescer.scheduleFlush]
  constructor
  · intro timeout
    rw [hmem, h.pending]
    by_cases hagent : timeout.agentId = agentId
    · rw [hagent, hsets.self]
      constructor
      · rintro (⟨found, hfound, -, hfoundTimer⟩ | rfl)
        · rw [hget] at hfound
          rw [← some.inj hfound, htimer] at hfoundTimer
          cases hfoundTimer
        · exact ⟨_, rfl, rfl, rfl⟩
      · rintro ⟨found, hfound, hid, hfoundTimer⟩
        rw [← some.inj hfound] at hid hfoundTimer
        right
        have hnew : c.nextId = timeout.id := some.inj hfoundTimer
        cases timeout
        simp_all
    · rw [hsets.other hagent]
      constructor
      · rintro (hfound | rfl)
        · exact hfound
        · exact absurd rfl hagent
      · exact .inl
  · intro timeout hfound
    show timeout.id < c.nextId + 1
    rcases (hmem timeout).mp hfound with hold | rfl
    · have := h.fresh timeout hold
      omega
    · exact Nat.lt_succ_self _
  · intro a ha b hb hid
    rcases (hmem a).mp ha with ha | rfl
    · rcases (hmem b).mp hb with hb | rfl
      · exact h.unique a ha b hb hid
      · have := h.fresh a ha
        dsimp only at hid
        omega
    · rcases (hmem b).mp hb with hb | rfl
      · have := h.fresh b hb
        dsimp only at hid
        omega
      · rfl

end Timers

/-! ## Flushes -/

section Flushes

variable {c : AgentStreamCoalescer} {agentId : String} {buffer : PendingAgentStreamBuffer}
  {flush : RunningFlush} {c' : AgentStreamCoalescer}

theorem buffered_of_get (h : c.buffers.get agentId = some buffer) :
    c.buffered agentId = buffer.entries := by
  simp [buffered, h]

section

variable (h : c.running = none)
include h

theorem flushes_eq_false (agentId : String) : c.flushes agentId = false := by
  simp [flushes, h]

theorem undelivered_eq_nil (agentId : String) :
    c.undelivered agentId = [] := by
  simp [undelivered, h]

theorem sent_of_not_running (agentId : String) :
    c.sent agentId = c.flushed agentId := by
  rw [sent, undelivered_eq_nil h, append_nil]

end

/-- Delivering moves entries from those that are still to come. -/
theorem sent_deliver (c : AgentStreamCoalescer) (flush : RunningFlush) (agentId : String) :
    (c.deliver flush).sent agentId =
      c.flushed agentId ++ if flush.agentId = agentId then flush.remaining else [] := by
  unfold deliver
  split
  · rename_i hremaining
    simp [sent, undelivered]
  · rename_i entry remaining hremaining
    by_cases hagent : flush.agentId = agentId
    · simp [sent, undelivered, hremaining, hagent]
    · have hother : ¬ agentId = flush.agentId := fun heq => hagent heq.symm
      simp [sent, undelivered, hagent, Function.update_of_ne hother]

theorem deliver_same (c : AgentStreamCoalescer) (flush : RunningFlush) :
    (c.deliver flush).buffers = c.buffers ∧ (c.deliver flush).timeouts = c.timeouts ∧
      (c.deliver flush).nextId = c.nextId ∧ (c.deliver flush).handled = c.handled := by
  unfold deliver
  split
  · simp
  · simp

/-- A running flush goes on with one entry less. -/
theorem running_deliver (c : AgentStreamCoalescer) (flush : RunningFlush) :
    (c.deliver flush).running = some { flush with remaining := flush.remaining.tail } := by
  unfold deliver
  split
  · rename_i hremaining
    rw [hremaining, tail_nil, ← hremaining]
  · rename_i entry remaining hremaining
    rw [hremaining, tail_cons]

/-- The buffer that a flush leaves behind. -/
def taken (buffer : PendingAgentStreamBuffer) (now : ℤ) : PendingAgentStreamBuffer :=
  { buffer with
    entries := [], toolCallEntryIndexes := ∅, timer := none, flushing := true
    lastFlushAt := some now }

def startFlush (c : AgentStreamCoalescer) (agentId : String) (buffer : PendingAgentStreamBuffer)
    (now : ℤ) (discards : Bool) (nextAgents : List String) : AgentStreamCoalescer :=
  ((c.clearTimer agentId buffer).setBuffer agentId (taken buffer now)).deliver
    { agentId, remaining := collapseEntries buffer.entries, discards, nextAgents }

/-- What flushing does when no flush is running. -/
theorem flushBuffer_cases (h : Wired c) (hrunning : c.running = none) (agentId : String)
    (expectedBuffer : Option ℕ) (now : ℤ) (discards : Bool) (nextAgents : List String) :
    (c.flushBuffer agentId expectedBuffer now discards nextAgents = c ∧
      (expectedBuffer = none → c.buffers.get agentId = none)) ∨
    (∃ buffer, c.buffers.get agentId = some buffer ∧ buffer.entries = [] ∧
      c.flushBuffer agentId expectedBuffer now discards nextAgents =
        c.clearTimer agentId buffer) ∨
    (∃ buffer, c.buffers.get agentId = some buffer ∧ buffer.entries ≠ [] ∧
      c.flushBuffer agentId expectedBuffer now discards nextAgents =
        c.startFlush agentId buffer now discards nextAgents) := by
  unfold flushBuffer
  cases hget : c.buffers.get agentId with
  | none => exact .inl ⟨rfl, fun _ => rfl⟩
  | some buffer =>
    have hflushing : buffer.flushing = false := by
      rw [h.flushing agentId buffer hget, flushes_eq_false hrunning]
    dsimp only
    by_cases hexpected : expectedBuffer.any (· ≠ buffer.id) = true
    · rw [if_pos hexpected]
      refine .inl ⟨rfl, ?_⟩
      rintro rfl
      cases hexpected
    · rw [if_neg hexpected, if_neg (by simp [hflushing])]
      by_cases hentries : buffer.entries = []
      · rw [if_pos hentries]
        exact .inr (.inl ⟨buffer, rfl, hentries, rfl⟩)
      · rw [if_neg hentries]
        exact .inr (.inr ⟨buffer, rfl, hentries, rfl⟩)

/-- A buffer that is being flushed is not flushed again. -/
theorem flushBuffer_of_flushes (h : Wired c) (hflushes : c.flushes agentId = true)
    (expectedBuffer : Option ℕ) (now : ℤ) (discards : Bool) (nextAgents : List String) :
    c.flushBuffer agentId expectedBuffer now discards nextAgents = c := by
  unfold flushBuffer
  cases hget : c.buffers.get agentId with
  | none => rfl
  | some buffer =>
    have hflushing : buffer.flushing = true := by
      rw [h.flushing agentId buffer hget, hflushes]
    simp [hflushing]

theorem sets_startFlush (hget : c.buffers.get agentId = some buffer) (now : ℤ) (discards : Bool)
    (nextAgents : List String) :
    Sets c (c.startFlush agentId buffer now discards nextAgents) agentId
      (some (taken buffer now)) := by
  intro other
  rw [startFlush, (deliver_same ..).1]
  by_cases hother : other = agentId
  · rw [hother, sets_setBuffer.self, if_pos rfl]
  · rw [sets_setBuffer.other hother, (sets_clearTimer hget).other hother, if_neg hother]

section

variable (now : ℤ)

section

variable (discards : Bool)

section

variable (nextAgents : List String)

theorem running_startFlush :
    (c.startFlush agentId buffer now discards nextAgents).running =
      some { agentId, remaining := (collapseEntries buffer.entries).tail, discards, nextAgents } :=
  running_deliver ..

theorem flushes_startFlush (other : String) :
    (c.startFlush agentId buffer now discards nextAgents).flushes other =
      decide (agentId = other) := by
  simp [flushes, running_startFlush]

theorem sent_startFlush (other : String) :
    (c.startFlush agentId buffer now discards nextAgents).sent other =
      c.flushed other ++ if agentId = other then collapseEntries buffer.entries else [] := by
  rw [startFlush, sent_deliver]
  congr 1
  exact congrFun (clearTimer_same c agentId buffer).2.2 other

theorem handled_startFlush :
    (c.startFlush agentId buffer now discards nextAgents).handled = c.handled := by
  rw [startFlush, (deliver_same ..).2.2.2]
  exact (clearTimer_same c agentId buffer).2.1

end

end

theorem Wired.startFlush (h : Wired c) (hget : c.buffers.get agentId = some buffer)
    (hrunning : c.running = none) (now : ℤ) (discards : Bool) (nextAgents : List String) :
    Wired (c.startFlush agentId buffer now discards nextAgents) := by
  apply h.sets (sets_startFlush hget now discards nextAgents)
  · exact PendingAgentStreamBuffer.indexed_nil rfl rfl
  · rw [flushes_startFlush]
    simp [taken]
  · intro other hother
    rw [flushes_startFlush, flushes_eq_false hrunning]
    simpa using fun heq => hother heq.symm

theorem Kept.startFlush (h : Kept c) (hget : c.buffers.get agentId = some buffer)
    (hrunning : c.running = none) (now : ℤ) (discards : Bool) (nextAgents : List String) :
    Kept (c.startFlush agentId buffer now discards nextAgents) := by
  have hsets := sets_startFlush hget now discards nextAgents
  have hempty : (c.startFlush agentId buffer now discards nextAgents).buffered agentId = [] := by
    rw [buffered_of_get hsets.self]
    rfl
  apply h.sets hsets
  · obtain ⟨waiting, htold, hplaced⟩ := h.told agentId
    rw [handled_startFlush, sent_startFlush, if_pos rfl, hempty]
    rw [sent_of_not_running hrunning] at htold
    rw [buffered_of_get hget] at hplaced
    refine ⟨[], ?_, rfl⟩
    rw [hplaced]
    exact htold.flush (coalesces_collapseEntries waiting)
  · intro other hother
    have hne : ¬ agentId = other := fun heq => hother heq.symm
    rw [handled_startFlush, sent_startFlush, if_neg hne, append_nil,
      sent_of_not_running hrunning]
    exact ⟨rfl, rfl⟩
  · intro flush hflush _
    rw [running_startFlush, mem_some_iff] at hflush
    rw [← hflush]
    exact hempty

theorem Timed.startFlush (h : Timed c) (hget : c.buffers.get agentId = some buffer) (now : ℤ)
    (discards : Bool) (nextAgents : List String) :
    Timed (c.startFlush agentId buffer now discards nextAgents) := by
  have hclear := sets_clearTimer hget
  have hsets : Sets (c.clearTimer agentId buffer)
      (c.startFlush agentId buffer now discards nextAgents) agentId (some (taken buffer now)) := by
    intro other
    rw [sets_startFlush hget now discards nextAgents other]
    by_cases hother : other = agentId
    · rw [if_pos hother, if_pos hother]
    · rw [if_neg hother, if_neg hother, hclear.other hother]
  apply (h.clearTimer hget).sets hsets
  · exact (deliver_same ..).2.1
  · rw [AgentStreamCoalescer.startFlush, (deliver_same ..).2.2.1]
    exact le_rfl
  · intro timer
    rw [hclear.self]
    simp [taken]
  · intro old hold
    rw [hclear.self] at hold
    rw [← some.inj hold]
    rfl

/-- Only the timer of a buffer changes. -/
theorem Wired.setTimer (h : Wired c) (hget : c.buffers.get agentId = some buffer) {timer : Option ℕ}
    (hsets : Sets c c' agentId (some { buffer with timer })) (hrunning : c'.running = c.running) :
    Wired c' := by
  have hflushes : ∀ other, c'.flushes other = c.flushes other := by
    intro other
    rw [flushes, hrunning, flushes]
  apply h.sets hsets
  · exact h.indexed agentId buffer hget
  · rw [hflushes]
    exact h.flushing agentId buffer hget
  · exact fun other _ => hflushes other

theorem Kept.setTimer (h : Kept c) (hget : c.buffers.get agentId = some buffer) {timer : Option ℕ}
    (hsets : Sets c c' agentId (some { buffer with timer }))
    (hsame : c'.running = c.running ∧ c'.handled = c.handled ∧ c'.flushed = c.flushed) :
    Kept c' := by
  obtain ⟨hrunning, hhandled, hflushed⟩ := hsame
  have hsent : ∀ other, c'.sent other = c.sent other := by
    intro other
    rw [sent, undelivered, hrunning, hflushed, sent, undelivered]
  have hbuffered : ∀ other, c'.buffered other = c.buffered other := by
    intro other
    by_cases hother : other = agentId
    · rw [hother, buffered_of_get hsets.self, buffered_of_get hget]
    · exact hsets.buffered_other hother
  apply h.sets hsets
  · rw [hhandled, hsent, hbuffered]
    exact h.told agentId
  · exact fun other _ => ⟨congrFun hhandled other, hsent other⟩
  · intro flush hflush hdiscards
    rw [hbuffered]
    exact h.discarding flush (hrunning ▸ hflush) hdiscards

theorem Sound.clearTimer (h : Sound c) (hget : c.buffers.get agentId = some buffer) :
    Sound (c.clearTimer agentId buffer) where
  wired := h.wired.setTimer hget (sets_clearTimer hget) (clearTimer_same ..).1
  timed := h.timed.clearTimer hget
  kept := h.kept.setTimer hget (sets_clearTimer hget) (clearTimer_same ..)

theorem Sound.scheduleFlush (h : Sound c) (hget : c.buffers.get agentId = some buffer)
    (htimer : buffer.timer = none) : Sound (c.scheduleFlush agentId buffer) where
  wired := h.wired.setTimer hget (sets_scheduleFlush c agentId buffer) rfl
  timed := h.timed.scheduleFlush hget htimer
  kept := h.kept.setTimer hget (sets_scheduleFlush c agentId buffer) ⟨rfl, rfl, rfl⟩

theorem Sound.flushBuffer (h : Sound c) (hrunning : c.running = none) (agentId : String)
    (expectedBuffer : Option ℕ) (now : ℤ) (discards : Bool) (nextAgents : List String) :
    Sound (c.flushBuffer agentId expectedBuffer now discards nextAgents) := by
  rcases flushBuffer_cases h.wired hrunning agentId expectedBuffer now discards nextAgents with
    ⟨hsame, -⟩ | ⟨buffer, hget, -, hclear⟩ | ⟨buffer, hget, -, hstart⟩
  · rw [hsame]
    exact h
  · rw [hclear]
    exact h.clearTimer hget
  · rw [hstart]
    exact ⟨h.wired.startFlush hget hrunning now discards nextAgents,
      h.timed.startFlush hget now discards nextAgents,
      h.kept.startFlush hget hrunning now discards nextAgents⟩

/-- When flushing starts nothing, there is nothing to flush. -/
theorem buffered_flushBuffer (h : Sound c) (hrunning : c.running = none) (agentId : String)
    (now : ℤ) (discards : Bool) (nextAgents : List String) :
    (c.flushBuffer agentId none now discards nextAgents).buffered agentId = [] := by
  rcases flushBuffer_cases h.wired hrunning agentId none now discards nextAgents with
    ⟨hsame, hnone⟩ | ⟨buffer, hget, hentries, hclear⟩ | ⟨buffer, hget, -, hstart⟩
  · rw [hsame, buffered, hnone rfl]
    rfl
  · rw [hclear, buffered_of_get (sets_clearTimer hget).self]
    exact hentries
  · rw [hstart, buffered_of_get (sets_startFlush hget now discards nextAgents).self]
    rfl

theorem ArmedAt.flushBuffer (h : Wired c) (hrunning : c.running = none)
    (expectedBuffer : Option ℕ) (hothers : ∀ other, other ≠ agentId → c.ArmedAt other)
    (hself : expectedBuffer ≠ none → c.ArmedAt agentId) (now : ℤ) (discards : Bool)
    (nextAgents : List String) (other : String) :
    (c.flushBuffer agentId expectedBuffer now discards nextAgents).ArmedAt other := by
  rcases flushBuffer_cases h hrunning agentId expectedBuffer now discards nextAgents with
    ⟨hsame, hnone⟩ | ⟨buffer, hget, hentries, hclear⟩ | ⟨buffer, hget, -, hstart⟩
  · rw [hsame]
    by_cases hother : other = agentId
    · rw [hother]
      by_cases hexpected : expectedBuffer = none
      · intro buffer hget
        rw [hnone hexpected] at hget
        cases hget
      · exact hself hexpected
    · exact hothers other hother
  · rw [hclear]
    intro buffer' hget' hentries'
    have hsets := sets_clearTimer hget
    by_cases hother : other = agentId
    · rw [hother, hsets.self] at hget'
      rw [← some.inj hget'] at hentries'
      exact absurd hentries hentries'
    · rw [hsets.other hother] at hget'
      exact hothers other hother buffer' hget' hentries'
  · rw [hstart]
    intro buffer' hget' hentries'
    have hsets := sets_startFlush hget now discards nextAgents
    by_cases hother : other = agentId
    · rw [hother, hsets.self] at hget'
      rw [← some.inj hget'] at hentries'
      exact absurd rfl hentries'
    · rw [hsets.other hother] at hget'
      exact hothers other hother buffer' hget' hentries'

theorem sets_discard (c : AgentStreamCoalescer) (agentId : String) :
    Sets c (c.discard agentId) agentId none := by
  intro other
  unfold discard
  cases hget : c.buffers.get agentId with
  | none =>
    by_cases hother : other = agentId
    · rw [if_pos hother, hother, hget]
    · rw [if_neg hother]
  | some buffer =>
    dsimp only
    rw [OrderedMap.get_delete]
    by_cases hother : other = agentId
    · rw [if_pos hother, if_pos hother]
    · rw [if_neg hother, if_neg hother, (sets_clearTimer hget).other hother]

theorem discard_same (c : AgentStreamCoalescer) (agentId : String) :
    (c.discard agentId).running = c.running ∧ (c.discard agentId).handled = c.handled ∧
      (c.discard agentId).flushed = c.flushed := by
  unfold discard
  split
  · simp
  · exact clearTimer_same ..

theorem Wired.discard (h : Wired c) (hrunning : c.running = none) (agentId : String) :
    Wired (c.discard agentId) := by
  have hrun := (discard_same c agentId).1.trans hrunning
  have hold : ∀ other buffer, (c.discard agentId).buffers.get other = some buffer →
      c.buffers.get other = some buffer := by
    intro other buffer hget
    rw [sets_discard c agentId other] at hget
    split at hget
    · cases hget
    · exact hget
  constructor
  · exact fun other buffer hget => h.indexed other buffer (hold other buffer hget)
  · intro other buffer hget
    rw [h.flushing other buffer (hold other buffer hget), flushes_eq_false hrunning,
      flushes_eq_false hrun]
  · intro other hflushes
    rw [flushes_eq_false hrun] at hflushes
    cases hflushes

theorem Timed.discard (h : Timed c) (agentId : String) : Timed (c.discard agentId) := by
  cases hget : c.buffers.get agentId with
  | none =>
    rw [AgentStreamCoalescer.discard, hget]
    exact h
  | some buffer =>
    have hclear := h.clearTimer hget
    have hsets := sets_discard c agentId
    have htimeouts : (c.discard agentId).timeouts = (c.clearTimer agentId buffer).timeouts := by
      rw [AgentStreamCoalescer.discard, hget]
    have hnext : (c.discard agentId).nextId = (c.clearTimer agentId buffer).nextId := by
      rw [AgentStreamCoalescer.discard, hget]
    constructor
    · intro timeout
      rw [htimeouts, hclear.pending, hsets, sets_clearTimer hget]
      by_cases hagent : timeout.agentId = agentId
      · rw [if_pos hagent, if_pos hagent]
        simp
      · rw [if_neg hagent, if_neg hagent]
    · rw [htimeouts, hnext]
      exact hclear.fresh
    · rw [htimeouts]
      exact hclear.unique

/-- A buffer without entries is discarded without loss. -/
theorem Kept.discard (h : Kept c) (hrunning : c.running = none)
    (hbuffered : c.buffered agentId = []) : Kept (c.discard agentId) := by
  obtain ⟨hrun, hhandled, hflushed⟩ := discard_same c agentId
  rw [hrunning] at hrun
  have hsent : ∀ other, (c.discard agentId).sent other = c.sent other := by
    intro other
    rw [sent_of_not_running hrun, sent_of_not_running hrunning, hflushed]
  have hempty : (c.discard agentId).buffered agentId = [] := by
    simp [buffered, (sets_discard c agentId).self]
  apply h.sets (sets_discard c agentId)
  · rw [hhandled, hsent, hempty, ← hbuffered]
    exact h.told agentId
  · exact fun other _ => ⟨congrFun hhandled other, hsent other⟩
  · intro flush hflush
    rw [hrun] at hflush
    cases hflush

theorem Sound.discard (h : Sound c) (hrunning : c.running = none)
    (hbuffered : c.buffered agentId = []) : Sound (c.discard agentId) :=
  ⟨h.wired.discard hrunning agentId, h.timed.discard agentId, h.kept.discard hrunning hbuffered⟩

theorem ArmedAt.discard (h : ∀ other, c.ArmedAt other) (agentId other : String) :
    (c.discard agentId).ArmedAt other := by
  intro buffer hget hentries
  rw [sets_discard c agentId other] at hget
  split at hget
  · cases hget
  · exact h other buffer hget hentries

/-- The loop over agents keeps what flushing a buffer keeps. -/
theorem Sound.flushEach (agentIds : List String) :
    ∀ c : AgentStreamCoalescer, Sound c → c.running = none → Sound (flushEach now agentIds c) := by
  induction agentIds with
  | nil => exact fun c h _ => h
  | cons agentId agentIds ih =>
    intro c h hrunning
    have hflush := h.flushBuffer hrunning agentId none now false agentIds
    rw [AgentStreamCoalescer.flushEach]
    by_cases hstarted : (c.flushBuffer agentId none now false agentIds).running.isSome = true
    · rw [if_pos hstarted]
      exact hflush
    · rw [if_neg hstarted]
      exact ih _ hflush (by simpa using hstarted)

theorem ArmedAt.flushEach (agentIds : List String) :
    ∀ c : AgentStreamCoalescer, Sound c → c.running = none → (∀ other, c.ArmedAt other) →
      ∀ other, (AgentStreamCoalescer.flushEach now agentIds c).ArmedAt other := by
  induction agentIds with
  | nil => exact fun c _ _ h => h
  | cons agentId agentIds ih =>
    intro c h hrunning harmed
    have hflush := h.flushBuffer hrunning agentId none now false agentIds
    have hflushArmed := ArmedAt.flushBuffer h.wired hrunning none
      (fun other _ => harmed other) (fun _ => harmed agentId) now false agentIds
    rw [AgentStreamCoalescer.flushEach]
    by_cases hstarted : (c.flushBuffer agentId none now false agentIds).running.isSome = true
    · rw [if_pos hstarted]
      exact hflushArmed
    · rw [if_neg hstarted]
      exact ih _ hflush (by simpa using hstarted) hflushArmed

end

/-! ## When `onFlush` returns -/

theorem flushes_of_running (h : c.running = some flush) (other : String) :
    c.flushes other = decide (flush.agentId = other) := by
  simp [flushes, h]

theorem sent_of_running (h : c.running = some flush) (other : String) :
    c.sent other = c.flushed other ++ if flush.agentId = other then flush.remaining else [] := by
  rw [sent, undelivered, h]

theorem Sound.deliver (h : Sound c) (hrunning : c.running = some flush) :
    Sound (c.deliver flush) := by
  obtain ⟨hbuffers, htimeouts, hnext, hhandled⟩ := deliver_same c flush
  have hrun := running_deliver c flush
  have hflushes : ∀ other, (c.deliver flush).flushes other = c.flushes other := by
    intro other
    rw [flushes_of_running hrun, flushes_of_running hrunning]
  have hbuffered : ∀ other, (c.deliver flush).buffered other = c.buffered other := by
    intro other
    rw [buffered, hbuffers, buffered]
  refine ⟨⟨?_, ?_, ?_⟩, ⟨?_, ?_, ?_⟩, ⟨?_, ?_⟩⟩
  · rw [hbuffers]
    exact h.wired.indexed
  · intro other
    rw [hbuffers, hflushes]
    exact h.wired.flushing other
  · intro other
    rw [hbuffers, hflushes]
    exact h.wired.present other
  · rw [hbuffers, htimeouts]
    exact h.timed.pending
  · rw [htimeouts, hnext]
    exact h.timed.fresh
  · rw [htimeouts]
    exact h.timed.unique
  · intro other
    rw [hhandled, hbuffered, sent_deliver, ← sent_of_running hrunning]
    exact h.kept.told other
  · intro flush' hflush' hdiscards
    rw [hrun, mem_some_iff] at hflush'
    rw [hbuffered, ← hflush']
    rw [← hflush'] at hdiscards
    exact h.kept.discarding flush hrunning hdiscards

theorem finishFlush_same (c : AgentStreamCoalescer) (agentId : String) :
    (c.finishFlush agentId).timeouts = c.timeouts ∧ (c.finishFlush agentId).nextId = c.nextId ∧
      (c.finishFlush agentId).handled = c.handled ∧ (c.finishFlush agentId).flushed = c.flushed ∧
      (c.finishFlush agentId).running = none := by
  unfold finishFlush
  split
  · simp
  · simp [setBuffer]

theorem sets_finishFlush (hget : c.buffers.get agentId = some buffer) :
    Sets c (c.finishFlush agentId) agentId (some { buffer with flushing := false }) := by
  rw [finishFlush, hget]
  exact sets_setBuffer

theorem buffered_finishFlush (hget : c.buffers.get agentId = some buffer) (other : String) :
    (c.finishFlush agentId).buffered other = c.buffered other := by
  have hsets := sets_finishFlush hget
  by_cases hother : other = agentId
  · rw [hother, buffered_of_get hsets.self, buffered_of_get hget]
  · exact hsets.buffered_other hother

theorem Sound.finishFlush (h : Sound c) (hrunning : c.running = some flush)
    (hremaining : flush.remaining = []) (hget : c.buffers.get flush.agentId = some buffer) :
    Sound (c.finishFlush flush.agentId) := by
  obtain ⟨htimeouts, hnext, hhandled, hflushed, hrun⟩ := finishFlush_same c flush.agentId
  have hsets := sets_finishFlush hget
  have hsent : ∀ other, (c.finishFlush flush.agentId).sent other = c.sent other := by
    intro other
    rw [sent_of_not_running hrun, sent_of_running hrunning, hflushed, hremaining]
    simp
  refine ⟨?_, ?_, ?_⟩
  · apply h.wired.sets hsets
    · exact h.wired.indexed flush.agentId buffer hget
    · exact (flushes_eq_false hrun _).symm
    · intro other hother
      rw [flushes_eq_false hrun, flushes_of_running hrunning]
      simpa using fun heq => hother heq.symm
  · apply h.timed.sets hsets htimeouts hnext.ge
    · intro timer
      rw [hget]
      simp
    · intro old hold
      rw [hget] at hold
      rw [← some.inj hold]
  · apply h.kept.sets hsets
    · rw [hhandled, hsent, buffered_finishFlush hget]
      exact h.kept.told flush.agentId
    · exact fun other _ => ⟨congrFun hhandled other, hsent other⟩
    · intro flush' hflush'
      rw [hrun] at hflush'
      cases hflush'

/-- The state in which the caller of a finished flush goes on. -/
def afterFlush (c : AgentStreamCoalescer) (flush : RunningFlush) : AgentStreamCoalescer :=
  if flush.discards then (c.finishFlush flush.agentId).discard flush.agentId
  else c.finishFlush flush.agentId

theorem running_afterFlush (c : AgentStreamCoalescer) (flush : RunningFlush) :
    (c.afterFlush flush).running = none := by
  have hfinish := (finishFlush_same c flush.agentId).2.2.2.2
  unfold afterFlush
  split
  · exact (discard_same ..).1.trans hfinish
  · exact hfinish

theorem present_of_running (h : Wired c) (hrunning : c.running = some flush) :
    ∃ buffer, c.buffers.get flush.agentId = some buffer :=
  ne_none_iff_exists'.mp (h.present flush.agentId (by simp [flushes, hrunning]))

theorem Sound.afterFlush (h : Sound c) (hrunning : c.running = some flush)
    (hremaining : flush.remaining = []) : Sound (c.afterFlush flush) := by
  obtain ⟨buffer, hget⟩ := present_of_running h.wired hrunning
  have hfinish := h.finishFlush hrunning hremaining hget
  have hrun := (finishFlush_same c flush.agentId).2.2.2.2
  unfold AgentStreamCoalescer.afterFlush
  split
  · rename_i hdiscards
    apply hfinish.discard hrun
    rw [buffered_finishFlush hget]
    exact h.kept.discarding flush hrunning hdiscards
  · exact hfinish

theorem ArmedAt.afterFlush (h : Wired c) (hrunning : c.running = some flush)
    (harmed : ∀ other, c.ArmedAt other) (other : String) : (c.afterFlush flush).ArmedAt other := by
  obtain ⟨buffer, hget⟩ := present_of_running h hrunning
  have hsets := sets_finishFlush hget
  have hfinish : ∀ other, (c.finishFlush flush.agentId).ArmedAt other := by
    intro other buffer' hget' hentries
    by_cases hother : other = flush.agentId
    · rw [hother, hsets.self] at hget'
      rw [← some.inj hget'] at hentries ⊢
      exact harmed flush.agentId buffer hget hentries
    · rw [hsets.other hother] at hget'
      exact harmed other buffer' hget' hentries
  unfold AgentStreamCoalescer.afterFlush
  split
  · exact ArmedAt.discard hfinish flush.agentId other
  · exact hfinish other

theorem onFlushReturns_eq (h : c.running = some flush) (now : ℤ) :
    c.onFlushReturns now =
      if flush.remaining ≠ [] then c.deliver flush
      else flushEach now flush.nextAgents (c.afterFlush flush) := by
  rw [onFlushReturns, h]
  rfl

theorem Sound.onFlushReturns (h : Sound c) (now : ℤ) : Sound (c.onFlushReturns now) := by
  cases hrunning : c.running with
  | none =>
    rw [AgentStreamCoalescer.onFlushReturns, hrunning]
    exact h
  | some flush =>
    rw [onFlushReturns_eq hrunning]
    by_cases hremaining : flush.remaining = []
    · rw [if_neg (not_not.mpr hremaining)]
      exact (h.afterFlush hrunning hremaining).flushEach now flush.nextAgents _
        (running_afterFlush c flush)
    · rw [if_pos hremaining]
      exact h.deliver hrunning

theorem ArmedAt.onFlushReturns (h : Sound c) (harmed : ∀ other, c.ArmedAt other) (now : ℤ)
    (other : String) : (c.onFlushReturns now).ArmedAt other := by
  cases hrunning : c.running with
  | none =>
    rw [AgentStreamCoalescer.onFlushReturns, hrunning]
    exact harmed other
  | some flush =>
    rw [onFlushReturns_eq hrunning]
    by_cases hremaining : flush.remaining = []
    · rw [if_neg (not_not.mpr hremaining)]
      exact ArmedAt.flushEach now flush.nextAgents _ (h.afterFlush hrunning hremaining)
        (running_afterFlush c flush) (ArmedAt.afterFlush h.wired hrunning harmed) other
    · rw [if_pos hremaining]
      intro buffer hget
      rw [(deliver_same c flush).1] at hget
      exact harmed other buffer hget

end Flushes

end AgentStreamCoalescer

end Orqara.Agent
