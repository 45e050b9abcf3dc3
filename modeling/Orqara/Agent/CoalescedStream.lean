import Orqara.Agent.FlushInvariants

/-!
# Nothing is lost in coalescing

Over every run of the coalescer, with flushes that are interrupted by further events of
their agent, what is flushed and what is buffered is what was handled.
-/

namespace Orqara.Agent

open Orqara.Timeline PendingAgentStreamBuffer

namespace AgentStreamCoalescer

/-! ## Handling -/

section Handling

variable {c : AgentStreamCoalescer} {agentId : String} {entry : PendingAgentStreamEntry}

/-- The buffer of an agent, or the new one that it gets. -/
def bufferOf (c : AgentStreamCoalescer) (agentId : String) : PendingAgentStreamBuffer :=
  (c.getOrCreateBuffer agentId).2

/-- The state in which the entry has been put into its buffer. -/
def append (c : AgentStreamCoalescer) (agentId : String) (entry : PendingAgentStreamEntry) :
    AgentStreamCoalescer :=
  { (c.getOrCreateBuffer agentId).1.setBuffer agentId
      (appendToBuffer (c.bufferOf agentId) entry) with
    handled := Function.update c.handled agentId (c.handled agentId ++ [entry]) }

theorem handle_eq {event : AgentStreamEvent} (hevent : event.coalescable = some entry)
    (htext : entry.isEmptyText = false) (now flushedAt : ℤ) :
    c.handle agentId event now flushedAt =
      if entry.isTerminalToolCall then
        (c.append agentId entry).flushBuffer agentId none flushedAt false []
      else if (c.bufferOf agentId).timer.isSome then c.append agentId entry
      else if (c.bufferOf agentId).lastFlushAt.all fun last => c.windowMs ≤ now - last then
        (c.append agentId entry).flushBuffer agentId none flushedAt false []
      else
        (c.append agentId entry).scheduleFlush agentId
          (appendToBuffer (c.bufferOf agentId) entry) := by
  obtain ⟨-, htimer, -, hlast⟩ :=
    appendToBuffer_same (c.bufferOf agentId) entry
  unfold handle
  rw [hevent]
  dsimp only
  rw [if_neg (by simp [htext]), ← htimer, ← hlast]
  rfl

theorem bufferOf_of_get {buffer : PendingAgentStreamBuffer}
    (h : c.buffers.get agentId = some buffer) : c.bufferOf agentId = buffer := by
  simp [bufferOf, getOrCreateBuffer, h]

theorem bufferOf_of_none (h : c.buffers.get agentId = none) :
    c.bufferOf agentId =
      { id := c.nextId, entries := [], toolCallEntryIndexes := ∅, timer := none, flushing := false
        lastFlushAt := none } := by
  simp [bufferOf, getOrCreateBuffer, h]

theorem entries_bufferOf (c : AgentStreamCoalescer) (agentId : String) :
    (c.bufferOf agentId).entries = c.buffered agentId := by
  cases hget : c.buffers.get agentId with
  | none => simp [bufferOf_of_none hget, buffered, hget]
  | some buffer => rw [bufferOf_of_get hget, buffered_of_get hget]

theorem getOrCreateBuffer_same (c : AgentStreamCoalescer) (agentId : String) :
    (c.getOrCreateBuffer agentId).1.timeouts = c.timeouts ∧
      c.nextId ≤ (c.getOrCreateBuffer agentId).1.nextId ∧
      (c.getOrCreateBuffer agentId).1.running = c.running ∧
      (c.getOrCreateBuffer agentId).1.flushed = c.flushed := by
  unfold getOrCreateBuffer
  split
  · simp
  · simp [setBuffer]

theorem sets_append : Sets c (c.append agentId entry) agentId
    (some (appendToBuffer (c.bufferOf agentId) entry)) := by
  intro other
  show ((c.getOrCreateBuffer agentId).1.buffers.set agentId _).get other = _
  rw [OrderedMap.get_set]
  by_cases hother : other = agentId
  · rw [if_pos hother, if_pos hother]
  · rw [if_neg hother, if_neg hother]
    unfold getOrCreateBuffer
    split
    · rfl
    · exact OrderedMap.get_set_ne hother

theorem Wired.indexed_bufferOf (h : Wired c) (agentId : String) :
    (c.bufferOf agentId).Indexed := by
  cases hget : c.buffers.get agentId with
  | none =>
    rw [bufferOf_of_none hget]
    exact indexed_nil rfl rfl
  | some buffer =>
    rw [bufferOf_of_get hget]
    exact h.indexed agentId buffer hget

theorem running_append : (c.append agentId entry).running = c.running :=
  (getOrCreateBuffer_same c agentId).2.2.1

theorem flushes_append (other : String) :
    (c.append agentId entry).flushes other = c.flushes other := by
  rw [flushes, running_append, flushes]

theorem Wired.append (h : Wired c) (agentId : String) (entry : PendingAgentStreamEntry) :
    Wired (c.append agentId entry) := by
  obtain ⟨-, -, hflushing, -⟩ :=
    appendToBuffer_same (c.bufferOf agentId) entry
  apply h.sets sets_append
  · exact (h.indexed_bufferOf agentId).appendToBuffer
  · rw [hflushing, flushes_append]
    cases hget : c.buffers.get agentId with
    | none =>
      rw [bufferOf_of_none hget]
      by_contra hflushes
      exact h.present agentId (by simpa using Ne.symm hflushes) hget
    | some buffer =>
      rw [bufferOf_of_get hget]
      exact h.flushing agentId buffer hget
  · exact fun other _ => flushes_append other

theorem Timed.append (h : Timed c) (agentId : String) (entry : PendingAgentStreamEntry) :
    Timed (c.append agentId entry) := by
  obtain ⟨htimeouts, hnext, -, -⟩ := getOrCreateBuffer_same c agentId
  obtain ⟨hid, htimer, -, -⟩ :=
    appendToBuffer_same (c.bufferOf agentId) entry
  apply h.sets sets_append htimeouts hnext
  · intro timer
    rw [hid, htimer]
    cases hget : c.buffers.get agentId with
    | none => simp [bufferOf_of_none hget]
    | some buffer => simp [bufferOf_of_get hget]
  · intro old hold
    rw [hid, bufferOf_of_get hold]

/-- What is handled while a flush that discards its buffer is running would be lost. -/
theorem Kept.append (h : Kept c) (hwired : Wired c)
    (hdiscards : ∀ flush ∈ c.running, flush.discards = false) (agentId : String)
    (entry : PendingAgentStreamEntry) : Kept (c.append agentId entry) := by
  obtain ⟨-, -, hrunning, hflushed⟩ := getOrCreateBuffer_same c agentId
  have hsent : ∀ other, (c.append agentId entry).sent other = c.sent other := by
    intro other
    rw [sent, undelivered, running_append, sent, undelivered]
    exact congrArg (· ++ _) (congrFun hflushed other)
  apply h.sets sets_append
  · obtain ⟨waiting, htold, hplaced⟩ := h.told agentId
    refine ⟨waiting ++ [entry], ?_, ?_⟩
    · rw [hsent]
      show Told (Function.update c.handled agentId (c.handled agentId ++ [entry]) agentId) _ _
      rw [Function.update_self]
      exact htold.handle entry
    · rw [buffered_of_get sets_append.self,
        entries_appendToBuffer (hwired.indexed_bufferOf agentId),
        entries_bufferOf, hplaced, placed, placed, List.foldl_append]
      rfl
  · intro other hother
    exact ⟨Function.update_of_ne hother .., hsent other⟩
  · intro flush hflush hdiscard
    have hmem : flush ∈ c.running := by
      rw [← hrunning]
      exact hflush
    rw [hdiscards flush hmem] at hdiscard
    cases hdiscard

theorem Sound.handle (h : Sound c) (hagent : c.running.all (·.agentId = agentId) = true)
    (hdiscards : ∀ flush ∈ c.running, flush.discards = false) (event : AgentStreamEvent)
    (now flushedAt : ℤ) : Sound (c.handle agentId event now flushedAt) := by
  cases hevent : event.coalescable with
  | none =>
    rw [AgentStreamCoalescer.handle, hevent]
    exact h
  | some entry =>
    by_cases htext : entry.isEmptyText = true
    · rw [AgentStreamCoalescer.handle, hevent]
      dsimp only
      rw [if_pos htext]
      exact h
    · have happend : Sound (c.append agentId entry) :=
        ⟨h.wired.append agentId entry, h.timed.append agentId entry,
          h.kept.append h.wired hdiscards agentId entry⟩
      have hflush : Sound ((c.append agentId entry).flushBuffer agentId none flushedAt false []) := by
        cases hrunning : (c.append agentId entry).running with
        | none => exact happend.flushBuffer hrunning agentId none flushedAt false []
        | some flush =>
          -- the flush that is running is of this agent
          rw [running_append] at hrunning
          rw [hrunning] at hagent
          have hflushes : (c.append agentId entry).flushes agentId = true := by
            rw [flushes_append, flushes_of_running hrunning]
            simpa using hagent
          rw [flushBuffer_of_flushes happend.wired hflushes]
          exact happend
      rw [handle_eq hevent (by simpa using htext)]
      split
      · exact hflush
      · split
        · exact happend
        · split
          · exact hflush
          · rename_i htimer _
            apply happend.scheduleFlush sets_append.self
            rw [(appendToBuffer_same ..).2.1]
            simpa using htimer

theorem ArmedAt.append_other (harmed : ∀ other, c.ArmedAt other) {other : String}
    (hother : other ≠ agentId) : (c.append agentId entry).ArmedAt other := by
  intro buffer hget
  rw [sets_append.other hother] at hget
  exact harmed other buffer hget

theorem ArmedAt.append (harmed : ∀ other, c.ArmedAt other)
    (htimer : (c.bufferOf agentId).timer.isSome = true) (other : String) :
    (c.append agentId entry).ArmedAt other := by
  by_cases hother : other = agentId
  · intro buffer hget _
    rw [hother, sets_append.self] at hget
    rw [← Option.some.inj hget, (appendToBuffer_same ..).2.1]
    exact htimer
  · exact ArmedAt.append_other harmed hother

end Handling

/-! ## Runs -/

/-- No event is handled in the flush of a buffer that is then discarded. -/
def HandlesKept (c : AgentStreamCoalescer) : CoalescerOp → Prop
  | .handle .. => ∀ flush ∈ c.running, flush.discards = false
  | _ => True

/-- An event that is handled in a flush finds a timer, or sets one. -/
def HandlesArmed (c : AgentStreamCoalescer) : CoalescerOp → Prop
  | .handle agentId event now _ => c.running.isSome → ∀ entry ∈ event.coalescable,
    entry.isEmptyText = false →
      (c.bufferOf agentId).timer.isSome = true ∨
        (entry.isTerminalToolCall = false ∧
          ((c.bufferOf agentId).lastFlushAt.all fun last => c.windowMs ≤ now - last) = false)
  | _ => True

def AlongRun (P : AgentStreamCoalescer → CoalescerOp → Prop) :
    AgentStreamCoalescer → List CoalescerOp → Prop
  | _, [] => True
  | c, op :: ops => P c op ∧ AlongRun P (c.step op) ops

instance (c : AgentStreamCoalescer) : DecidablePred c.HandlesKept
  | .handle .. => inferInstanceAs (Decidable (∀ flush ∈ c.running, _))
  | .flushFor .. | .flushAll _ | .flushAndDiscard .. | .timer .. | .onFlushReturns _ => isTrue trivial

instance (c : AgentStreamCoalescer) : DecidablePred c.HandlesArmed
  | .handle _ event _ _ => inferInstanceAs (Decidable (_ → ∀ entry ∈ event.coalescable, _ → _ ∨ _))
  | .flushFor .. | .flushAll _ | .flushAndDiscard .. | .timer .. | .onFlushReturns _ => isTrue trivial

instance decidableAlongRun (P : AgentStreamCoalescer → CoalescerOp → Prop)
    [∀ c, DecidablePred (P c)] : ∀ c ops, Decidable (AlongRun P c ops)
  | _, [] => isTrue trivial
  | c, op :: ops =>
    have := decidableAlongRun P (c.step op) ops
    inferInstanceAs (Decidable (_ ∧ _))

section Runs

variable {c : AgentStreamCoalescer}

theorem ArmedAt.handle {agentId : String} (h : Sound c)
    (hagent : c.running.all (·.agentId = agentId) = true) (harmed : ∀ other, c.ArmedAt other)
    {event : AgentStreamEvent} {now flushedAt : ℤ}
    (hhandles : c.HandlesArmed (.handle agentId event now flushedAt)) (other : String) :
    (c.handle agentId event now flushedAt).ArmedAt other := by
  cases hevent : event.coalescable with
  | none =>
    rw [AgentStreamCoalescer.handle, hevent]
    exact harmed other
  | some entry =>
    by_cases htext : entry.isEmptyText = true
    · rw [AgentStreamCoalescer.handle, hevent]
      dsimp only
      rw [if_pos htext]
      exact harmed other
    · have hwired : Wired (c.append agentId entry) := h.wired.append agentId entry
      have hnonempty : entry.isEmptyText = false := by simpa using htext
      -- a flush takes the entry, unless one is running, which leaves it to the timer
      have hflush : (c.running.isSome → (c.bufferOf agentId).timer.isSome = true) →
          ((c.append agentId entry).flushBuffer agentId none flushedAt false []).ArmedAt other := by
        intro hinside
        cases hrunning : c.running with
        | none =>
          exact ArmedAt.flushBuffer hwired (running_append.trans hrunning) none
            (fun _ hother => ArmedAt.append_other harmed hother) (absurd rfl) flushedAt false []
            other
        | some flush =>
          have hflushes : (c.append agentId entry).flushes agentId = true := by
            rw [hrunning] at hagent
            rw [flushes_append, flushes_of_running hrunning]
            simpa using hagent
          rw [flushBuffer_of_flushes hwired hflushes]
          exact ArmedAt.append harmed (hinside (by rw [hrunning]; rfl)) other
      have hcases := fun hsome => hhandles hsome entry hevent hnonempty
      rw [handle_eq hevent hnonempty]
      split
      · rename_i hterminal
        apply hflush
        intro hsome
        rcases hcases hsome with htimer | ⟨hnot, -⟩
        · exact htimer
        · rw [hterminal] at hnot
          cases hnot
      · split
        · rename_i htimer
          exact ArmedAt.append harmed htimer other
        · split
          · rename_i helapsed
            apply hflush
            intro hsome
            rcases hcases hsome with htimer | ⟨-, hwithin⟩
            · exact htimer
            · rw [helapsed] at hwithin
              cases hwithin
          · intro buffer hget _
            by_cases hother : other = agentId
            · rw [hother, (sets_scheduleFlush _ _ _).self] at hget
              rw [← Option.some.inj hget]
              rfl
            · rw [(sets_scheduleFlush _ _ _).other hother] at hget
              exact ArmedAt.append_other harmed hother buffer hget ‹_›

theorem clearTimer_of_filtered (c : AgentStreamCoalescer) (agentId : String)
    {buffer : PendingAgentStreamBuffer} {id : ℕ} (htimer : buffer.timer = some id) :
    ({ c with timeouts := c.timeouts.filter (·.id ≠ id) } : AgentStreamCoalescer).clearTimer
        agentId buffer = c.clearTimer agentId buffer := by
  unfold clearTimer
  rw [htimer]
  simp [setBuffer]

/-- A timeout is that of its buffer, so its callback flushes it. -/
theorem timer_eq (h : Sound c) (hrunning : c.running = none) (id : ℕ) (now : ℤ) :
    c.timer id now = c ∨
      ∃ agentId bufferId, c.timer id now = c.flushBuffer agentId (some bufferId) now false [] := by
  unfold timer
  cases hfind : c.timeouts.find? (·.id = id) with
  | none => exact .inl rfl
  | some timeout =>
    right
    have hid : timeout.id = id := by simpa using List.find?_some hfind
    obtain ⟨buffer, hget, hbuffer, htimer⟩ :=
      (h.timed.pending timeout).mp (List.mem_of_find?_eq_some hfind)
    have hflushing : buffer.flushing = false := by
      rw [h.wired.flushing timeout.agentId buffer hget, flushes_eq_false hrunning]
    have hclear := clearTimer_of_filtered c timeout.agentId
      (htimer.trans (congrArg some hid))
    refine ⟨timeout.agentId, timeout.bufferId, ?_⟩
    unfold flushBuffer
    dsimp only
    rw [hget]
    dsimp only
    have hexpected : ¬ (some timeout.bufferId).any (· ≠ buffer.id) = true := by simp [hbuffer]
    have hidle : ¬ buffer.flushing = true := by simp [hflushing]
    rw [hclear, if_neg hexpected, if_neg hexpected, if_neg hidle, if_neg hidle]

theorem Sound.step (h : Sound c) {op : CoalescerOp} (hop : c.HandlesKept op) : Sound (c.step op) := by
  cases op with
  | handle agentId event now flushedAt =>
    rw [AgentStreamCoalescer.step]
    split
    · rename_i hagent
      exact h.handle hagent hop event now flushedAt
    · exact h
  | flushFor agentId now =>
    rw [AgentStreamCoalescer.step]
    split
    · rename_i hnone
      exact h.flushBuffer (by simpa using hnone) agentId none now false []
    · exact h
  | flushAll now =>
    rw [AgentStreamCoalescer.step]
    split
    · rename_i hnone
      exact Sound.flushEach now c.buffers.keys c h (by simpa using hnone)
    · exact h
  | flushAndDiscard agentId now =>
    rw [AgentStreamCoalescer.step]
    split
    · rename_i hnone
      have hrunning : c.running = none := by simpa using hnone
      have hflush := h.flushBuffer hrunning agentId none now true []
      unfold flushAndDiscard
      dsimp only
      split
      · exact hflush
      · rename_i hstarted
        exact hflush.discard (by simpa using hstarted)
          (buffered_flushBuffer h hrunning agentId now true [])
    · exact h
  | timer id now =>
    rw [AgentStreamCoalescer.step]
    split
    · rename_i hnone
      have hrunning : c.running = none := by simpa using hnone
      rcases timer_eq h hrunning id now with hsame | ⟨agentId, bufferId, hflush⟩
      · rw [hsame]
        exact h
      · rw [hflush]
        exact h.flushBuffer hrunning agentId (some bufferId) now false []
    · exact h
  | onFlushReturns now => exact h.onFlushReturns now

theorem ArmedAt.step (h : Sound c) {op : CoalescerOp} (hop : c.HandlesArmed op)
    (harmed : ∀ other, c.ArmedAt other) : ∀ other, (c.step op).ArmedAt other := by
  cases op with
  | handle agentId event now flushedAt =>
    rw [AgentStreamCoalescer.step]
    split
    · rename_i hagent
      exact ArmedAt.handle h hagent harmed hop
    · exact harmed
  | flushFor agentId now =>
    rw [AgentStreamCoalescer.step]
    split
    · rename_i hnone
      exact ArmedAt.flushBuffer h.wired (by simpa using hnone) none (fun other _ => harmed other)
        (fun _ => harmed agentId) now false []
    · exact harmed
  | flushAll now =>
    rw [AgentStreamCoalescer.step]
    split
    · rename_i hnone
      exact ArmedAt.flushEach now c.buffers.keys c h (by simpa using hnone) harmed
    · exact harmed
  | flushAndDiscard agentId now =>
    rw [AgentStreamCoalescer.step]
    split
    · rename_i hnone
      have hflush := ArmedAt.flushBuffer h.wired (by simpa using hnone) none
        (fun other _ => harmed other) (fun _ => harmed agentId) now true []
      unfold flushAndDiscard
      dsimp only
      split
      · exact hflush
      · exact ArmedAt.discard hflush agentId
    · exact harmed
  | timer id now =>
    rw [AgentStreamCoalescer.step]
    split
    · rename_i hnone
      have hrunning : c.running = none := by simpa using hnone
      rcases timer_eq h hrunning id now with hsame | ⟨agentId, bufferId, hflush⟩
      · rw [hsame]
        exact harmed
      · rw [hflush]
        exact ArmedAt.flushBuffer h.wired hrunning (some bufferId) (fun other _ => harmed other)
          (fun _ => harmed agentId) now false []
    · exact harmed
  | onFlushReturns now => exact ArmedAt.onFlushReturns h harmed now

theorem sound_start (windowMs : ℤ) : Sound (start windowMs) where
  wired := ⟨by simp [start], by simp [start], by simp [start, flushes]⟩
  timed := ⟨by simp [start], by simp [start], by simp [start]⟩
  kept := ⟨fun _ => ⟨[], Told.start, rfl⟩, by simp [start]⟩

theorem armedAt_start (windowMs : ℤ) (agentId : String) : (start windowMs).ArmedAt agentId := by
  simp [ArmedAt, start]

theorem Sound.run (ops : List CoalescerOp) :
    ∀ c : AgentStreamCoalescer, Sound c → AlongRun HandlesKept c ops → Sound (c.run ops) := by
  induction ops with
  | nil => exact fun c h _ => h
  | cons op ops ih => exact fun c h hops => ih (c.step op) (h.step hops.1) hops.2

theorem ArmedAt.run (ops : List CoalescerOp) :
    ∀ c : AgentStreamCoalescer, Sound c → AlongRun HandlesKept c ops →
      AlongRun HandlesArmed c ops → (∀ other, c.ArmedAt other) →
      ∀ other, (c.run ops).ArmedAt other := by
  induction ops with
  | nil => exact fun c _ _ _ harmed => harmed
  | cons op ops ih =>
    intro c h hkept harmedOps harmed
    exact ih (c.step op) (h.step hkept.1) hkept.2 harmedOps.2 (ArmedAt.step h harmedOps.1 harmed)

/-! ## The last flush -/

/-- A flush whose caller flushes nothing more ends when `onFlush` has returned for each entry. -/
theorem run_onFlushReturns (now : ℤ) (remaining : List PendingAgentStreamEntry) :
    ∀ (c : AgentStreamCoalescer) (agentId : String) (buffer : PendingAgentStreamBuffer),
      c.buffers.get agentId = some buffer →
      c.running = some { agentId, remaining, discards := false, nextAgents := [] } →
      (c.run (List.replicate (remaining.length + 1) (.onFlushReturns now))).running = none ∧
        (c.run (List.replicate (remaining.length + 1) (.onFlushReturns now))).handled = c.handled ∧
        (c.run (List.replicate (remaining.length + 1) (.onFlushReturns now))).buffered agentId =
          c.buffered agentId := by
  induction remaining with
  | nil =>
    intro c agentId buffer hget hrunning
    have hstep : c.run (List.replicate 1 (.onFlushReturns now)) = c.finishFlush agentId := by
      show c.onFlushReturns now = _
      rw [onFlushReturns_eq hrunning]
      rfl
    rw [List.length_nil, hstep]
    obtain ⟨-, -, hhandled, -, hrun⟩ := finishFlush_same c agentId
    exact ⟨hrun, hhandled, buffered_finishFlush hget agentId⟩
  | cons entry remaining ih =>
    intro c agentId buffer hget hrunning
    have hstep : c.step (.onFlushReturns now) =
        c.deliver { agentId, remaining := entry :: remaining, discards := false, nextAgents := [] } := by
      show c.onFlushReturns now = _
      rw [onFlushReturns_eq hrunning]
      rfl
    obtain ⟨hbuffers, -, -, hhandled⟩ := deliver_same c
      { agentId, remaining := entry :: remaining, discards := false, nextAgents := [] }
    have hrest := ih (c.step (.onFlushReturns now)) agentId buffer
      (by rw [hstep, hbuffers, hget]) (by rw [hstep, running_deliver]; rfl)
    have hbuffered : (c.step (.onFlushReturns now)).buffered agentId = c.buffered agentId := by
      rw [hstep, buffered, hbuffers, buffered]
    rw [hbuffered, hstep, hhandled, ← hstep] at hrest
    exact hrest

/-- A flush for an agent, and so many returns of `onFlush`. -/
def lastFlush (c : AgentStreamCoalescer) (agentId : String) (now : ℤ) (returns : ℕ) :
    AgentStreamCoalescer :=
  (c.step (.flushFor agentId now)).run (List.replicate returns (.onFlushReturns now))

theorem Sound.lastFlush (h : Sound c) (agentId : String) (now : ℤ) (returns : ℕ) :
    Sound (c.lastFlush agentId now returns) := by
  have hreturns : ∀ c : AgentStreamCoalescer, Sound c →
      Sound (c.run (List.replicate returns (.onFlushReturns now))) := by
    induction returns with
    | zero => exact fun c h => h
    | succ returns ih => exact fun c h => ih _ (h.onFlushReturns now)
  exact hreturns _ (h.step (show HandlesKept _ (.flushFor agentId now) from trivial))

/-- When no flush is running, a last one leaves nothing waiting. -/
theorem exists_lastFlush (h : Sound c) (hrunning : c.running = none) (agentId : String) (now : ℤ) :
    ∃ returns, (c.lastFlush agentId now returns).running = none ∧
      (c.lastFlush agentId now returns).handled = c.handled ∧
      (c.lastFlush agentId now returns).buffered agentId = [] := by
  have hstep : c.step (.flushFor agentId now) = c.flushBuffer agentId none now false [] := by
    rw [AgentStreamCoalescer.step, hrunning]
    rfl
  have hempty := buffered_flushBuffer h hrunning agentId now false []
  unfold AgentStreamCoalescer.lastFlush
  rw [hstep]
  rcases flushBuffer_cases h.wired hrunning agentId none now false [] with
    ⟨hsame, -⟩ | ⟨buffer, hget, -, hclear⟩ | ⟨buffer, hget, -, hstart⟩
  · refine ⟨0, ?_, ?_, hempty⟩
    · rw [hsame]
      exact hrunning
    · rw [hsame]
      rfl
  · obtain ⟨hrun, hhandled, -⟩ := clearTimer_same c agentId buffer
    refine ⟨0, ?_, ?_, hempty⟩
    · rw [hclear]
      exact hrun.trans hrunning
    · rw [hclear]
      exact hhandled
  · have hgets := (sets_startFlush hget now false []).self
    have hreturns := run_onFlushReturns now (collapseEntries buffer.entries).tail _ agentId _ hgets
      (running_startFlush now false [])
    rw [hstart] at hempty ⊢
    rw [hempty, handled_startFlush] at hreturns
    exact ⟨_, hreturns⟩

end Runs

end AgentStreamCoalescer

/-! ## Nothing is lost -/

/-- What was flushed and what is buffered, against what was handled: no text and no last
update of a tool call is missing, and each batch is flushed with its tool calls where their
first updates were. -/
structure NothingLost (handled flushed buffered : List PendingAgentStreamEntry) : Prop where
  text : ∀ key, textOf key handled = textOf key flushed ++ textOf key buffered
  call : ∀ callId,
    latestCall callId handled = (latestCall callId buffered).or (latestCall callId flushed)
  order : ∃ (batches : List (List PendingAgentStreamEntry × List PendingAgentStreamEntry))
      (waiting : List PendingAgentStreamEntry),
    handled = (batches.map Prod.fst).flatten ++ waiting ∧
      flushed = (batches.map Prod.snd).flatten ∧ buffered = placed waiting ∧
      ∀ batch ∈ batches, Coalesces batch.1 batch.2

theorem Told.nothingLost {handled flushed waiting : List PendingAgentStreamEntry}
    (h : Told handled flushed waiting) : NothingLost handled flushed (placed waiting) where
  text key := by rw [h.text, textOf_placed]
  call callId := by rw [h.call, latestCall_placed]
  order := by
    obtain ⟨batches, hhandled, hflushed, hbatches⟩ := h.batches
    exact ⟨batches, waiting, hhandled, hflushed, rfl, hbatches⟩

open AgentStreamCoalescer

theorem AgentStreamCoalescer.Sound.nothingLost {c : AgentStreamCoalescer} (h : Sound c)
    (agentId : String) :
    NothingLost (c.handled agentId) (c.sent agentId) (c.buffered agentId) := by
  obtain ⟨waiting, htold, hplaced⟩ := h.kept.told agentId
  rw [hplaced]
  exact htold.nothingLost

/-- In every run in which no event is handled in the flush of a buffer that is then discarded,
nothing is lost: a last flush flushes it all, and till then a timer is pending unless an
event handled in a flush set none. -/
theorem nothingLost_of_run (windowMs : ℤ) (ops : List CoalescerOp)
    (hkept : AlongRun HandlesKept (start windowMs) ops) (agentId : String) :
    NothingLost (((start windowMs).run ops).handled agentId) (((start windowMs).run ops).sent agentId)
        (((start windowMs).run ops).buffered agentId) ∧
      (((start windowMs).run ops).running = none → ∀ now, ∃ returns,
        (((start windowMs).run ops).lastFlush agentId now returns).running = none ∧
          NothingLost (((start windowMs).run ops).handled agentId)
            ((((start windowMs).run ops).lastFlush agentId now returns).flushed agentId) []) ∧
      (AlongRun HandlesArmed (start windowMs) ops →
        ((start windowMs).run ops).buffered agentId ≠ [] →
          ∃ timeout ∈ ((start windowMs).run ops).timeouts, ∃ buffer,
            ((start windowMs).run ops).buffers.get agentId = some buffer ∧
              timeout.agentId = agentId ∧ timeout.bufferId = buffer.id ∧
              buffer.timer = some timeout.id) := by
  have h : Sound ((start windowMs).run ops) :=
    Sound.run ops (start windowMs) (sound_start windowMs) hkept
  refine ⟨h.nothingLost agentId, ?_, ?_⟩
  · intro hrunning now
    obtain ⟨returns, hrun, hhandled, hbuffered⟩ := exists_lastFlush h hrunning agentId now
    have hlost := (h.lastFlush agentId now returns).nothingLost agentId
    rw [hbuffered, hhandled, sent_of_not_running hrun] at hlost
    exact ⟨returns, hrun, hlost⟩
  · intro harmed hbuffered
    have harmedAt := ArmedAt.run ops (start windowMs) (sound_start windowMs) hkept harmed
      (armedAt_start windowMs) agentId
    cases hget : ((start windowMs).run ops).buffers.get agentId with
    | none => simp [buffered, hget] at hbuffered
    | some buffer =>
      rw [buffered_of_get hget] at hbuffered
      obtain ⟨id, hid⟩ := Option.isSome_iff_exists.mp (harmedAt buffer hget hbuffered)
      exact ⟨{ id, agentId, bufferId := buffer.id },
        (h.timed.pending _).mpr ⟨buffer, hget, rfl, hid⟩, buffer, rfl, rfl, rfl, hid⟩

/-- A message chunk is flushed at once, and one that is handled meanwhile gets a timer. -/
def interruptedRun : List CoalescerOp :=
  [.handle "agent" (.timeline (.assistantMessage "Hel" none) "claude" none) 100 100,
    .handle "agent" (.timeline (.assistantMessage "lo" none) "claude" none) 101 101,
    .onFlushReturns 102]

theorem nothingLost_of_run_interrupted :
    NothingLost (((start 60).run interruptedRun).handled "agent")
        (((start 60).run interruptedRun).sent "agent")
        (((start 60).run interruptedRun).buffered "agent") ∧
      (∃ returns, (((start 60).run interruptedRun).lastFlush "agent" 110 returns).running = none ∧
        NothingLost (((start 60).run interruptedRun).handled "agent")
          ((((start 60).run interruptedRun).lastFlush "agent" 110 returns).flushed "agent") []) ∧
      ∃ timeout ∈ ((start 60).run interruptedRun).timeouts, ∃ buffer,
        ((start 60).run interruptedRun).buffers.get "agent" = some buffer ∧
          timeout.agentId = "agent" ∧ timeout.bufferId = buffer.id ∧
          buffer.timer = some timeout.id := by
  obtain ⟨hlost, hlast, hpending⟩ := nothingLost_of_run 60 interruptedRun (by decide +kernel) "agent"
  exact ⟨hlost, hlast (by decide +kernel) 110,
    hpending (by decide +kernel) (by decide +kernel)⟩

/-- No tool call update is before a text that was handled before it. -/
def TextFirst (handled flushed : List PendingAgentStreamEntry) : Prop :=
  ∀ before text between call after, handled = before ++ text :: between ++ call :: after →
    text.callId? = none → call.callId? ≠ none →
    ∀ front back, flushed = front ++ call :: back → text ∉ back

def shellCall (status : ToolCallStatus) (command : String) : ToolCallTimelineItem where
  callId := "call"
  name := "shell"
  status := status
  error := none
  detail := { type := .shell, fields := [("command", .str command)] }
  metadata := none
  extra := []

/-- A tool call is buffered, then a thought, then an update of the tool call. -/
def updatedRun : List CoalescerOp :=
  [.handle "agent" (.timeline (.assistantMessage "Hello" none) "claude" none) 100 100,
    .onFlushReturns 101,
    .handle "agent" (.timeline (.toolCall (shellCall .running "ls")) "claude" none) 102 102,
    .handle "agent" (.timeline (.reasoning "wait") "claude" none) 103 103,
    .handle "agent" (.timeline (.toolCall (shellCall .running "ls -l")) "claude" none) 104 104,
    .flushFor "agent" 105, .onFlushReturns 106, .onFlushReturns 107]

theorem updated_call_before_text :
    ¬ ∀ (windowMs : ℤ) (ops : List CoalescerOp) (agentId : String),
      ((start windowMs).run ops).running = none →
      ((start windowMs).run ops).buffered agentId = [] →
      (((start windowMs).run ops).handled agentId).Nodup →
      TextFirst (((start windowMs).run ops).handled agentId)
        (((start windowMs).run ops).flushed agentId) := by
  intro h
  exact h 60 updatedRun "agent" (by decide +kernel) (by decide +kernel) (by decide +kernel)
    [.text (.assistantMessage none) "Hello" "claude" none,
      .toolCall (shellCall .running "ls") "claude" none]
    (.text .reasoning "wait" "claude" none) []
    (.toolCall (shellCall .running "ls -l") "claude" none) [] (by decide +kernel) (by decide +kernel)
    (by decide +kernel) [.text (.assistantMessage none) "Hello" "claude" none]
    [.text .reasoning "wait" "claude" none] (by decide +kernel) (by decide +kernel)

end Orqara.Agent
