import Orqara.Requests.AgentRequests

/-!
# At most once

What the receipts say about the callbacks that were started, in every state between two stops of
the daemon: a message that was started, or an agent that exists, has a receipt under its key, and a
receipt is taken away only where neither is the case.
-/

namespace Orqara.Requests

open List Option

open PromiseChain (Task Chained)

def Call.waiting (call : Call) : Option (Option ℕ) :=
  match call.stage with
  | .waiting previous => some previous
  | _ => none

instance : Task Call RequestKey := ⟨Call.id, Call.key, Call.waiting⟩

namespace AgentRequests

variable {s s' : AgentRequests} {call : Call} {event : RequestEvent}

/-! ## Invariants -/

/-- A start that cannot be taken back: of a message, or of a creation whose agent exists. -/
def Effective (agents : List ℕ) (start : Start) : Prop :=
  match start.key with
  | .create _ => start.agentId ∈ agents
  | .send _ _ => True

/-- What a call in its stage knows of the files. -/
def StageInv (s : AgentRequests) (call : Call) : Prop :=
  match call.stage with
  | .waiting _ => True
  | .reading => True
  | .preparing => s.receipts.get call.key = none
  | .writing => s.receipts.get call.key = none
  | .starting =>
    s.receipts.get call.key = some ⟨call.fingerprint, call.agentId, .pending⟩ ∧
      ∀ start ∈ s.starts, start.key = call.key → ¬ Effective s.agents start
  | .running => s.receipts.get call.key = some ⟨call.fingerprint, call.agentId, .pending⟩
  | .failed => s.receipts.get call.key = some ⟨call.fingerprint, call.agentId, .pending⟩
  | .removing =>
    s.receipts.get call.key = some ⟨call.fingerprint, call.agentId, .pending⟩ ∧
      ∀ start ∈ s.starts, start.key = call.key → ¬ Effective s.agents start
  | .completing agentId =>
    s.receipts.get call.key = some ⟨call.fingerprint, agentId, .pending⟩
  | .recovering agentId =>
    s.receipts.get call.key = some ⟨call.fingerprint, agentId, .pending⟩

/-- The agent of a key and an id: a new one has the id of its call. -/
def agentOf (key : RequestKey) (callId : ℕ) : ℕ :=
  match key with
  | .create _ => callId
  | .send agentId _ => agentId

structure Inv (s : AgentRequests) : Prop where
  chain : Chained s.calls s.pending
  fresh : ∀ call ∈ s.calls, call.id < s.nextId
  startsFresh : ∀ start ∈ s.starts, start.callId < s.nextId
  agent : ∀ call ∈ s.calls, call.agentId = agentOf call.key call.id
  startsAgent : ∀ start ∈ s.starts, start.agentId = agentOf start.key start.callId
  startsKey : ∀ call ∈ s.calls, ∀ start ∈ s.starts, start.callId = call.id → start.key = call.key
  /-- what cannot be taken back has a receipt -/
  kept : ∀ start ∈ s.starts, Effective s.agents start →
    ∃ receipt, s.receipts.get start.key = some receipt ∧ receipt.agentId = start.agentId
  sendOnce : ∀ agentId messageId,
    (s.starts.filter fun start => start.key = .send agentId messageId).length ≤ 1
  /-- a callback is started under a receipt of its own request -/
  logged : ∀ start ∈ s.starts,
    start.receipt = some ⟨start.fingerprint, start.agentId, .pending⟩
  done : ∀ entry ∈ s.settled, ∀ agentId, entry.outcome = .returned agentId →
    s.receipts.get entry.key = some ⟨entry.fingerprint, agentId, .completed⟩
  stages : ∀ call ∈ s.calls, s.StageInv call

theorem inv_empty : Inv empty where
  chain := PromiseChain.chained_nil _
  fresh := nofun
  startsFresh := nofun
  agent := nofun
  startsAgent := nofun
  startsKey := nofun
  kept := nofun
  sendOnce := fun _ _ => Nat.zero_le 1
  logged := nofun
  done := nofun
  stages := nofun

theorem findCall_eq_some {callId : ℕ} (h : s.findCall callId = some call) :
    call ∈ s.calls ∧ call.id = callId :=
  ⟨mem_of_find?_eq_some h, by simpa using find?_some h⟩

/-! ## Stages -/

theorem mem_setStage {stage : CallStage} {other : Call} (h : other ∈ (s.setStage call stage).calls) :
    other ∈ s.calls ∧ other.id ≠ call.id ∨
      ∃ old ∈ s.calls, old.id = call.id ∧ other = { old with stage } := by
  obtain ⟨old, hold, rfl⟩ := List.mem_map.mp h
  by_cases hid : old.id = call.id
  · rw [if_pos hid]
    exact .inr ⟨old, hold, hid, rfl⟩
  · rw [if_neg hid]
    exact .inl ⟨hold, hid⟩

theorem chained_setStage {stage : CallStage} (h : Inv s) (hcall : call ∈ s.calls)
    (hfirst : ∀ other ∈ s.calls, other.key = call.key → call.id ≤ other.id) :
    Chained (s.setStage call stage).calls s.pending := by
  apply h.chain.change
  · intro other
    show (if other.id = call.id then { other with stage } else other).id = other.id
    by_cases hid : other.id = call.id
    · rw [if_pos hid]
    · rw [if_neg hid]
  · intro other
    show (if other.id = call.id then { other with stage } else other).key = other.key
    by_cases hid : other.id = call.id
    · rw [if_pos hid]
    · rw [if_neg hid]
  · intro other hother
    by_cases hid : other.id = call.id
    · rw [h.chain.eq_of_ticket hcall hother hid]
      exact .inr hfirst
    · refine .inl ?_
      rw [if_neg hid]

theorem waiting_of_stage (h : ∀ previous, call.stage ≠ .waiting previous) : call.waiting = none := by
  unfold Call.waiting
  split
  · next previous hstage => exact absurd hstage (h previous)
  · rfl

/-- The new starts are of other keys, or the call waits. -/
theorem StageInv.of_starts (h : s.StageInv call) (hreceipts : s'.receipts = s.receipts)
    (hagents : s'.agents = s.agents)
    (hstarts : call.waiting = none → ∀ start ∈ s'.starts, start ∈ s.starts ∨ start.key ≠ call.key) :
    s'.StageInv call := by
  have hfree : call.waiting = none →
      (∀ start ∈ s.starts, start.key = call.key → ¬ Effective s.agents start) →
      ∀ start ∈ s'.starts, start.key = call.key → ¬ Effective s.agents start := by
    intro hbegun hnone start hstart hkey
    rcases hstarts hbegun start hstart with hold | hother
    · exact hnone start hold hkey
    · exact absurd hkey hother
  unfold Call.waiting at hfree
  unfold StageInv at h ⊢
  rw [hreceipts, hagents]
  cases hstage : call.stage with
  | starting =>
    rw [hstage] at h hfree
    exact ⟨h.1, hfree rfl h.2⟩
  | removing =>
    rw [hstage] at h hfree
    exact ⟨h.1, hfree rfl h.2⟩
  | _ =>
    rw [hstage] at h
    exact h

/-- A step of one call, which may change the receipt of its key. -/
theorem Inv.update (call : Call) (h : Inv s) (hchain : Chained s'.calls s'.pending)
    (hothers : ∀ other ∈ s'.calls, other.id ≠ call.id → other ∈ s.calls)
    (hown : ∀ other ∈ s'.calls, other.id = call.id →
      (∃ old ∈ s.calls, old.id = other.id ∧ old.key = other.key ∧ old.agentId = other.agentId) ∧
        s'.StageInv other)
    (hreceipts : ∀ key, key ≠ call.key → s'.receipts.get key = s.receipts.get key)
    (hquiet : s'.receipts.get call.key = s.receipts.get call.key ∨
      call ∈ s.calls ∧ call.waiting = none)
    (hagents : s'.agents = s.agents) (hstarts : s'.starts = s.starts)
    (hnextId : s'.nextId = s.nextId)
    (hkept : ∀ start ∈ s.starts, start.key = call.key → Effective s.agents start →
      ∃ receipt, s'.receipts.get call.key = some receipt ∧ receipt.agentId = start.agentId)
    (hdone : ∀ entry ∈ s'.settled, ∀ agentId, entry.outcome = .returned agentId →
      s'.receipts.get entry.key = some ⟨entry.fingerprint, agentId, .completed⟩) : Inv s' := by
  have hold : ∀ other ∈ s'.calls, ∃ old ∈ s.calls, old.id = other.id ∧ old.key = other.key ∧
      old.agentId = other.agentId := by
    intro other hother
    by_cases hid : other.id = call.id
    · exact (hown other hother hid).1
    · exact ⟨other, hothers other hother hid, rfl, rfl, rfl⟩
  refine ⟨hchain, ?_, ?_, ?_, ?_, ?_, ?_, ?_, ?_, hdone, ?_⟩
  · intro other hother
    obtain ⟨old, hmem, hid, -, -⟩ := hold other hother
    rw [hnextId, ← hid]
    exact h.fresh old hmem
  · rw [hstarts, hnextId]
    exact h.startsFresh
  · intro other hother
    obtain ⟨old, hmem, hid, hkey, hagent⟩ := hold other hother
    rw [← hagent, ← hkey, ← hid]
    exact h.agent old hmem
  · rw [hstarts]
    exact h.startsAgent
  · rw [hstarts]
    intro other hother start hstart heq
    obtain ⟨old, hmem, hid, hkey, -⟩ := hold other hother
    rw [← hkey]
    exact h.startsKey old hmem start hstart (heq.trans hid.symm)
  · rw [hstarts, hagents]
    intro start hstart heffective
    by_cases hkey : start.key = call.key
    · rw [hkey]
      exact hkept start hstart hkey heffective
    · rw [hreceipts start.key hkey]
      exact h.kept start hstart heffective
  · rw [hstarts]
    exact h.sendOnce
  · rw [hstarts]
    exact h.logged
  · intro other hother
    by_cases hid : other.id = call.id
    · exact (hown other hother hid).2
    · have hmem := hothers other hother hid
      have hstage := h.stages other hmem
      -- the receipt of the other call is as before, or the other call waits
      by_cases hsame : s'.receipts.get other.key = s.receipts.get other.key
      · unfold StageInv at hstage ⊢
        rw [hsame, hstarts, hagents]
        exact hstage
      · have hkey : other.key = call.key := by
          by_contra hne
          exact hsame (hreceipts other.key hne)
        rcases hquiet with hquiet | ⟨hcall, hbegun⟩
        · rw [hkey] at hsame
          exact absurd hquiet hsame
        · unfold StageInv
          split
          · trivial
          · trivial
          all_goals
            next hstage' =>
              refine absurd (congrArg Call.id (h.chain.unique hcall hmem hbegun ?_ hkey)) hid
              apply waiting_of_stage
              intro previous hwaits
              rw [hstage'] at hwaits
              cases hwaits

theorem mem_settle (outcome : Outcome) {other : Call}
    (h : other ∈ (s.settle call outcome).calls) : other ∈ s.calls ∧ other.id ≠ call.id := by
  obtain ⟨hmem, hne⟩ := mem_filter.mp h
  exact ⟨hmem, of_decide_eq_true hne⟩

namespace Inv

section

variable (h : Inv s)
include h

section

variable (hcall : call ∈ s.calls) {agentId : ℕ}
include hcall

section

variable (hbegun : call.waiting = none)
include hbegun

theorem first :
    ∀ other ∈ s.calls, other.key = call.key → call.id ≤ other.id :=
  h.chain.first_of_begun hcall hbegun

omit hbegun in
/-- A call goes on, possibly with another receipt under its key. -/
theorem setStage {stage : CallStage}
    (hfirst : ∀ other ∈ s.calls, other.key = call.key → call.id ≤ other.id)
    (receipts : OrderedMap RequestKey Receipt)
    (hreceipts : ∀ key, key ≠ call.key → receipts.get key = s.receipts.get key)
    (hquiet : receipts.get call.key = s.receipts.get call.key ∨ call.waiting = none)
    (hkept : ∀ start ∈ s.starts, start.key = call.key → Effective s.agents start →
      ∃ receipt, receipts.get call.key = some receipt ∧ receipt.agentId = start.agentId)
    (hdone : ∀ entry ∈ s.settled, ∀ agentId, entry.outcome = .returned agentId →
      receipts.get entry.key = some ⟨entry.fingerprint, agentId, .completed⟩)
    (hstage : StageInv { s with receipts } { call with stage }) :
    Inv { s.setStage call stage with receipts } := by
  refine Inv.update call h (chained_setStage h hcall hfirst) ?_ ?_ hreceipts
    (hquiet.imp_right fun hbegun => ⟨hcall, hbegun⟩) rfl rfl rfl hkept hdone
  · intro other hother hne
    rcases mem_setStage hother with ⟨hmem, -⟩ | ⟨old, -, hid, rfl⟩
    · exact hmem
    · exact absurd hid hne
  · intro other hother hid
    rcases mem_setStage hother with ⟨-, hne⟩ | ⟨old, hold, hsame, rfl⟩
    · exact absurd hid hne
    · rw [h.chain.eq_of_ticket hcall hold hsame]
      exact ⟨⟨call, hcall, rfl, rfl, rfl⟩, hstage⟩

omit hbegun in
/-- A call goes on, and its files are as before. -/
theorem goOn {stage : CallStage} (hfirst : ∀ other ∈ s.calls, other.key = call.key → call.id ≤ other.id)
    (hstage : s.StageInv { call with stage }) : Inv (s.setStage call stage) :=
  h.setStage hcall hfirst s.receipts (fun _ _ => rfl) (.inl rfl)
    (fun start hstart hkey heffective => hkey ▸ h.kept start hstart heffective) h.done hstage

/-- A call comes to its end, possibly with another receipt under its key. -/
theorem settle (outcome : Outcome)
    (receipts : OrderedMap RequestKey Receipt)
    (hreceipts : ∀ key, key ≠ call.key → receipts.get key = s.receipts.get key)
    (hkept : ∀ start ∈ s.starts, start.key = call.key → Effective s.agents start →
      ∃ receipt, receipts.get call.key = some receipt ∧ receipt.agentId = start.agentId)
    (hdone : ∀ entry ∈ s.settled, ∀ agentId, entry.outcome = .returned agentId →
      receipts.get entry.key = some ⟨entry.fingerprint, agentId, .completed⟩)
    (houtcome : ∀ agentId, outcome = .returned agentId →
      receipts.get call.key = some ⟨call.fingerprint, agentId, .completed⟩) :
    Inv { s.settle call outcome with receipts } := by
  refine Inv.update call h (h.chain.settle hcall hbegun) ?_ ?_ hreceipts
    (.inr ⟨hcall, hbegun⟩) rfl rfl rfl hkept ?_
  · exact fun other hother _ => (mem_settle outcome hother).1
  · exact fun other hother hid => absurd hid (mem_settle outcome hother).2
  · intro entry hentry
    rcases mem_append.mp hentry with hold | hnew
    · exact hdone entry hold
    · rw [mem_singleton.mp hnew]
      exact houtcome

/-- A call comes to its end, and its files are as before. -/
theorem finish {outcome : Outcome}
    (houtcome : ∀ agentId, outcome = .returned agentId →
      s.receipts.get call.key = some ⟨call.fingerprint, agentId, .completed⟩) :
    Inv (s.settle call outcome) :=
  h.settle hcall hbegun outcome s.receipts (fun _ _ => rfl)
    (fun start hstart hkey heffective => hkey ▸ h.kept start hstart heffective) h.done houtcome

/-! ## Steps -/

omit hbegun in
omit hcall in
/-- A request whose receipt is not completed has not succeeded. -/
theorem key_ne_of_done (call : Call) {entry : Settled} (hentry : entry ∈ s.settled)
    (houtcome : entry.outcome = .returned agentId)
    (hreceipt : ∀ receipt, s.receipts.get call.key = some receipt → receipt.state = .pending) :
    entry.key ≠ call.key := by
  intro hkey
  have hdone := h.done entry hentry agentId houtcome
  rw [hkey] at hdone
  cases hreceipt _ hdone

theorem readReceipt :
    Inv (s.readReceipt call) := by
  unfold AgentRequests.readReceipt
  split
  · next hnone =>
    apply h.goOn hcall (h.first hcall hbegun)
    by_cases hprepares : call.prepares = true
    · rw [if_pos hprepares]
      exact hnone
    · rw [if_neg hprepares]
      exact hnone
  · next existing hexisting =>
    split
    · exact h.finish hcall hbegun nofun
    · next hsame =>
      have hfingerprint := not_not.mp hsame
      split
      · next hstate =>
        apply h.finish hcall hbegun
        intro agentId houtcome
        injection houtcome with houtcome
        rw [hexisting, ← hfingerprint, ← houtcome, ← hstate]
      · next hstate =>
        apply h.goOn hcall (h.first hcall hbegun)
        show s.receipts.get call.key = some ⟨call.fingerprint, existing.agentId, .pending⟩
        rw [hexisting, ← hfingerprint, ← hstate]

end

theorem writePending (hstage : call.stage = .writing) :
    Inv (s.writePending call) := by
  have hbegun : call.waiting = none := waiting_of_stage (by rw [hstage]; exact nofun)
  have hnone : s.receipts.get call.key = none := by
    have hinv := h.stages call hcall
    unfold StageInv at hinv
    rw [hstage] at hinv
    exact hinv
  have hfree : ∀ start ∈ s.starts, start.key = call.key → ¬ Effective s.agents start := by
    intro start hstart hkey heffective
    obtain ⟨receipt, hreceipt, -⟩ := h.kept start hstart heffective
    rw [hkey, hnone] at hreceipt
    cases hreceipt
  apply h.setStage hcall (h.first hcall hbegun)
    (s.receipts.set call.key ⟨call.fingerprint, call.agentId, .pending⟩)
  · exact fun key hne => OrderedMap.get_set_ne hne
  · exact .inr hbegun
  · exact fun start hstart hkey heffective => absurd heffective (hfree start hstart hkey)
  · intro entry hentry agentId houtcome
    have hne := h.key_ne_of_done call hentry houtcome (by rw [hnone]; exact nofun)
    rw [OrderedMap.get_set_ne hne]
    exact h.done entry hentry agentId houtcome
  · exact ⟨OrderedMap.get_set_self, hfree⟩

theorem askRetrySafe (hstage : call.stage = .failed) :
    Inv (s.askRetrySafe call) := by
  have hbegun : call.waiting = none := waiting_of_stage (by rw [hstage]; exact nofun)
  have hinv := h.stages call hcall
  unfold StageInv at hinv
  rw [hstage] at hinv
  unfold AgentRequests.askRetrySafe
  split
  · next key hkey =>
    split
    · exact h.finish hcall hbegun nofun
    · next hgone =>
      apply h.goOn hcall (h.first hcall hbegun)
      refine ⟨hinv, ?_⟩
      -- a start that is effective has the receipt's agent, which does not exist
      intro start hstart hsame heffective
      obtain ⟨receipt, hreceipt, hagent⟩ := h.kept start hstart heffective
      rw [hsame, hinv] at hreceipt
      injection hreceipt with hreceipt
      rw [← hreceipt] at hagent
      unfold Effective at heffective
      rw [hsame, hkey, ← hagent] at heffective
      exact hgone heffective
  · exact h.finish hcall hbegun nofun

theorem removeReceipt (hstage : call.stage = .removing) :
    Inv (s.removeReceipt call) := by
  have hbegun : call.waiting = none := waiting_of_stage (by rw [hstage]; exact nofun)
  have hinv := h.stages call hcall
  unfold StageInv at hinv
  rw [hstage] at hinv
  apply h.settle hcall hbegun .threw (s.receipts.delete call.key)
  · exact fun key hne => OrderedMap.get_delete_ne hne
  · exact fun start hstart hkey heffective => absurd heffective (hinv.2 start hstart hkey)
  · intro entry hentry agentId houtcome
    have hne := h.key_ne_of_done call hentry houtcome (by
      intro receipt hreceipt
      rw [hinv.1] at hreceipt
      rw [← some.inj hreceipt])
    rw [OrderedMap.get_delete_ne hne]
    exact h.done entry hentry agentId houtcome
  · exact nofun

theorem recover (hstage : call.stage = .recovering agentId) :
    Inv (s.recover call agentId) := by
  have hbegun : call.waiting = none := waiting_of_stage (by rw [hstage]; exact nofun)
  have hinv := h.stages call hcall
  unfold StageInv at hinv
  rw [hstage] at hinv
  unfold AgentRequests.recover
  split
  · split
    · exact h.goOn hcall (h.first hcall hbegun) hinv
    · exact h.finish hcall hbegun nofun
  · exact h.finish hcall hbegun nofun

theorem writeCompleted (hstage : call.stage = .completing agentId) :
    Inv (s.writeCompleted call agentId) := by
  have hbegun : call.waiting = none := waiting_of_stage (by rw [hstage]; exact nofun)
  have hinv := h.stages call hcall
  unfold StageInv at hinv
  rw [hstage] at hinv
  apply h.settle hcall hbegun (.returned agentId) (s.receipts.set call.key ⟨call.fingerprint, agentId, .completed⟩)
  · exact fun key hne => OrderedMap.get_set_ne hne
  · intro start hstart hkey heffective
    obtain ⟨receipt, hreceipt, hagent⟩ := h.kept start hstart heffective
    rw [hkey, hinv] at hreceipt
    rw [← some.inj hreceipt] at hagent
    exact ⟨_, OrderedMap.get_set_self, hagent⟩
  · intro entry hentry agentId' houtcome
    have hne := h.key_ne_of_done call hentry houtcome (by
      intro receipt hreceipt
      rw [hinv] at hreceipt
      rw [← some.inj hreceipt])
    rw [OrderedMap.get_set_ne hne]
    exact h.done entry hentry agentId' houtcome
  · intro agentId' houtcome
    injection houtcome with houtcome
    rw [OrderedMap.get_set_self, houtcome]

/-- The first call of its key begins. -/
theorem begin {previous : Option ℕ} (hstage : call.stage = .waiting previous)
    (hready : ∀ other ∈ s.calls, previous ≠ some other.id) : Inv (s.setStage call .reading) := by
  have hwaiting : call.waiting = some previous := by
    unfold Call.waiting
    rw [hstage]
  apply h.goOn hcall (h.chain.first_of_ready hcall hwaiting hready)
  trivial

theorem startCallback (hstage : call.stage = .starting) :
    Inv (s.startCallback call) := by
  have hbegun : call.waiting = none := waiting_of_stage (by rw [hstage]; exact nofun)
  have hinv := h.stages call hcall
  unfold StageInv at hinv
  rw [hstage] at hinv
  obtain ⟨hreceipt, hfree⟩ := hinv
  have hgone : Inv (s.setStage call .running) := h.goOn hcall (h.first hcall hbegun) hreceipt
  refine ⟨hgone.chain, hgone.fresh, ?_, hgone.agent, ?_, ?_, ?_, ?_, ?_, hgone.done, ?_⟩
  · intro start hstart
    rcases mem_append.mp hstart with hold | hnew
    · exact h.startsFresh start hold
    · rw [mem_singleton.mp hnew]
      exact h.fresh call hcall
  · intro start hstart
    rcases mem_append.mp hstart with hold | hnew
    · exact h.startsAgent start hold
    · rw [mem_singleton.mp hnew]
      exact h.agent call hcall
  · intro other hother start hstart hid
    rcases mem_append.mp hstart with hold | hnew
    · exact hgone.startsKey other hother start hold hid
    · rw [mem_singleton.mp hnew] at hid ⊢
      rcases mem_setStage hother with ⟨hmem, hne⟩ | ⟨old, hmem, hsame, rfl⟩
      · exact absurd hid.symm hne
      · rw [h.chain.eq_of_ticket hcall hmem hsame]
  · intro start hstart heffective
    rcases mem_append.mp hstart with hold | hnew
    · exact h.kept start hold heffective
    · rw [mem_singleton.mp hnew]
      exact ⟨_, hreceipt, rfl⟩
  · intro agentId messageId
    show ((s.starts ++ _).filter _).length ≤ 1
    rw [filter_append, length_append]
    by_cases hkey : call.key = .send agentId messageId
    · -- no callback of the message has been started
      have hnone : (s.starts.filter fun start => start.key = .send agentId messageId) = [] := by
        apply filter_eq_nil_iff.mpr
        intro start hstart hsame
        have hsend := of_decide_eq_true hsame
        apply hfree start hstart (hsend.trans hkey.symm)
        unfold Effective
        rw [hsend]
        trivial
      rw [hnone, length_nil, Nat.zero_add]
      exact (length_filter_le _ _).trans (le_refl 1)
    · have hother : ([{ callId := call.id
                        key := call.key
                        fingerprint := call.fingerprint
                        agentId := call.agentId
                        receipt := s.receipts.get call.key }] : List Start).filter
          (fun start => start.key = .send agentId messageId) = [] :=
        filter_eq_nil_iff.mpr fun start hstart hsame => by
          rw [mem_singleton.mp hstart] at hsame
          exact hkey (of_decide_eq_true hsame)
      rw [hother, length_nil, Nat.add_zero]
      exact h.sendOnce agentId messageId
  · intro start hstart
    rcases mem_append.mp hstart with hold | hnew
    · exact h.logged start hold
    · rw [mem_singleton.mp hnew]
      exact hreceipt
  · intro other hother
    rcases mem_setStage hother with ⟨hmem, hne⟩ | ⟨old, hmem, hsame, rfl⟩
    · have hother' := h.stages other hmem
      -- a start of the same key is only added where the other call waits
      have hreceipts : (s.startCallback call).receipts = s.receipts := rfl
      apply hother'.of_starts hreceipts rfl
      intro hbegun' start hstart
      rcases mem_append.mp hstart with hold | hnew
      · exact .inl hold
      · refine .inr fun hkey => hne ?_
        rw [mem_singleton.mp hnew] at hkey
        exact congrArg Call.id (h.chain.unique hcall hmem hbegun hbegun' hkey.symm)
    · rw [h.chain.eq_of_ticket hcall hmem hsame]
      exact hreceipt

theorem takeEffect (hstage : call.stage = .running) :
    Inv (s.takeEffect call) := by
  have hinv := h.stages call hcall
  unfold StageInv at hinv
  rw [hstage] at hinv
  unfold AgentRequests.takeEffect
  split
  · next key hkey =>
    have hcallAgent : call.agentId = call.id := by
      rw [h.agent call hcall, hkey]
      rfl
    -- the agent of another call is another one
    have hsame : ∀ start ∈ s.starts, Effective (s.agents.insert call.agentId) start →
        Effective s.agents start ∨ start.key = call.key ∧ start.agentId = call.agentId := by
      intro start hstart heffective
      unfold Effective at heffective ⊢
      split at heffective
      · next other hother =>
        rcases mem_insert_iff.mp heffective with hnew | hold
        · have hid := h.startsAgent start hstart
          rw [hother] at hid
          refine .inr ⟨h.startsKey call hcall start hstart ?_, hnew⟩
          rw [← hcallAgent, ← hnew, hid]
          rfl
        · exact .inl hold
      · exact .inl trivial
    refine ⟨h.chain, h.fresh, h.startsFresh, h.agent, h.startsAgent, h.startsKey, ?_, h.sendOnce,
      h.logged, h.done, ?_⟩
    · intro start hstart heffective
      rcases hsame start hstart heffective with hold | ⟨hkeys, hagent⟩
      · exact h.kept start hstart hold
      · rw [hkeys]
        exact ⟨_, hinv, hagent.symm⟩
    · intro other hother
      have hotherInv := h.stages other hother
      have hfree : other.waiting = none → other ≠ call →
          (∀ start ∈ s.starts, start.key = other.key → ¬ Effective s.agents start) →
          ∀ start ∈ s.starts, start.key = other.key →
            ¬ Effective (s.agents.insert call.agentId) start := by
        intro hbegun hne hnone start hstart hkeys heffective
        rcases hsame start hstart heffective with hold | ⟨hkeys', -⟩
        · exact hnone start hstart hkeys hold
        · have hbegun' : call.waiting = none := waiting_of_stage (by simp [hstage])
          exact hne (h.chain.unique hcall hother hbegun' hbegun (hkeys.symm.trans hkeys'))
      have hne : (∀ previous, other.stage ≠ .waiting previous) → other.stage ≠ .running →
          other.waiting = none ∧ other ≠ call := by
        intro hbegun hrunning
        refine ⟨waiting_of_stage hbegun, ?_⟩
        rintro rfl
        exact hrunning hstage
      unfold StageInv at hotherInv ⊢
      cases hother : other.stage with
      | starting =>
        rw [hother] at hotherInv hne
        obtain ⟨hbegun, hdiffers⟩ := hne (by simp) (by simp)
        exact ⟨hotherInv.1, hfree hbegun hdiffers hotherInv.2⟩
      | removing =>
        rw [hother] at hotherInv hne
        obtain ⟨hbegun, hdiffers⟩ := hne (by simp) (by simp)
        exact ⟨hotherInv.1, hfree hbegun hdiffers hotherInv.2⟩
      | _ =>
        rw [hother] at hotherInv
        exact hotherInv
  · exact h

theorem stepCall (hstep : s.stepCall call event = some s') :
    Inv s' := by
  have hstage := h.stages call hcall
  unfold StageInv at hstage
  unfold AgentRequests.stepCall at hstep
  split at hstep
  · next previous _ hwaits =>
    split at hstep
    · cases hstep
    · next hready =>
      rw [← some.inj hstep]
      apply h.begin hcall hwaits
      intro other hother heq
      exact hready (List.any_eq_true.mpr ⟨other, hother, decide_eq_true heq⟩)
  · next hreads =>
    rw [← some.inj hstep]
    exact h.readReceipt hcall (waiting_of_stage (by rw [hreads]; exact nofun))
  · next succeeds hprepares =>
    have hbegun : call.waiting = none := waiting_of_stage (by rw [hprepares]; exact nofun)
    rw [hprepares] at hstage
    rw [← some.inj hstep]
    split
    · exact h.goOn hcall (h.first hcall hbegun) hstage
    · exact h.finish hcall hbegun nofun
  · next hwrites =>
    rw [← some.inj hstep]
    exact h.writePending hcall hwrites
  · next hstarts =>
    rw [← some.inj hstep]
    exact h.startCallback hcall hstarts
  · next hruns =>
    rw [← some.inj hstep]
    exact h.takeEffect hcall hruns
  · next succeeds hruns =>
    have hbegun : call.waiting = none := waiting_of_stage (by rw [hruns]; exact nofun)
    rw [hruns] at hstage
    rw [← some.inj hstep]
    apply h.goOn hcall (h.first hcall hbegun)
    split
    · exact hstage
    · exact hstage
  · next succeeds hfailed =>
    rw [← some.inj hstep]
    split
    · exact h.askRetrySafe hcall hfailed
    · exact h.finish hcall (waiting_of_stage (by rw [hfailed]; exact nofun)) nofun
  · next hremoves =>
    rw [← some.inj hstep]
    exact h.removeReceipt hcall hremoves
  · next agentId succeeds hrecovers =>
    rw [← some.inj hstep]
    split
    · exact h.recover hcall hrecovers
    · exact h.finish hcall (waiting_of_stage (by rw [hrecovers]; exact nofun)) nofun
  · next agentId hcompletes =>
    rw [← some.inj hstep]
    exact h.writeCompleted hcall hcompletes
  · cases hstep

end

/-- A call that comes in. -/
theorem execute (key : RequestKey) (fingerprint : String) {agentId : ℕ}
    (hagent : agentId = agentOf key s.nextId) (prepares : Bool) :
    Inv (s.execute key fingerprint agentId prepares) := by
  have hmem : ∀ call ∈ (s.execute key fingerprint agentId prepares).calls, call ∈ s.calls ∨
      call = ⟨s.nextId, key, fingerprint, agentId, prepares, .waiting (s.pending key)⟩ := by
    intro call hcall
    rcases mem_append.mp hcall with hold | hnew
    · exact .inl hold
    · exact .inr (mem_singleton.mp hnew)
  refine ⟨h.chain.enqueue h.fresh rfl, ?_, ?_, ?_, h.startsAgent, ?_, h.kept, h.sendOnce, h.logged,
    h.done, ?_⟩
  · intro call hcall
    rcases hmem call hcall with hold | rfl
    · exact (h.fresh call hold).trans (Nat.lt_succ_self _)
    · exact Nat.lt_succ_self _
  · exact fun start hstart => (h.startsFresh start hstart).trans (Nat.lt_succ_self _)
  · intro call hcall
    rcases hmem call hcall with hold | rfl
    · exact h.agent call hold
    · exact hagent
  · intro call hcall start hstart hid
    rcases hmem call hcall with hold | rfl
    · exact h.startsKey call hold start hstart hid
    · have hlt := h.startsFresh start hstart
      rw [hid] at hlt
      exact absurd hlt (lt_irrefl _)
  · intro call hcall
    rcases hmem call hcall with hold | rfl
    · exact h.stages call hold
    · trivial

theorem crash : Inv s.crash :=
  ⟨PromiseChain.chained_nil _, nofun, h.startsFresh, nofun, h.startsAgent, nofun, h.kept,
    h.sendOnce, h.logged, h.done, nofun⟩

theorem forget {key : RequestKey} {last : ℕ} (hlast : s.pending key = some last)
    (hsettled : ∀ call ∈ s.calls, call.id ≠ last) :
    Inv { s with pending := Function.update s.pending key none } :=
  ⟨h.chain.forget hlast hsettled, h.fresh, h.startsFresh, h.agent, h.startsAgent, h.startsKey,
    h.kept, h.sendOnce, h.logged, h.done, h.stages⟩

theorem step (hstep : s.step event = some s') : Inv s' := by
  have hfound : ∀ callId, ((s.findCall callId).bind fun call => s.stepCall call event) = some s' →
      Inv s' := by
    intro callId hbind
    obtain ⟨call, hfind, hcallStep⟩ := bind_eq_some_iff.mp hbind
    exact h.stepCall (findCall_eq_some hfind).1 hcallStep
  cases event with
  | create key fingerprint =>
    rw [← some.inj hstep]
    exact h.execute (.create key) fingerprint rfl false
  | send agentId messageId fingerprint prepares =>
    rw [← some.inj hstep]
    exact h.execute (.send agentId messageId) fingerprint rfl prepares
  | forget key =>
    rw [AgentRequests.step] at hstep
    split at hstep
    · cases hstep
    · next last hlast =>
      split at hstep
      · cases hstep
      · next hsettled =>
        rw [← some.inj hstep]
        apply h.forget hlast
        intro call hcall hid
        exact hsettled (List.any_eq_true.mpr ⟨call, hcall, decide_eq_true hid⟩)
  | crash =>
    rw [← some.inj hstep]
    exact h.crash
  | begin callId => exact hfound callId hstep
  | read callId => exact hfound callId hstep
  | prepared callId succeeds => exact hfound callId hstep
  | written callId => exact hfound callId hstep
  | start callId => exact hfound callId hstep
  | effect callId => exact hfound callId hstep
  | callbackEnds callId succeeds => exact hfound callId hstep
  | answered callId succeeds => exact hfound callId hstep
  | removed callId => exact hfound callId hstep
  | completed callId => exact hfound callId hstep

end

end Inv

end AgentRequests

end Orqara.Requests
