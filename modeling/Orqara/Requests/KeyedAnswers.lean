import Orqara.Requests.AtMostOnce

/-!
# Answers of keyed requests

A completed receipt stays as it is: no callback is started under its key any more, and every call
of its request returns its agent. With the invariants of the receipts this gives what the journal
promises over all stops of the daemon.
-/

namespace Orqara.Requests.AgentRequests

open List Option

variable {s s' : AgentRequests} {call : Call} {event : RequestEvent} {fingerprint : String} {agentId : ℕ}

/-! ## Completed receipts -/

/-- What completed receipts keep from one state to a later one. -/
structure Later (s s' : AgentRequests) : Prop where
  receipts : ∀ key fingerprint agentId,
    s.receipts.get key = some ⟨fingerprint, agentId, .completed⟩ →
    s'.receipts.get key = some ⟨fingerprint, agentId, .completed⟩
  starts : ∀ key fingerprint agentId,
    s.receipts.get key = some ⟨fingerprint, agentId, .completed⟩ →
    (s'.starts.filter fun start => start.key = key) = s.starts.filter fun start => start.key = key
  settled : ∀ entry ∈ s'.settled, entry ∈ s.settled ∨
    ∀ agentId, s.receipts.get entry.key = some ⟨entry.fingerprint, agentId, .completed⟩ →
      entry.outcome = .returned agentId

theorem Later.trans {s'' : AgentRequests} (h : Later s s') (h' : Later s' s'') : Later s s'' where
  receipts := fun key fingerprint agentId hdone =>
    h'.receipts key fingerprint agentId (h.receipts key fingerprint agentId hdone)
  starts := fun key fingerprint agentId hdone =>
    (h'.starts key fingerprint agentId (h.receipts key fingerprint agentId hdone)).trans
      (h.starts key fingerprint agentId hdone)
  settled := fun entry hentry => by
    rcases h'.settled entry hentry with hold | hnew
    · exact h.settled entry hold
    · exact .inr fun agentId hdone => hnew agentId (h.receipts _ _ agentId hdone)

/-- Files, starts and answers are as before. -/
theorem later_of_same (hreceipts : s'.receipts = s.receipts) (hstarts : s'.starts = s.starts)
    (hsettled : s'.settled = s.settled) : Later s s' where
  receipts := fun _ _ _ hdone => by
    rw [hreceipts]
    exact hdone
  starts := fun _ _ _ _ => by rw [hstarts]
  settled := fun entry hentry => .inl (hsettled ▸ hentry)

/-- The receipt of the call's key is not completed. -/
def Open (s : AgentRequests) (call : Call) : Prop :=
  ∀ receipt, s.receipts.get call.key = some receipt → receipt.state = .pending

theorem open_of_pending (h : s.receipts.get call.key = some ⟨fingerprint, agentId, .pending⟩) :
    s.Open call := by
  intro receipt hreceipt
  rw [h] at hreceipt
  rw [← some.inj hreceipt]

theorem Open.key_ne (h : s.Open call) {key : RequestKey}
    (hdone : s.receipts.get key = some ⟨fingerprint, agentId, .completed⟩) : key ≠ call.key := by
  rintro rfl
  cases h _ hdone

/-- A step under a receipt that is not completed. -/
theorem Open.later (h : s.Open call)
    (hreceipts : ∀ key, key ≠ call.key → s'.receipts.get key = s.receipts.get key)
    (hstarts : ∀ key, key ≠ call.key →
      (s'.starts.filter fun start => start.key = key) = s.starts.filter fun start => start.key = key)
    (hsettled : ∀ entry ∈ s'.settled, entry ∈ s.settled ∨ entry.key = call.key) : Later s s' where
  receipts := fun key fingerprint agentId hdone => by
    rw [hreceipts key (h.key_ne hdone)]
    exact hdone
  starts := fun key fingerprint agentId hdone => hstarts key (h.key_ne hdone)
  settled := fun entry hentry => by
    rcases hsettled entry hentry with hold | hkey
    · exact .inl hold
    · exact .inr fun agentId hdone => absurd hkey (h.key_ne hdone)

theorem mem_settled {outcome : Outcome} {entry : Settled}
    (h : entry ∈ (s.settle call outcome).settled) :
    entry ∈ s.settled ∨ entry = ⟨call.id, call.key, call.fingerprint, outcome⟩ := by
  rcases mem_append.mp h with hold | hnew
  · exact .inl hold
  · exact .inr (mem_singleton.mp hnew)

theorem Open.later_settle (h : s.Open call) (outcome : Outcome) :
    Later s (s.settle call outcome) := by
  apply h.later
  · exact fun _ _ => rfl
  · exact fun _ _ => rfl
  · intro entry hentry
    rcases mem_settled hentry with hold | rfl
    · exact .inl hold
    · exact .inr rfl

theorem later_readReceipt (s : AgentRequests) (call : Call) : Later s (s.readReceipt call) := by
  unfold readReceipt
  split
  · exact later_of_same rfl rfl rfl
  · next existing hexisting =>
    -- the only answers are those of the receipt that was read
    have hanswer : ∀ outcome, (∀ agentId,
        existing = ⟨call.fingerprint, agentId, .completed⟩ → outcome = .returned agentId) →
        Later s (s.settle call outcome) := by
      intro outcome houtcome
      refine ⟨fun _ _ _ hdone => hdone, fun _ _ _ _ => rfl, ?_⟩
      intro entry hentry
      rcases mem_settled hentry with hold | rfl
      · exact .inl hold
      · refine .inr fun agentId hdone => houtcome agentId ?_
        rw [hexisting] at hdone
        exact some.inj hdone
    split
    · next hdiffers =>
      apply hanswer
      rintro agentId rfl
      exact absurd rfl hdiffers
    · split
      · apply hanswer
        rintro agentId rfl
        rfl
      · exact later_of_same rfl rfl rfl

theorem later_stepCall (h : Inv s) (hcall : call ∈ s.calls)
    (hstep : s.stepCall call event = some s') : Later s s' := by
  have hstage := h.stages call hcall
  unfold StageInv at hstage
  unfold stepCall at hstep
  split at hstep
  · split at hstep
    · cases hstep
    · rw [← some.inj hstep]
      exact later_of_same rfl rfl rfl
  · rw [← some.inj hstep]
    exact later_readReceipt s call
  · next succeeds hprepares =>
    rw [hprepares] at hstage
    have hopen : s.Open call := by
      intro receipt hreceipt
      rw [hstage] at hreceipt
      cases hreceipt
    rw [← some.inj hstep]
    split
    · exact later_of_same rfl rfl rfl
    · exact hopen.later_settle .threw
  · next hwrites =>
    rw [hwrites] at hstage
    have hopen : s.Open call := by
      intro receipt hreceipt
      rw [hstage] at hreceipt
      cases hreceipt
    rw [← some.inj hstep]
    apply hopen.later
    · exact fun key hne => OrderedMap.get_set_ne hne
    · exact fun _ _ => rfl
    · exact fun _ hentry => .inl hentry
  · next hstarts =>
    rw [hstarts] at hstage
    rw [← some.inj hstep]
    apply (open_of_pending hstage.1).later
    · exact fun _ _ => rfl
    · intro key hne
      show (s.starts ++ _).filter _ = _
      rw [filter_append]
      refine (congrArg _ (filter_eq_nil_iff.mpr ?_)).trans (append_nil _)
      intro start hstart hkey
      rw [mem_singleton.mp hstart] at hkey
      exact hne (of_decide_eq_true hkey).symm
    · exact fun _ hentry => .inl hentry
  · rw [← some.inj hstep]
    unfold takeEffect
    split
    · exact later_of_same rfl rfl rfl
    · exact later_of_same rfl rfl rfl
  · rw [← some.inj hstep]
    exact later_of_same rfl rfl rfl
  · next succeeds hfailed =>
    rw [hfailed] at hstage
    have hopen := open_of_pending hstage
    rw [← some.inj hstep]
    split
    · unfold askRetrySafe
      split
      · split
        · exact hopen.later_settle .threw
        · exact later_of_same rfl rfl rfl
      · exact hopen.later_settle .threw
    · exact hopen.later_settle .threw
  · next hremoves =>
    rw [hremoves] at hstage
    rw [← some.inj hstep]
    apply (open_of_pending hstage.1).later
    · exact fun key hne => OrderedMap.get_delete_ne hne
    · exact fun _ _ => rfl
    · intro entry hentry
      rcases mem_settled hentry with hold | rfl
      · exact .inl hold
      · exact .inr rfl
  · next agentId succeeds hrecovers =>
    rw [hrecovers] at hstage
    have hopen := open_of_pending hstage
    rw [← some.inj hstep]
    split
    · unfold recover
      split
      · split
        · exact later_of_same rfl rfl rfl
        · exact hopen.later_settle .outcomeUnknown
      · exact hopen.later_settle .outcomeUnknown
    · exact hopen.later_settle .threw
  · next agentId hcompletes =>
    rw [hcompletes] at hstage
    rw [← some.inj hstep]
    apply (open_of_pending hstage).later
    · exact fun key hne => OrderedMap.get_set_ne hne
    · exact fun _ _ => rfl
    · intro entry hentry
      rcases mem_settled hentry with hold | rfl
      · exact .inl hold
      · exact .inr rfl
  · cases hstep

theorem later_step (h : Inv s) (hstep : s.step event = some s') : Later s s' := by
  have hfound : ∀ callId, ((s.findCall callId).bind fun call => s.stepCall call event) = some s' →
      Later s s' := by
    intro callId hbind
    obtain ⟨call, hfind, hcallStep⟩ := bind_eq_some_iff.mp hbind
    exact later_stepCall h (findCall_eq_some hfind).1 hcallStep
  cases event with
  | create key fingerprint =>
    rw [← some.inj hstep]
    exact later_of_same rfl rfl rfl
  | send agentId messageId fingerprint prepares =>
    rw [← some.inj hstep]
    exact later_of_same rfl rfl rfl
  | forget key =>
    rw [step] at hstep
    split at hstep
    · cases hstep
    · split at hstep
      · cases hstep
      · rw [← some.inj hstep]
        exact later_of_same rfl rfl rfl
  | crash =>
    rw [← some.inj hstep]
    exact later_of_same rfl rfl rfl
  | begin callId => exact hfound callId hstep
  | read callId => exact hfound callId hstep
  | prepared callId succeeds => exact hfound callId hstep
  | written callId => exact hfound callId hstep
  | start callId => exact hfound callId hstep
  | effect callId => exact hfound callId hstep
  | callbackEnds callId succeeds => exact hfound callId hstep
  | answered callId succeeds => exact hfound callId hstep
  | removed callId => exact hfound callId hstep
  | completed callId => exact hfound callId hstep

theorem run_spec {events : List RequestEvent} (h : Inv s) (hrun : s.run events = some s') :
    Inv s' ∧ Later s s' := by
  induction events generalizing s with
  | nil =>
    rw [← some.inj hrun]
    exact ⟨h, later_of_same rfl rfl rfl⟩
  | cons event events ih =>
    obtain ⟨middle, hstep, hrest⟩ := bind_eq_some_iff.mp hrun
    obtain ⟨hlast, hlater⟩ := ih (h.step hstep) hrest
    exact ⟨hlast, (later_step h hstep).trans hlater⟩

/-! ## Runs -/

structure AtMostOnce (s : AgentRequests) : Prop where
  /-- the callback of a message is started once at most -/
  sendOnce : ∀ agentId messageId,
    (s.starts.filter fun start => start.key = .send agentId messageId).length ≤ 1
  /-- the agents that callbacks of one key have created are one -/
  oneAgent : ∀ key, ∀ start ∈ s.starts, ∀ other ∈ s.starts, start.key = .create key →
    other.key = .create key → start.agentId ∈ s.agents → other.agentId ∈ s.agents →
    start.agentId = other.agentId
  /-- a callback is started only where the receipt of its key is of its own request -/
  ownRequest : ∀ start ∈ s.starts,
    start.receipt = some ⟨start.fingerprint, start.agentId, .pending⟩

/-- After an answer, every call with its key and request is answered the same and runs nothing. -/
structure SameAnswers (s s' : AgentRequests) (key : RequestKey) (fingerprint : String)
    (agentId : ℕ) : Prop where
  starts : (s'.starts.filter fun start => start.key = key) =
    s.starts.filter fun start => start.key = key
  settled : ∀ entry ∈ s'.settled, entry ∉ s.settled → entry.key = key →
    entry.fingerprint = fingerprint → entry.outcome = .returned agentId
  calls : ∀ call ∈ s'.calls, call.key = key → call.fingerprint = fingerprint →
    (∃ previous, call.stage = .waiting previous) ∨
      call.stage = .reading ∧ s'.readReceipt call = s'.settle call (.returned agentId)

theorem Inv.atMostOnce (h : Inv s) : s.AtMostOnce where
  sendOnce := h.sendOnce
  oneAgent := fun key start hstart other hother hkey hkey' hagent hagent' => by
    have heffective : Effective s.agents start := by
      unfold Effective
      rw [hkey]
      exact hagent
    have heffective' : Effective s.agents other := by
      unfold Effective
      rw [hkey']
      exact hagent'
    obtain ⟨receipt, hreceipt, hsame⟩ := h.kept start hstart heffective
    obtain ⟨receipt', hreceipt', hsame'⟩ := h.kept other hother heffective'
    rw [hkey] at hreceipt
    rw [hkey', hreceipt] at hreceipt'
    rw [← hsame, ← hsame', some.inj hreceipt']
  ownRequest := h.logged

theorem Inv.sameAnswers (h : Inv s') (hlater : Later s s') {key : RequestKey}
    (hdone : s.receipts.get key = some ⟨fingerprint, agentId, .completed⟩) :
    SameAnswers s s' key fingerprint agentId where
  starts := hlater.starts key fingerprint agentId hdone
  settled := fun entry hentry hnew hkey hfingerprint => by
    rcases hlater.settled entry hentry with hold | hanswer
    · exact absurd hold hnew
    · apply hanswer
      rw [hkey, hfingerprint]
      exact hdone
  calls := fun call hcall hkey hfingerprint => by
    have hkept := hlater.receipts key fingerprint agentId hdone
    have hstage := h.stages call hcall
    unfold StageInv at hstage
    rw [hkey, hkept] at hstage
    cases hcase : call.stage with
    | waiting previous => exact .inl ⟨previous, rfl⟩
    | reading =>
      refine .inr ⟨rfl, ?_⟩
      unfold AgentRequests.readReceipt
      rw [hkey, hkept]
      simp only [hfingerprint, ne_eq, not_true_eq_false, if_false]
    | preparing | writing | running | failed | completing | recovering =>
      rw [hcase] at hstage
      cases hstage
    | starting | removing =>
      rw [hcase] at hstage
      cases hstage.1

def firstRequest : List RequestEvent :=
  [.create "key" "request", .begin 0, .read 0, .written 0, .start 0, .effect 0,
    .callbackEnds 0 true, .completed 0]

def repeatedRequest : List RequestEvent := [.crash, .create "key" "request", .begin 1, .read 1]

end Orqara.Requests.AgentRequests
