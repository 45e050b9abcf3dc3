import Orqara.Terminal.TerminalStreamController

/-!
# Which subscription counts

Whether a completion is stale is judged by the terminal alone. As long as no terminal is set again
while an earlier call for it is under way, only the latest call counts, and every call that has
succeeded is followed by one unsubscribe or exit before the next call or the end.
-/

namespace Orqara.Terminal

open List Option

def SubscribeResult.fails : SubscribeResult → Bool
  | .rejected _ => true
  | .payload error => truthy error

def SubscribeCall.failed (call : SubscribeCall) : Bool := call.result.any SubscribeResult.fails

def SubscribeCall.succeeded (call : SubscribeCall) : Bool :=
  call.result.any fun result => !result.fails

/-- The effects that end a subscription. -/
def StreamEffect.releases (terminalId : String) : StreamEffect → Bool
  | .unsubscribeTerminal id | .exited id => id == terminalId
  | _ => false

namespace StreamController

variable {s s' : StreamController} {n : ℕ} {terminalId : String} {call : SubscribeCall}
  {effect : StreamEffect} {result : SubscribeResult}

/-- How often a terminal was released between a call and the next. -/
def releases (s : StreamController) (n : ℕ) (terminalId : String) : ℕ :=
  s.effects.countP fun effect => effect.1 == n + 1 && effect.2.releases terminalId

/-- The call has failed while it counted, or was released once. -/
def Ended (s : StreamController) (n : ℕ) (call : SubscribeCall) : Prop :=
  call.failed ∨ s.releases n call.terminalId = 1

/-- The call counts: it is the latest, of the current terminal. -/
structure Current (s : StreamController) (n : ℕ) (call : SubscribeCall) : Prop where
  latest : n + 1 = s.calls.length
  terminalId : s.terminalId = some call.terminalId
  open' : s.releases n call.terminalId = 0
  succeeded : call.failed = false

structure Inv (s : StreamController) : Prop where
  tags : ∀ effect ∈ s.effects, effect.1 ≤ s.calls.length
  calls : ∀ (n : ℕ) (call : SubscribeCall), s.calls[n]? = some call →
    call.terminalId ≠ "" ∧ (s.Current n call ∨ s.Ended n call)
  current : ∀ id, s.terminalId = some id → id ≠ "" →
    ∃ (n : ℕ) (call : SubscribeCall), s.calls[n]? = some call ∧ s.Current n call
  disposed : s.disposed → s.terminalId = none

theorem inv_init : Inv {} where
  tags := nofun
  calls := nofun
  current := nofun
  disposed := nofun

/-! ## Effects -/

theorem releases_emit (effect : StreamEffect) (n : ℕ) (terminalId : String) :
    (s.emit effect).releases n terminalId = s.releases n terminalId +
      if s.calls.length = n + 1 ∧ effect.releases terminalId then 1 else 0 := by
  rw [releases, releases, emit, countP_append, countP_singleton]
  simp

theorem releases_of_tag (h : ∀ effect ∈ s.effects, effect.1 ≤ n) : s.releases n terminalId = 0 := by
  rw [releases, countP_eq_zero]
  intro effect hmem hreleases
  have hle := h effect hmem
  simp only [Bool.and_eq_true, beq_iff_eq] at hreleases
  omega

theorem tags_emit (h : ∀ effect ∈ s.effects, effect.1 ≤ s.calls.length) (effect : StreamEffect) :
    ∀ other ∈ (s.emit effect).effects, other.1 ≤ (s.emit effect).calls.length := by
  intro other hother
  rcases mem_append.mp hother with hother | hother
  · exact h other hother
  · rw [mem_singleton.mp hother]
    exact le_rfl

/-- An effect that releases nothing. -/
theorem Inv.emit (h : Inv s) (hreleases : ∀ terminalId, effect.releases terminalId = false) :
    Inv (s.emit effect) := by
  have hsame : ∀ n terminalId, (s.emit effect).releases n terminalId = s.releases n terminalId := by
    intro n terminalId
    rw [releases_emit, hreleases]
    simp
  have hcurrent : ∀ {n call}, s.Current n call → (s.emit effect).Current n call := by
    intro n call hcurrent
    exact ⟨hcurrent.latest, hcurrent.terminalId, (hsame _ _).trans hcurrent.open', hcurrent.succeeded⟩
  refine ⟨tags_emit h.tags effect, ?_, ?_, h.disposed⟩
  · intro n call hcall
    obtain ⟨hne, hcase⟩ := h.calls n call hcall
    refine ⟨hne, hcase.imp hcurrent fun hended => ?_⟩
    rw [Ended, hsame]
    exact hended
  · intro id hid hne
    obtain ⟨n, call, hcall, hcase⟩ := h.current id hid hne
    exact ⟨n, call, hcall, hcurrent hcase⟩

/-! ## Leaving a terminal -/

/-- No call counts any more. -/
structure AllEnded (s : StreamController) : Prop where
  tags : ∀ effect ∈ s.effects, effect.1 ≤ s.calls.length
  calls : ∀ (n : ℕ) (call : SubscribeCall), s.calls[n]? = some call →
    call.terminalId ≠ "" ∧ s.Ended n call

theorem AllEnded.emit (h : AllEnded s)
    (hreleases : ∀ terminalId, terminalId ≠ "" → effect.releases terminalId = false) :
    AllEnded (s.emit effect) := by
  refine ⟨tags_emit h.tags effect, fun n call hcall => ?_⟩
  obtain ⟨hne, hended⟩ := h.calls n call hcall
  refine ⟨hne, ?_⟩
  rw [Ended] at hended ⊢
  rw [releases_emit, hreleases _ hne]
  simpa using hended

theorem AllEnded.inv (h : AllEnded s) (hterminal : ∀ id, s.terminalId = some id → id = "")
    (hdisposed : s.disposed → s.terminalId = none) : Inv s where
  tags := h.tags
  calls n call hcall := ⟨(h.calls n call hcall).1, Or.inr (h.calls n call hcall).2⟩
  current id hid hne := absurd (hterminal id hid) hne
  disposed := hdisposed

section

variable (h : Inv s)
include h

/-- The release of the current terminal ends the latest call, and touches no other. -/
theorem Inv.allEnded {terminalId : String} (hne : terminalId ≠ "")
    (hcurrent : s.terminalId = some terminalId)
    (hreleases : ∀ id, effect.releases id = (terminalId == id)) (hs' : s'.effects = s.effects)
    (hcalls : s'.calls = s.calls) : AllEnded (s'.emit effect) := by
  have hsame : ∀ n id, s'.releases n id = s.releases n id := by
    intro n id
    rw [releases, releases, hs']
  refine ⟨tags_emit (by rw [hs', hcalls]; exact h.tags) effect, fun n call hcall => ?_⟩
  have hcall' : s.calls[n]? = some call := by
    rw [← hcalls]
    exact hcall
  obtain ⟨hid, hcase⟩ := h.calls n call hcall'
  refine ⟨hid, ?_⟩
  rw [Ended, releases_emit, hsame, hreleases, hcalls]
  obtain ⟨latest, last, hlast, hcounts⟩ := h.current terminalId hcurrent hne
  rcases hcase with hcase | hended
  · have hterminal : terminalId = call.terminalId := by
      have heq := hcurrent.symm.trans hcase.terminalId
      exact some.inj heq
    right
    rw [hcase.open', if_pos ⟨hcase.latest.symm, by rw [hterminal]; exact beq_self_eq_true _⟩]
  · refine hended.imp id fun hone => ?_
    have hnot : ¬ (s.calls.length = n + 1 ∧ (terminalId == call.terminalId) = true) := by
      rintro ⟨hlength, -⟩
      -- the latest call counts, so it was not released before
      have hn : n = latest := by
        have := hcounts.latest
        omega
      rw [hn, hlast] at hcall'
      have hcalleq := some.inj hcall'
      rw [hn, ← hcalleq, hcounts.open'] at hone
      contradiction
    rw [hone, if_neg hnot]

theorem Inv.allEnded_of_none (hcurrent : ∀ id, s.terminalId = some id → id = "")
    (hs' : s'.effects = s.effects) (hcalls : s'.calls = s.calls) : AllEnded s' := by
  refine ⟨by rw [hs', hcalls]; exact h.tags, fun n call hcall => ?_⟩
  rw [hcalls] at hcall
  obtain ⟨hid, hcase⟩ := h.calls n call hcall
  refine ⟨hid, ?_⟩
  rcases hcase with hcase | hended
  · exact absurd (hcurrent _ hcase.terminalId) hid
  · rw [Ended, releases, hs']
    exact hended

theorem Inv.allEnded_unsubscribe (hs' : s'.effects = s.effects) (hcalls : s'.calls = s.calls) :
    AllEnded (s'.unsubscribe s.terminalId) := by
  unfold unsubscribe
  cases hterminal : s.terminalId with
  | none =>
    exact h.allEnded_of_none (fun id hid => by rw [hterminal] at hid; contradiction) hs' hcalls
  | some terminalId =>
    by_cases hne : terminalId = ""
    · rw [hne, filter_some_neg (by simp)]
      apply h.allEnded_of_none _ hs' hcalls
      intro id hid
      rw [hterminal] at hid
      rw [← some.inj hid, hne]
    · rw [filter_some_pos (by simpa using hne)]
      exact h.allEnded hne hterminal (fun id => rfl) hs' hcalls

/-! ## Steps -/

omit h in
theorem AllEnded.inv_subscribe (h : AllEnded s) (hterminal : s.terminalId = some terminalId)
    (hne : terminalId ≠ "") (hdisposed : s.disposed = false) (restoresSize : Bool) :
    Inv { s with calls := s.calls ++ [⟨terminalId, restoresSize, none⟩] } := by
  have hcurrent : ({ s with calls := s.calls ++ [⟨terminalId, restoresSize, none⟩] } :
      StreamController).Current s.calls.length ⟨terminalId, restoresSize, none⟩ := by
    refine ⟨by simp, hterminal, releases_of_tag h.tags, rfl⟩
  refine ⟨?_, ?_, ?_, ?_⟩
  · intro effect hmem
    have hle := h.tags effect hmem
    rw [length_append]
    omega
  · intro n call hcall
    rw [getElem?_append] at hcall
    split_ifs at hcall with hlt
    · obtain ⟨hid, hended⟩ := h.calls n call hcall
      exact ⟨hid, Or.inr hended⟩
    · have hn : n = s.calls.length := by
        have hlast := (List.getElem?_eq_some_iff.mp hcall).1
        rw [length_singleton] at hlast
        omega
      rw [hn, Nat.sub_self] at hcall
      rw [hn, ← some.inj hcall]
      exact ⟨hne, Or.inl hcurrent⟩
  · intro id hid _
    refine ⟨s.calls.length, _, ?_, hcurrent⟩
    rw [getElem?_append_right le_rfl, Nat.sub_self]
    rfl
  · intro htrue
    exact absurd htrue (by rw [hdisposed]; nofun)

theorem inv_setTerminal (next : Option String) (restoresSize : Bool) :
    Inv (s.setTerminal next restoresSize) := by
  unfold setTerminal
  split_ifs with hsame
  · exact h
  · rw [Bool.or_eq_true, not_or, Bool.not_eq_true, Bool.not_eq_true] at hsame
    have hleft : AllEnded ({ s with terminalId := next }.unsubscribe s.terminalId) :=
      h.allEnded_unsubscribe rfl rfl
    have hkept : ({ s with terminalId := next }.unsubscribe s.terminalId).terminalId = next ∧
        ({ s with terminalId := next }.unsubscribe s.terminalId).disposed = false := by
      unfold unsubscribe
      split <;> exact ⟨rfl, hsame.1⟩
    generalize { s with terminalId := next }.unsubscribe s.terminalId = left at hleft hkept
    cases hnext : next.filter (· ≠ "") with
    | none =>
      refine (hleft.emit fun _ _ => rfl).inv ?_ fun htrue => ?_
      · intro id hid
        have hid' : next = some id := hkept.1.symm.trans hid
        rw [hid'] at hnext
        by_contra hne
        rw [filter_some_pos (by simpa using hne)] at hnext
        contradiction
      · have hdisposed : left.disposed = true := htrue
        rw [hkept.2] at hdisposed
        contradiction
    | some id =>
      obtain ⟨hid, hne⟩ := filter_eq_some_iff.mp hnext
      exact AllEnded.inv_subscribe (hleft.emit fun _ _ => rfl) (hkept.1.trans hid)
        (by simpa using hne) hkept.2 restoresSize

section

variable (hcall : s.calls[n]? = some call)
include hcall

/-- The result of a call that does not count, or of the latest one, if it has not failed. -/
theorem Inv.set (hnone : call.result = none) (hok : s.Current n call → result.fails = false) :
    Inv { s with calls := s.calls.set n { call with result := some result } } := by
  have hlt := (List.getElem?_eq_some_iff.mp hcall).1
  have hget : ∀ m other, (s.calls.set n { call with result := some result })[m]? = some other →
      (m = n ∧ other = { call with result := some result }) ∨ s.calls[m]? = some other := by
    intro m other hother
    rw [getElem?_set] at hother
    split_ifs at hother with hmn
    · exact Or.inl ⟨hmn.symm, (some.inj hother).symm⟩
    · exact Or.inr hother
  have hcurrent : ∀ m other, s.Current m other → ({ s with
      calls := s.calls.set n { call with result := some result } } : StreamController).Current m other := by
    intro m other hm
    exact ⟨by rw [length_set]; exact hm.latest, hm.terminalId, hm.open', hm.succeeded⟩
  have hset : s.Current n call → ({ s with
      calls := s.calls.set n { call with result := some result } } : StreamController).Current n
        { call with result := some result } := by
    intro hn
    exact ⟨by rw [length_set]; exact hn.latest, hn.terminalId, hn.open', hok hn⟩
  refine ⟨by rw [length_set]; exact h.tags, ?_, ?_, h.disposed⟩
  · intro m other hother
    rcases hget m other hother with ⟨rfl, rfl⟩ | hold
    · obtain ⟨hid, hcase⟩ := h.calls m call hcall
      refine ⟨hid, hcase.imp hset fun hended => Or.inr ?_⟩
      rcases hended with hfailed | hone
      · rw [SubscribeCall.failed, hnone] at hfailed
        contradiction
      · exact hone
    · obtain ⟨hid, hcase⟩ := h.calls m other hold
      exact ⟨hid, hcase.imp (hcurrent m other) fun hended => hended⟩
  · intro id hid hne
    obtain ⟨m, other, hother, hcounts⟩ := h.current id hid hne
    by_cases hmn : m = n
    · rw [hmn, hcall] at hother
      rw [← some.inj hother, hmn] at hcounts
      refine ⟨n, _, ?_, hset hcounts⟩
      rw [getElem?_set_self hlt]
    · refine ⟨m, other, ?_, hcurrent m other hcounts⟩
      rw [getElem?_set_ne fun heq => hmn heq.symm]
      exact hother

/-- The latest call fails while it counts. -/
theorem inv_failed (hcounts : s.Current n call) (hfails : result.fails) (error : Option String) :
    Inv ({ s with
      calls := s.calls.set n { call with result := some result }, terminalId := none }.emitStatus
        (some call.terminalId) false error) := by
  have hended : AllEnded { s with
      calls := s.calls.set n { call with result := some result }, terminalId := none } := by
    refine ⟨by rw [length_set]; exact h.tags, fun m other hother => ?_⟩
    rw [getElem?_set] at hother
    split_ifs at hother with hmn
    · rw [← some.inj hother]
      exact ⟨(h.calls n call hcall).1, Or.inl hfails⟩
    · obtain ⟨hid, hcase⟩ := h.calls m other hother
      refine ⟨hid, ?_⟩
      rcases hcase with hcase | hended
      · have hlatest := hcase.latest
        have hlatest' := hcounts.latest
        omega
      · exact hended
  exact (hended.emit fun _ _ => rfl).inv nofun fun _ => rfl

/-- The current terminal is that of the latest call. -/
theorem Inv.current_latest (hlatest : n + 1 = s.calls.length)
    (hterminal : s.terminalId = some call.terminalId) :
    s.Current n call := by
  obtain ⟨m, other, hother, hcounts⟩ := h.current _ hterminal (h.calls n call hcall).1
  have hmn : m = n := by
    have hm := hcounts.latest
    omega
  rw [hmn, hcall] at hother
  rw [some.inj hother, ← hmn]
  exact hcounts

omit hcall in
theorem Inv.attached (terminalId : String) (size : Option StreamSize) :
    Inv ((match size with
      | some size => s.emit (.resize terminalId size)
      | none => s).emitStatus (some terminalId) false none) := by
  have hresized : Inv (match size with
      | some size => s.emit (.resize terminalId size)
      | none => s) := by
    cases size with
    | some size => exact h.emit fun _ => rfl
    | none => exact h
  exact hresized.emit fun _ => rfl

theorem inv_completed (hnone : call.result = none) (result : SubscribeResult)
    (preferredSize : Option StreamSize)
    (hlatest : s.terminalId = some call.terminalId → s.disposed = false → n + 1 = s.calls.length) :
    Inv ({ s with calls := s.calls.set n { call with result := some result } }.complete call result
      preferredSize) := by
  unfold complete
  by_cases hstale : (s.disposed || s.terminalId != some call.terminalId) = true
  · rw [if_pos hstale]
    apply h.set hcall hnone
    intro hcounts
    -- a call that counts is of the current terminal, and nothing is current once disposed
    rw [Bool.or_eq_true] at hstale
    rcases hstale with hdisposed | hother
    · have hnone' := h.disposed hdisposed
      rw [hcounts.terminalId] at hnone'
      contradiction
    · simp [hcounts.terminalId] at hother
  · rw [if_neg hstale]
    rw [Bool.or_eq_true, not_or, Bool.not_eq_true, Bool.not_eq_true] at hstale
    have hterminal : s.terminalId = some call.terminalId := by simpa using hstale.2
    have hcounts := h.current_latest hcall (hlatest hterminal hstale.1) hterminal
    cases result with
    | rejected message => exact inv_failed h hcall hcounts rfl (some message)
    | payload error =>
      dsimp only
      by_cases herror : truthy error = true
      · rw [if_pos herror]
        have hfails : (SubscribeResult.payload error).fails = true := herror
        exact inv_failed h hcall hcounts hfails error
      · rw [if_neg herror]
        have hset : Inv { s with calls := s.calls.set n { call with result := some (.payload error) } } :=
          h.set hcall hnone fun _ => by simpa [SubscribeResult.fails] using herror
        exact hset.attached call.terminalId _

end

theorem inv_handleTerminalExit (terminalId : String) :
    Inv (s.handleTerminalExit terminalId) := by
  unfold handleTerminalExit
  split_ifs with hother
  · exact h
  · rw [Bool.or_eq_true, not_or, Bool.not_eq_true, Bool.not_eq_true] at hother
    have hterminal : s.terminalId = some terminalId := (bne_eq_false_iff_eq.mp hother.2).symm
    have hended : AllEnded ({ s with terminalId := none }.emit (.exited terminalId)) := by
      by_cases hne : terminalId = ""
      · have hnone : AllEnded { s with terminalId := none } := by
          refine h.allEnded_of_none (fun id hid => ?_) rfl rfl
          rw [hterminal] at hid
          rw [← some.inj hid, hne]
        refine hnone.emit fun id hid => ?_
        rw [hne]
        simpa [StreamEffect.releases] using fun heq : "" = id => hid heq.symm
      · exact h.allEnded hne hterminal (fun id => rfl) rfl rfl
    exact (hended.emit fun _ _ => rfl).inv nofun fun _ => rfl

theorem inv_dispose : Inv s.dispose := by
  unfold dispose
  split_ifs
  · exact h
  · have hleft : AllEnded ({ s with disposed := true, terminalId := none }.unsubscribe s.terminalId) :=
      h.allEnded_unsubscribe rfl rfl
    have hkept : ({ s with disposed := true, terminalId := none }.unsubscribe
        s.terminalId).terminalId = none := by
      unfold unsubscribe
      split <;> rfl
    refine (hleft.emit fun _ _ => rfl).inv ?_ fun _ => hkept
    intro id hid
    exact absurd (hkept.symm.trans hid) nofun

theorem inv_handleStreamEvent (terminalId : String) (kind : StreamEventKind) :
    Inv (s.handleStreamEvent terminalId kind) := by
  unfold handleStreamEvent
  split_ifs
  · exact h
  · cases kind with
    | snapshot => exact h.emit fun _ => rfl
    | restore length | output length =>
      dsimp only
      split_ifs
      · exact h.emit fun _ => rfl
      · exact h

/-! ## Runs -/

/-- Where a call completes that is not the latest, the current terminal is another one. -/
def Careful (s : StreamController) : ControllerEvent → Bool
  | .completed n _ _ => n + 1 == s.calls.length || s.disposed ||
      (s.calls[n]?).all fun call => s.terminalId != some call.terminalId
  | _ => true

def CarefulAlong (s : StreamController) : List ControllerEvent → Bool
  | [] => true
  | event :: events => s.Careful event && (s.step event).all (CarefulAlong · events)

theorem inv_step {event : ControllerEvent} (hcareful : s.Careful event) (hstep : s.step event = some s') :
    Inv s' := by
  cases event with
  | setTerminal next restoresSize => exact some.inj hstep ▸ inv_setTerminal h next restoresSize
  | handleTerminalExit id => exact some.inj hstep ▸ inv_handleTerminalExit h id
  | dispose => exact some.inj hstep ▸ inv_dispose h
  | streamEvent id kind => exact some.inj hstep ▸ inv_handleStreamEvent h id kind
  | completed n result preferredSize =>
    rw [step] at hstep
    split at hstep
    · rename_i call hcall
      split_ifs at hstep with hsettled
      rw [← some.inj hstep]
      apply inv_completed h hcall (by simpa using hsettled)
      intro hterminal hdisposed
      simpa [Careful, hcall, hterminal, hdisposed] using hcareful
    · contradiction

end

theorem inv_run (events : List ControllerEvent) (h : Inv s) (hcareful : s.CarefulAlong events)
    (hrun : s.run events = some s') : Inv s' := by
  induction events generalizing s with
  | nil => exact some.inj hrun ▸ h
  | cons event events ih =>
    obtain ⟨mid, hstep, hrest⟩ := bind_eq_some_iff.mp hrun
    rw [CarefulAlong, Bool.and_eq_true, hstep] at hcareful
    exact ih (inv_step h hcareful.1 hstep) hcareful.2 hrest

/-! ## Only the latest call counts -/

structure LatestCounts (s : StreamController) : Prop where
  /-- a completion of another call changes nothing that is seen -/
  stale : ∀ n result preferredSize s', n + 1 ≠ s.calls.length →
    s.Careful (.completed n result preferredSize) →
    s.step (.completed n result preferredSize) = some s' →
      s'.terminalId = s.terminalId ∧ s'.effects = s.effects
  forwarded : ∀ id kind s', s.step (.streamEvent id kind) = some s' →
    s'.effects = s.effects ∨
      s.terminalId = some id ∧ s'.effects = s.effects ++ [(s.calls.length, .forward id kind)]
  /-- between a call that succeeds and the next call, or the end, its terminal is released once -/
  released : ∀ n call, s.calls[n]? = some call → call.succeeded →
    n + 1 < s.calls.length ∨ s.disposed → s.releases n call.terminalId = 1

theorem Inv.released (h : Inv s) (hcall : s.calls[n]? = some call) (hsucceeded : call.succeeded)
    (hover : n + 1 < s.calls.length ∨ s.disposed) : s.releases n call.terminalId = 1 := by
  obtain ⟨-, hcase⟩ := h.calls n call hcall
  rcases hcase with hcounts | hfailed | hone
  · rcases hover with hlt | hdisposed
    · have hlatest := hcounts.latest
      omega
    · have hterminal := hcounts.terminalId
      rw [h.disposed hdisposed] at hterminal
      contradiction
  · rw [SubscribeCall.succeeded] at hsucceeded
    rw [SubscribeCall.failed] at hfailed
    cases hresult : call.result <;> simp_all
  · exact hone

theorem stale_completion {preferredSize : Option StreamSize} (hold : n + 1 ≠ s.calls.length)
    (hcareful : s.Careful (.completed n result preferredSize))
    (hstep : s.step (.completed n result preferredSize) = some s') :
    s'.terminalId = s.terminalId ∧ s'.effects = s.effects := by
  rw [step] at hstep
  split at hstep
  · rename_i call hcall
    split_ifs at hstep
    have hstale : (s.disposed || s.terminalId != some call.terminalId) = true := by
      simpa [Careful, hcall, hold] using hcareful
    rw [← some.inj hstep]
    unfold complete
    rw [if_pos hstale]
    exact ⟨rfl, rfl⟩
  · contradiction

theorem forwarded_event {id : String} {kind : StreamEventKind}
    (hstep : s.step (.streamEvent id kind) = some s') : s'.effects = s.effects ∨
      s.terminalId = some id ∧ s'.effects = s.effects ++ [(s.calls.length, .forward id kind)] := by
  rw [← some.inj hstep]
  unfold handleStreamEvent
  split_ifs with hother
  · exact Or.inl rfl
  · have hterminal : s.terminalId = some id := by
      rw [Bool.or_eq_true, not_or, Bool.not_eq_true, Bool.not_eq_true] at hother
      exact (bne_eq_false_iff_eq.mp hother.2).symm
    cases kind with
    | snapshot => exact Or.inr ⟨hterminal, rfl⟩
    | restore length | output length =>
      dsimp only
      split_ifs
      · exact Or.inr ⟨hterminal, rfl⟩
      · exact Or.inl rfl

theorem latestCounts (events : List ControllerEvent)
    (hcareful : CarefulAlong {} events)
    (hrun : ({} : StreamController).run events = some s) : LatestCounts s where
  stale _ _ _ _ hold hnow hstep := stale_completion hold hnow hstep
  forwarded _ _ _ hstep := forwarded_event hstep
  released _ _ hcall hsucceeded hover :=
    (inv_run events inv_init hcareful hrun).released hcall hsucceeded hover

/-- From one terminal to another, whose call completes before that of the first. -/
def switchTerminals : List ControllerEvent :=
  [.setTerminal (some "a") false, .setTerminal (some "b") false,
    .completed 1 (.payload none) (some ⟨24, 80⟩), .completed 0 (.payload none) none,
    .streamEvent "b" (.output 3), .dispose]

theorem switchTerminals_latestCounts :
    ∃ s, ({} : StreamController).run switchTerminals = some s ∧ LatestCounts s := by
  obtain ⟨s, hrun⟩ : ∃ s, ({} : StreamController).run switchTerminals = some s :=
    Option.isSome_iff_exists.mp (by decide +kernel)
  exact ⟨s, hrun, latestCounts switchTerminals (by decide +kernel) hrun⟩

/-- Away from a terminal and back: the late failure of the first call leaves the terminal of the
second, which is not unsubscribed. -/
theorem staleFailure_detaches : ∃ s s', ({} : StreamController).run
      [.setTerminal (some "a") false, .setTerminal none false, .setTerminal (some "a") false] = some s ∧
    0 + 1 ≠ s.calls.length ∧ s.step (.completed 0 (.rejected "closed") none) = some s' ∧
      s'.terminalId ≠ s.terminalId :=
  ⟨_, _, rfl, by decide, rfl, by decide⟩

end StreamController

end Orqara.Terminal
