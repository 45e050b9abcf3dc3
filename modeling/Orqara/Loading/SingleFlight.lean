import Orqara.Loading.AgentLoading

/-!
# One load at a time

A caller that has found the agent missing waits a second time, and does not look again whether the
agent is live. Where a session of the agent was registered meanwhile and its initialization is over,
the caller begins another one beside the live agent, or beside a reload of it. In runs in which this
does not happen, at most one session is being launched, none is while the agent is live, and who
comes to look while an initialization is pending gets its outcome.
-/

namespace Orqara.Loading

open List Option

/-! ## What is under way -/

def InitStage.unsettled : InitStage → Bool
  | settled _ => false
  | _ => true

/-- The agent of the initialization is not live yet. -/
def InitStage.unregistered : InitStage → Bool
  | reading | launching _ | registering _ => true
  | _ => false

/-- The provider has been asked for a session, which is not registered. -/
def InitStage.isLaunching : InitStage → Bool
  | launching _ | registering _ => true
  | _ => false

/-- A reload that has found the agent live, and has not registered the session that takes over. -/
def Mutation.reloading : Mutation → Bool
  | running .reload | removed .reload | launching | registering => true
  | _ => false

def Mutation.replacing : Mutation → Bool
  | removed .reload | launching | registering => true
  | _ => false

def Mutation.isLaunching : Mutation → Bool
  | launching | registering => true
  | _ => false

namespace State

/-- The sessions that are being launched for the agent. -/
def launches (s : State) : ℕ :=
  s.inits.countP (·.stage.isLaunching) + s.lane.countP Mutation.isLaunching

def initStage (s : State) (i : ℕ) : Option InitStage := (s.inits[i]?).map Init.stage

def Reloading (s : State) : Prop := ∃ mutation, s.lane.head? = some mutation ∧ mutation.reloading

/-- There is no agent, and no reload is about to put one back. -/
def Quiet (s : State) : Prop := s.live = none ∧ ¬ s.Reloading

/-- What a caller knows at its stage. -/
def Knows (s : State) : CallerStage → Prop
  | .tail (.second n) bound => n ≤ s.registrations ∧
      (n = s.registrations → s.live = none ∧ (s.Reloading → s.settled < bound))
  | .close (.second n) _ => n ≤ s.registrations ∧ (n = s.registrations → s.Quiet)
  | .joined i | .initiated i => (s.initStage i).isSome
  | .returned (some i) outcome => s.initStage i = some (.settled outcome)
  | _ => True

structure Inv (s : State) : Prop where
  behind : ∀ mutation ∈ s.lane.tail, ∃ kind, mutation = .queued kind
  pending : ∀ i, s.pending = some i → (s.initStage i).isSome
  unsettled : ∀ i stage, s.initStage i = some stage → stage.unsettled → s.pending = some i
  unregistered : ∀ i stage, s.initStage i = some stage → stage.unregistered → s.Quiet
  replacing : ∀ mutation, s.lane.head? = some mutation → mutation.replacing → s.live = none
  callers : ∀ caller ∈ s.callers, s.Knows caller.stage

variable {s s' : State} {i : ℕ} {caller : Caller}

theorem InitStage.unsettled_of_unregistered {stage : InitStage} (h : stage.unregistered) :
    stage.unsettled := by
  cases stage <;> first | rfl | exact h

theorem Mutation.reloading_of_replacing {mutation : Mutation} (h : mutation.replacing) :
    mutation.reloading := by
  unfold Mutation.replacing at h
  split at h <;> first | rfl | contradiction

theorem inv_idle (live : Bool) : Inv (idle live) where
  behind := nofun
  pending := nofun
  unsettled := nofun
  unregistered := nofun
  replacing := nofun
  callers := nofun

/-! ## Steps of the lane -/

/-- What a step may do to the agent while the calls stay where they are: register a session where
no initialization is about to, or leave a missing agent missing, without beginning a reload. -/
def LaneStep (s s' : State) : Prop :=
  (s.registrations < s'.registrations ∧
      ∀ i stage, s.initStage i = some stage → stage.unregistered = false) ∨
    (s'.registrations = s.registrations ∧
      (s.live = none → s'.live = none ∧ (s'.Reloading → s.Reloading ∧ s'.settled = s.settled)))

theorem LaneStep.knows (h : LaneStep s s') (hinits : s'.inits = s.inits) {stage : CallerStage}
    (hknows : s.Knows stage) : s'.Knows stage := by
  have hregistrations : s.registrations ≤ s'.registrations := by
    rcases h with ⟨hlt, -⟩ | ⟨heq, -⟩ <;> omega
  have hkept : ∀ n, n ≤ s.registrations → n = s'.registrations → n = s.registrations ∧
      (s.live = none → s'.live = none ∧ (s'.Reloading → s.Reloading ∧ s'.settled = s.settled)) := by
    intro n hn hlast
    rcases h with ⟨hlt, -⟩ | ⟨heq, hsame⟩
    · omega
    · exact ⟨hlast.trans heq, hsame⟩
  cases stage with
  | tail barrier bound =>
    cases barrier with
    | first => trivial
    | second n =>
      refine ⟨hknows.1.trans hregistrations, fun hlast => ?_⟩
      obtain ⟨hseen, hsame⟩ := hkept n hknows.1 hlast
      have hmissing := hknows.2 hseen
      refine ⟨(hsame hmissing.1).1, fun hreload => ?_⟩
      have hbefore := (hsame hmissing.1).2 hreload
      rw [hbefore.2]
      exact hmissing.2 hbefore.1
  | close barrier ticket =>
    cases barrier with
    | first => trivial
    | second n =>
      refine ⟨hknows.1.trans hregistrations, fun hlast => ?_⟩
      obtain ⟨hseen, hsame⟩ := hkept n hknows.1 hlast
      have hquiet := hknows.2 hseen
      have hnow := hsame hquiet.1
      exact ⟨hnow.1, fun hreload => hquiet.2 (hnow.2 hreload).1⟩
  | joined init | initiated init =>
    rw [Knows, initStage, hinits]
    exact hknows
  | returned init outcome =>
    cases init with
    | none => trivial
    | some init =>
      rw [Knows, initStage, hinits]
      exact hknows

section

variable (h : Inv s) {mutation : Mutation}
include h

theorem Inv.lane (hstep : LaneStep s s') (hinits : s'.inits = s.inits) (hpending : s'.pending = s.pending)
    (hcallers : s'.callers = s.callers)
    (hbehind : ∀ mutation ∈ s'.lane.tail, ∃ kind, mutation = .queued kind)
    (hreplacing : ∀ mutation, s'.lane.head? = some mutation → mutation.replacing → s'.live = none) :
    Inv s' := by
  have hstage : ∀ i, s'.initStage i = s.initStage i := by
    intro i
    rw [initStage, initStage, hinits]
  refine ⟨hbehind, ?_, ?_, ?_, hreplacing, ?_⟩
  · intro i hi
    rw [hstage]
    exact h.pending i (hpending ▸ hi)
  · intro i stage hi hunsettled
    rw [hpending]
    exact h.unsettled i stage (hstage i ▸ hi) hunsettled
  · intro i stage hi hunregistered
    rw [hstage] at hi
    rcases hstep with ⟨-, hnot⟩ | ⟨-, hsame⟩
    · rw [hnot i stage hi] at hunregistered
      contradiction
    · have hquiet := h.unregistered i stage hi hunregistered
      have hlive := hsame hquiet.1
      exact ⟨hlive.1, fun hreload => hquiet.2 (hlive.2 hreload).1⟩
  · intro caller hcaller
    exact hstep.knows hinits (h.callers caller (hcallers ▸ hcaller))

theorem inv_runLifecycleMutation (kind : MutationKind) :
    Inv (s.runLifecycleMutation kind) := by
  have hhead : ∀ mutation, (s.runLifecycleMutation kind).lane.head? = some mutation →
      s.lane.head? = some mutation ∨ mutation = .queued kind := by
    intro mutation hmutation
    rw [runLifecycleMutation, head?_append] at hmutation
    cases hlane : s.lane.head? <;> simp_all
  have hstep : LaneStep s (s.runLifecycleMutation kind) := by
    refine Or.inr ⟨rfl, fun hlive => ⟨hlive, ?_⟩⟩
    rintro ⟨mutation, hmutation, hreloading⟩
    rcases hhead mutation hmutation with hsame | rfl
    · exact ⟨⟨mutation, hsame, hreloading⟩, rfl⟩
    · contradiction
  apply h.lane hstep rfl rfl rfl
  · intro mutation hmutation
    have htail : mutation ∈ s.lane.tail ∨ mutation = .queued kind := by
      cases hlane : s.lane <;> simp_all [runLifecycleMutation]
    rcases htail with htail | rfl
    · exact h.behind mutation htail
    · exact ⟨kind, rfl⟩
  · intro mutation hmutation hreplacing
    rcases hhead mutation hmutation with hsame | rfl
    · exact h.replacing mutation hsame hreplacing
    · contradiction

theorem inv_inFlightClose (close : Option ℕ) :
    Inv { s with inFlightClose := close } := by
  have hstep : LaneStep s { s with inFlightClose := close } :=
    Or.inr ⟨rfl, fun hlive => ⟨hlive, fun hreload => ⟨hreload, rfl⟩⟩⟩
  exact h.lane hstep rfl rfl rfl h.behind h.replacing

theorem inv_closeAgent : Inv s.closeAgent := by
  unfold closeAgent
  cases s.inFlightClose with
  | some close => exact h
  | none => exact inv_inFlightClose (inv_runLifecycleMutation h .close) _

omit h in
theorem reloading_goOn :
    (s.goOn mutation).Reloading ↔ mutation.reloading = true := by
  simp [Reloading, goOn]

theorem inv_goOn (hreloading : s.live = none → mutation.reloading → s.Reloading)
    (hreplacing : mutation.replacing → s.live = none) : Inv (s.goOn mutation) := by
  have hstep : LaneStep s (s.goOn mutation) := Or.inr ⟨rfl, fun hlive => ⟨hlive, fun hreload =>
    ⟨hreloading hlive (reloading_goOn.mp hreload), rfl⟩⟩⟩
  apply h.lane hstep rfl rfl rfl h.behind
  intro m hm hreplaces
  rw [goOn, head?_cons, Option.some.injEq] at hm
  exact hreplacing (hm ▸ hreplaces)

theorem inv_settleMutation : Inv s.settleMutation := by
  have hhead : ∀ mutation, s.settleMutation.lane.head? = some mutation →
      ∃ kind, mutation = .queued kind := by
    intro mutation hmutation
    exact h.behind mutation (mem_of_mem_head? hmutation)
  have hstep : LaneStep s s.settleMutation := by
    refine Or.inr ⟨rfl, fun hlive => ⟨hlive, ?_⟩⟩
    rintro ⟨mutation, hmutation, hreloading⟩
    obtain ⟨kind, rfl⟩ := hhead mutation hmutation
    contradiction
  apply h.lane hstep rfl rfl rfl
  · intro mutation hmutation
    exact h.behind mutation (mem_of_mem_tail hmutation)
  · intro mutation hmutation hreplacing
    obtain ⟨kind, rfl⟩ := hhead mutation hmutation
    contradiction

theorem inv_beginMutation (kind : MutationKind) : Inv (s.beginMutation kind) := by
  unfold beginMutation
  split
  · exact inv_settleMutation h
  · rename_i hbegin
    apply inv_goOn h
    · intro hlive hreloading
      cases kind <;> simp_all [Mutation.reloading, MutationKind.removes]
    · intro hreplacing
      contradiction

theorem inv_removeAgent {kind : MutationKind} (hhead : s.lane.head? = some (.running kind)) :
    Inv (s.removeAgent kind) := by
  have hstep : LaneStep s (s.removeAgent kind) := by
    refine Or.inr ⟨rfl, fun hlive => ⟨rfl, fun hreload => ⟨⟨.running kind, hhead, ?_⟩, rfl⟩⟩⟩
    have hkind : (Mutation.removed kind).reloading = true := reloading_goOn.mp hreload
    cases kind <;> simp_all [Mutation.reloading]
  exact h.lane hstep rfl rfl rfl h.behind fun _ _ _ => rfl

theorem inv_relaunch (hhead : s.lane.head? = some (.removed .reload)) :
    Inv (s.goOn .launching) :=
  inv_goOn h (fun _ _ => ⟨_, hhead, rfl⟩) fun _ => h.replacing _ hhead rfl

theorem inv_relaunched (hhead : s.lane.head? = some .launching) : Inv s.relaunched := by
  unfold relaunched
  split
  · exact inv_settleMutation h
  · exact inv_goOn h (fun _ _ => ⟨_, hhead, rfl⟩) fun _ => h.replacing _ hhead rfl

theorem inv_registerReload (hhead : s.lane.head? = some .registering) :
    Inv (s.setLive.goOn .registered) := by
  have hstep : LaneStep s (s.setLive.goOn .registered) := by
    refine Or.inl ⟨Nat.lt_succ_self _, fun i stage hi => ?_⟩
    by_contra hunregistered
    rw [Bool.not_eq_false] at hunregistered
    exact (h.unregistered i stage hi hunregistered).2 ⟨_, hhead, rfl⟩
  apply h.lane hstep rfl rfl rfl h.behind
  intro mutation hmutation hreplacing
  rw [goOn, head?_cons, Option.some.injEq] at hmutation
  rw [← hmutation] at hreplacing
  contradiction

theorem inv_stepLane {event : Event} (hstep : s.stepLane event = some s') : Inv s' := by
  unfold stepLane at hstep
  split at hstep
  · split at hstep
    · exact some.inj hstep ▸ inv_beginMutation h _
    · contradiction
  · split at hstep
    · rename_i hhead
      split at hstep
      · exact some.inj hstep ▸ inv_removeAgent h hhead
      · contradiction
    · contradiction
  · split at hstep
    · rename_i hhead
      exact some.inj hstep ▸ inv_relaunch h hhead
    · contradiction
  · split at hstep
    · rename_i hhead
      exact some.inj hstep ▸ inv_relaunched h hhead
    · contradiction
  · split at hstep
    · rename_i hhead
      exact some.inj hstep ▸ inv_registerReload h hhead
    · contradiction
  · split at hstep
    · contradiction
    · exact some.inj hstep ▸ inv_settleMutation h
    · contradiction
  · contradiction

/-! ## Steps of an initialization -/

omit h in
theorem initStage_setInit {init : Init} (hi : i < s.inits.length) (j : ℕ) :
    (s.setInit i init).initStage j = if i = j then some init.stage else s.initStage j := by
  rw [initStage, initStage, setInit, getElem?_set]
  split_ifs <;> simp_all

theorem inv_setInit {old init : Init} (hi : s.inits[i]? = some old) (hold : old.stage.unsettled)
    (hinit : init.stage.unregistered → old.stage.unregistered) :
    Inv (s.setInit i init) := by
  have hlt : i < s.inits.length := (List.getElem?_eq_some_iff.mp hi).1
  have hstage : s.initStage i = some old.stage := by rw [initStage, hi, map_some]
  have hset : ∀ j, (s.setInit i init).initStage j =
      if i = j then some init.stage else s.initStage j := initStage_setInit hlt
  refine ⟨h.behind, ?_, ?_, ?_, h.replacing, ?_⟩
  · intro j hj
    rw [hset]
    split_ifs
    · rfl
    · exact h.pending j hj
  · intro j stage hj hunsettled
    rw [hset] at hj
    split_ifs at hj with hji
    · exact hji ▸ h.unsettled i old.stage hstage hold
    · exact h.unsettled j stage hj hunsettled
  · intro j stage hj hunregistered
    rw [hset] at hj
    split_ifs at hj with hji
    · rw [← some.inj hj] at hunregistered
      exact h.unregistered i old.stage hstage (hinit hunregistered)
    · exact h.unregistered j stage hj hunregistered
  · intro caller hcaller
    have hknows := h.callers caller hcaller
    cases hcase : caller.stage with
    | tail barrier bound => rw [hcase] at hknows; cases barrier <;> exact hknows
    | close barrier ticket => rw [hcase] at hknows; cases barrier <;> exact hknows
    | joined init | initiated init =>
      rw [hcase] at hknows
      rw [Knows, hset]
      split_ifs
      · rfl
      · exact hknows
    | returned init outcome =>
      rw [hcase] at hknows
      cases init with
      | none => trivial
      | some init =>
        rw [Knows, hset]
        split_ifs with hsame
        · rw [Knows, ← hsame, hstage] at hknows
          rw [some.inj hknows] at hold
          contradiction
        · exact hknows

/-- Only one initialization is not settled. -/
theorem Inv.unique {j : ℕ} {stage stage' : InitStage} (hi : s.initStage i = some stage)
    (hj : s.initStage j = some stage') (hunsettled : stage.unsettled) (hunsettled' : stage'.unsettled) :
    i = j := by
  have hpending := h.unsettled i stage hi hunsettled
  rw [h.unsettled j stage' hj hunsettled'] at hpending
  exact (some.inj hpending).symm

theorem inv_registerInit {init : Init} {launch : Launch} (hi : s.inits[i]? = some init)
    (hstage : init.stage = .registering launch) : Inv (s.registerInit i init) := by
  have hold : init.stage.unsettled := by rw [hstage]; rfl
  have hinit : s.initStage i = some init.stage := by rw [initStage, hi, map_some]
  have hquiet := h.unregistered i init.stage hinit (by rw [hstage]; rfl)
  have hset : Inv (s.setInit i { init with stage := .attached s.registrations }) :=
    inv_setInit h hi hold nofun
  have hstep : LaneStep (s.setInit i { init with stage := .attached s.registrations })
      (s.registerInit i init) := by
    refine Or.inl ⟨Nat.lt_succ_self _, fun j stage hj => ?_⟩
    rw [initStage_setInit (List.getElem?_eq_some_iff.mp hi).1] at hj
    split_ifs at hj with hji
    · rw [← some.inj hj]
      rfl
    · by_contra hunregistered
      rw [Bool.not_eq_false] at hunregistered
      exact hji (h.unique hinit hj hold (InitStage.unsettled_of_unregistered hunregistered))
  apply hset.lane hstep rfl rfl rfl h.behind
  intro mutation hmutation hreplacing
  exact absurd ⟨mutation, hmutation, Mutation.reloading_of_replacing hreplacing⟩ hquiet.2

theorem inv_stepInit {event : Event} (hstep : s.stepInit i event = some s') : Inv s' := by
  rw [stepInit, bind_eq_some_iff] at hstep
  obtain ⟨init, hi, hstep⟩ := hstep
  have hset : ∀ stage, init.stage.unsettled → (stage.unregistered → init.stage.unregistered) →
      Inv (s.setInit i { init with stage }) :=
    fun stage hunsettled hsame => inv_setInit h hi hunsettled hsame
  split at hstep
  case h_1 =>
    rename_i record hstage
    -- the record decides between two calls and three errors
    rw [← some.inj hstep]
    unfold readRecord
    have hreading : init.stage.unsettled ∧ init.stage.unregistered := by rw [hstage]; exact ⟨rfl, rfl⟩
    cases record with
    | none => exact hset _ hreading.1 nofun
    | some record =>
      dsimp only
      cases record.launch with
      | error error => exact hset _ hreading.1 nofun
      | ok launch => exact hset _ hreading.1 fun _ => hreading.2
  case h_2 =>
    rename_i launch hstage
    rw [← some.inj hstep, launched]
    have hlaunching : init.stage.unsettled ∧ init.stage.unregistered := by
      rw [hstage]
      exact ⟨rfl, rfl⟩
    split_ifs
    · exact hset _ hlaunching.1 nofun
    · exact hset _ hlaunching.1 fun _ => hlaunching.2
  case h_3 =>
    rename_i launch hstage
    exact some.inj hstep ▸ inv_registerInit h hi hstage
  case h_4 =>
    rename_i agent hstage
    rw [← some.inj hstep, attachedInit]
    have hattached : init.stage.unsettled := by rw [hstage]; rfl
    split_ifs <;> exact hset _ hattached nofun
  case h_5 =>
    rename_i agent hstage
    rw [← some.inj hstep]
    exact hset _ (by rw [hstage]; rfl) nofun
  case h_6 => contradiction
  case h_7 =>
    rename_i hstage
    rw [← some.inj hstep]
    refine hset (.settled (.error .failed)) ?_ nofun
    cases hcase : init.stage with
    | settled outcome => exact absurd hcase (hstage outcome)
    | _ => rfl
  case h_8 => contradiction

/-! ## Steps of a caller -/

omit h in
theorem Knows.mono (hstage : ∀ i stage, s.initStage i = some stage → s'.initStage i = some stage)
    (hlive : s'.live = s.live) (hregistrations : s'.registrations = s.registrations)
    (hsettled : s'.settled = s.settled) (hlane : s'.lane = s.lane) {stage : CallerStage}
    (hknows : s.Knows stage) : s'.Knows stage := by
  cases stage with
  | tail barrier bound =>
    cases barrier with
    | first => trivial
    | second n =>
      rw [Knows, hlive, hregistrations, hsettled, Reloading, hlane]
      exact hknows
  | close barrier ticket =>
    cases barrier with
    | first => trivial
    | second n =>
      rw [Knows, Quiet, hlive, hregistrations, Reloading, hlane]
      exact hknows
  | joined init | initiated init =>
    obtain ⟨stage, hstage'⟩ := isSome_iff_exists.mp hknows
    rw [Knows, hstage init stage hstage']
    rfl
  | returned init outcome =>
    cases init with
    | none => trivial
    | some init => exact hstage init _ hknows

omit h in
theorem forall_mem_set {α : Type*} {P : α → Prop} {l : List α} (h : ∀ a ∈ l, P a) {a : α} (ha : P a)
    (i : ℕ) : ∀ b ∈ l.set i a, P b := by
  intro b hb
  rcases mem_or_eq_of_mem_set hb with hb | rfl
  · exact h b hb
  · exact ha

theorem inv_setCaller (hknows : s.Knows caller.stage) : Inv (s.setCaller i caller) :=
  ⟨h.behind, h.pending, h.unsettled, h.unregistered, h.replacing,
    forall_mem_set h.callers hknows i⟩

theorem inv_waitForAgentClose (hlive : s.live = none) :
    Inv (s.waitForAgentClose i caller (.second s.registrations)) := by
  apply inv_setCaller h
  refine ⟨le_rfl, fun _ => ⟨hlive, ?_⟩⟩
  rintro ⟨mutation, hhead, -⟩
  have hlength : 0 < s.lane.length := length_pos_of_mem (mem_of_mem_head? hhead)
  unfold bound
  omega

theorem inv_join {init : ℕ} (hpending : s.pending = some init) :
    Inv (s.join i caller init) := by
  have hset : Inv (s.setCaller i { caller with stage := .joined init }) :=
    inv_setCaller h (h.pending init hpending)
  have hstage : ∀ j, (s.join i caller init).initStage j = s.initStage j := by
    intro j
    rw [initStage, initStage, join, getElem?_modify, Option.map_eq_map, Option.map_map]
    congr 1
    funext pending
    dsimp only [Function.comp_apply]
    split_ifs <;> rfl
  refine ⟨h.behind, ?_, ?_, ?_, h.replacing, ?_⟩
  · intro j hj
    rw [hstage]
    exact h.pending j hj
  · intro j stage hj hunsettled
    exact h.unsettled j stage (hstage j ▸ hj) hunsettled
  · intro j stage hj hunregistered
    exact h.unregistered j stage (hstage j ▸ hj) hunregistered
  · intro other hother
    exact (hset.callers other hother).mono (fun j stage hj => (hstage j).trans hj) rfl rfl rfl rfl

theorem inv_initiate (hpending : s.pending = none) (hquiet : s.Quiet) :
    Inv (s.initiate i caller) := by
  have hstage : ∀ j, (s.initiate i caller).initStage j =
      if j = s.inits.length then some .reading else s.initStage j := by
    intro j
    rw [initStage, initStage, initiate, getElem?_append]
    split_ifs with hlt heq heq
    · omega
    · rfl
    · rw [heq, Nat.sub_self]
      rfl
    · rw [getElem?_eq_none (by simp; omega), getElem?_eq_none (by omega)]
  have hkept : ∀ j stage, s.initStage j = some stage → (s.initiate i caller).initStage j = some stage := by
    intro j stage hj
    obtain ⟨init, hinit, -⟩ := map_eq_some_iff.mp hj
    have hlt := (List.getElem?_eq_some_iff.mp hinit).1
    rw [hstage, if_neg (by omega), hj]
  refine ⟨h.behind, ?_, ?_, ?_, h.replacing, ?_⟩
  · intro j hj
    rw [hstage, if_pos (some.inj hj).symm]
    rfl
  · intro j stage hj hunsettled
    rw [hstage] at hj
    split_ifs at hj with heq
    · rw [heq]
      rfl
    · rw [h.unsettled j stage hj hunsettled] at hpending
      contradiction
  · intro j stage hj hunregistered
    exact hquiet
  · apply forall_mem_set
    · intro other hother
      exact (h.callers other hother).mono hkept rfl rfl rfl rfl
    · have hlast := hstage s.inits.length
      rw [if_pos rfl] at hlast
      show ((s.initiate i caller).initStage s.inits.length).isSome
      rw [hlast]
      rfl

theorem inv_clearPending {init : ℕ} {outcome : Outcome}
    (hsettled : s.initStage init = some (.settled outcome)) : Inv (s.clearPending init) := by
  unfold clearPending
  split_ifs with hpending
  · refine ⟨h.behind, nofun, ?_, h.unregistered, h.replacing, h.callers⟩
    intro j stage hj hunsettled
    have hsame : j = init := by
      have hlast := h.unsettled j stage hj hunsettled
      rw [hpending] at hlast
      exact (some.inj hlast).symm
    have hj' : s.initStage j = some stage := hj
    rw [hsame, hsettled] at hj'
    rw [← some.inj hj'] at hunsettled
    contradiction
  · exact h

end

end State

/-! ## The condition -/

/-- Where a caller leaves the second barrier and no initialization is pending, no session of the agent
has been registered since the caller has found the agent missing. -/
def NotOvertaken (s : State) : Event → Bool
  | .closeSettled i =>
    match (s.callers[i]?).map Caller.stage with
    | some (.close (.second registrations) _) =>
      s.pending.isSome || s.registrations == registrations
    | _ => true
  | _ => true

def NotOvertakenAlong (s : State) : List Event → Bool
  | [] => true
  | event :: events => NotOvertaken s event && (s.step event).all (NotOvertakenAlong · events)

namespace State

variable {s s' : State} {i : ℕ} {caller : Caller}

theorem inv_look (h : Inv s) {barrier : Barrier}
    (hquiet : s.pending = none → ∀ n, barrier = .second n → s.Quiet) :
    Inv (s.look i caller barrier) := by
  unfold look
  cases hpending : s.pending with
  | some init => exact inv_join h hpending
  | none =>
    cases barrier with
    | first =>
      dsimp only
      cases hlive : s.live with
      | some agent => exact inv_setCaller h trivial
      | none => exact inv_waitForAgentClose h hlive
    | second n => exact inv_initiate h hpending (hquiet hpending n rfl)

theorem inv_stepCaller (h : Inv s) {event : Event} (hheld : NotOvertaken s event)
    (hevent : ∀ j, event = .closeSettled j → j = i) (hstep : s.stepCaller i event = some s') :
    Inv s' := by
  rw [stepCaller, bind_eq_some_iff] at hstep
  obtain ⟨caller, hcaller, hstep⟩ := hstep
  have hknows := h.callers caller (mem_of_getElem? hcaller)
  split at hstep
  case h_1 =>
    rename_i barrier bound hstage
    split_ifs at hstep with hsettled
    rw [← some.inj hstep]
    apply inv_setCaller h
    rw [hstage] at hknows
    cases barrier with
    | first => trivial
    | second n =>
      refine ⟨hknows.1, fun hlast => ⟨(hknows.2 hlast).1, fun hreload => ?_⟩⟩
      have hlt := (hknows.2 hlast).2 hreload
      omega
  case h_2 =>
    rename_i j barrier ticket hstage
    split_ifs at hstep with hsettled
    rw [← some.inj hstep]
    apply inv_look h
    intro hpending n hsecond
    rw [hstage, hsecond] at hknows
    rw [hsecond] at hstage
    obtain rfl := hevent j rfl
    have hseen : s.registrations = n := by
      simpa [NotOvertaken, hcaller, hstage, hpending] using hheld
    exact hknows.2 hseen.symm
  case h_3 =>
    rename_i init hstage
    split at hstep
    case h_1 outcome hsettled =>
      rw [← some.inj hstep]
      apply inv_setCaller h
      exact hsettled
    case h_2 => contradiction
  case h_4 =>
    rename_i init hstage
    split at hstep
    case h_1 outcome hsettled =>
      rw [← some.inj hstep]
      apply inv_clearPending (inv_setCaller h _) hsettled
      exact hsettled
    case h_2 => contradiction
  case h_5 => contradiction

theorem inv_step (h : Inv s) {event : Event} (hheld : NotOvertaken s event)
    (hstep : s.step event = some s') : Inv s' := by
  cases event with
  | closeAgent => exact some.inj hstep ▸ inv_closeAgent h
  | runLifecycleMutation kind =>
    rw [step] at hstep
    split_ifs at hstep
    exact some.inj hstep ▸ inv_runLifecycleMutation h kind
  | clearClose =>
    rw [step] at hstep
    split_ifs at hstep
    exact some.inj hstep ▸ inv_inFlightClose h none
  | ensureAgentLoaded broadcastTimeline =>
    rw [← some.inj hstep]
    refine ⟨h.behind, h.pending, h.unsettled, h.unregistered, h.replacing, ?_⟩
    intro caller hcaller
    rcases mem_append.mp hcaller with hcaller | hcaller
    · exact h.callers caller hcaller
    · rw [mem_singleton.mp hcaller]
      trivial
  | tailSettled j | closeSettled j | initSettled j =>
    refine inv_stepCaller (i := j) h hheld ?_ hstep
    intro k hk
    cases hk
    try rfl
  | readRecord j record | launched j | registerInit j | attached j | hydrated j | initFailed j =>
    exact inv_stepInit (i := j) h hstep
  | beginMutation | removeAgent | relaunch | relaunched | registerReload | settleMutation =>
    simp only [step] at hstep
    exact inv_stepLane h hstep

theorem inv_run (events : List Event) (h : Inv s) (hheld : NotOvertakenAlong s events)
    (hrun : s.run events = some s') : Inv s' := by
  induction events generalizing s with
  | nil => exact some.inj hrun ▸ h
  | cons event events ih =>
    obtain ⟨mid, hstep, hrest⟩ := bind_eq_some_iff.mp hrun
    rw [NotOvertakenAlong, Bool.and_eq_true, hstep] at hheld
    exact ih (inv_step h hheld.1 hstep) hheld.2 hrest

/-! ## One at a time -/

theorem countP_le_one {α : Type*} {p : α → Bool} {l : List α}
    (h : ∀ (i j : ℕ) (a b : α), l[i]? = some a → l[j]? = some b → p a → p b → i = j) :
    l.countP p ≤ 1 := by
  induction l with
  | nil => exact Nat.zero_le 1
  | cons a l ih =>
    have htail : ∀ (i j : ℕ) (b c : α), l[i]? = some b → l[j]? = some c → p b → p c → i = j := by
      intro i j b c hi hj hb hc
      exact Nat.succ.inj (h (i + 1) (j + 1) b c hi hj hb hc)
    by_cases ha : p a
    · have hzero : l.countP p = 0 := by
        rw [countP_eq_zero]
        intro b hb hpb
        obtain ⟨j, hj⟩ := mem_iff_getElem?.mp hb
        have habsurd := h 0 (j + 1) a b rfl hj ha hpb
        omega
      rw [countP_cons_of_pos ha, hzero]
    · rw [countP_cons_of_neg ha]
      exact ih htail

theorem Inv.countP_unsettled (h : Inv s) : s.inits.countP (·.stage.unsettled) ≤ 1 := by
  apply countP_le_one
  intro i j init init' hi hj hunsettled hunsettled'
  apply h.unique _ _ hunsettled hunsettled'
  · rw [initStage, hi, map_some]
  · rw [initStage, hj, map_some]

theorem Inv.countP_lane (h : Inv s) : s.lane.countP Mutation.isLaunching ≤ 1 := by
  have hnone : s.lane.tail.countP Mutation.isLaunching = 0 := by
    rw [countP_eq_zero]
    intro mutation hmutation hlaunching
    obtain ⟨kind, rfl⟩ := h.behind mutation hmutation
    contradiction
  cases hlane : s.lane with
  | nil => exact Nat.zero_le 1
  | cons mutation rest =>
    rw [hlane, tail_cons] at hnone
    rw [countP_cons, hnone]
    split_ifs <;> omega

/-- An initialization that launches a session excludes a reload that does. -/
theorem Inv.launches_le_one (h : Inv s) : s.launches ≤ 1 := by
  by_cases hinit : s.inits.countP (·.stage.isLaunching) = 0
  · rw [launches, hinit, Nat.zero_add]
    exact h.countP_lane
  · obtain ⟨init, hmem, hlaunching⟩ := countP_pos_iff.mp (Nat.pos_of_ne_zero hinit)
    obtain ⟨i, hi⟩ := mem_iff_getElem?.mp hmem
    have hstage : s.initStage i = some init.stage := by rw [initStage, hi, map_some]
    have hunregistered : init.stage.unregistered := by
      cases hcase : init.stage <;> simp_all [InitStage.isLaunching, InitStage.unregistered]
    have hquiet := h.unregistered i init.stage hstage hunregistered
    have hlane : s.lane.countP Mutation.isLaunching = 0 := by
      rw [countP_eq_zero]
      intro mutation hmutation hreload
      cases hcase : s.lane with
      | nil => rw [hcase] at hmutation; contradiction
      | cons first rest =>
        rw [hcase] at hmutation
        rcases mem_cons.mp hmutation with rfl | hrest
        · refine hquiet.2 ⟨mutation, by rw [hcase, head?_cons], ?_⟩
          cases mutation <;> simp_all [Mutation.isLaunching, Mutation.reloading]
        · obtain ⟨kind, rfl⟩ := h.behind mutation (by rw [hcase]; exact hrest)
          contradiction
    have hle : s.inits.countP (·.stage.isLaunching) ≤ s.inits.countP (·.stage.unsettled) := by
      apply countP_mono_left
      intro other _ hother
      cases hcase : other.stage <;> simp_all [InitStage.isLaunching, InitStage.unsettled]
    rw [launches, hlane]
    exact hle.trans h.countP_unsettled

end State

/-! ## Loading -/

/-- The steps that ask the provider for a session: where reading the record leads to a call, and where
a reload comes to it. -/
def Starts (s' : State) : Event → Bool
  | .readRecord i _ => (s'.inits[i]?).any (·.stage.isLaunching)
  | .relaunch => true
  | _ => false

structure SingleFlight (s : State) : Prop where
  loading : s.inits.countP (·.stage.unsettled) ≤ 1
  launches : s.launches ≤ 1
  /-- nothing is asked for while the agent is live -/
  missing : ∀ event s', s.step event = some s' → Starts s' event → s.live = none
  /-- who comes to look while an initialization is pending waits for it -/
  joins : ∀ i caller barrier ticket init s', s.callers[i]? = some caller →
    caller.stage = .close barrier ticket → s.pending = some init →
    s.step (.closeSettled i) = some s' → s'.callers[i]? = some { caller with stage := .joined init }
  /-- and returns with its outcome -/
  shared : ∀ caller ∈ s.callers, ∀ init outcome, caller.stage = .returned (some init) outcome →
    s.initStage init = some (.settled outcome)

variable {s s' : State}

theorem State.Inv.live_of_starts (h : s.Inv) {event : Event} (hstep : s.step event = some s')
    (hstarts : Starts s' event) : s.live = none := by
  cases event with
  | readRecord i record =>
    simp only [State.step, State.stepInit, bind_eq_some_iff] at hstep
    obtain ⟨init, hi, hstep⟩ := hstep
    have hstage : init.stage = .reading := by
      cases hcase : init.stage <;> simp_all
    have hreading : s.initStage i = some .reading := by rw [State.initStage, hi, ← hstage]; rfl
    exact (h.unregistered i .reading hreading rfl).1
  | relaunch =>
    simp only [State.step, State.stepLane] at hstep
    split at hstep
    · rename_i hhead
      exact h.replacing _ hhead rfl
    · contradiction
  | _ => contradiction

theorem State.Inv.singleFlight (h : s.Inv) : SingleFlight s where
  loading := h.countP_unsettled
  launches := h.launches_le_one
  missing _ _ := h.live_of_starts
  joins := by
    intro i caller barrier ticket init s' hcaller hstage hpending hstep
    simp only [State.step, State.stepCaller, hcaller, bind_some, hstage, State.look,
      hpending] at hstep
    split_ifs at hstep
    rw [← some.inj hstep]
    exact getElem?_set_self (List.getElem?_eq_some_iff.mp hcaller).1
  shared caller hcaller init outcome hstage := by
    have hknows := h.callers caller hcaller
    rw [hstage] at hknows
    exact hknows

/-- In a run in which no caller is overtaken at the second barrier, loading is single-flight. -/
theorem loading_singleFlight (live : Bool) (events : List Event)
    (hheld : NotOvertakenAlong (State.idle live) events)
    (hrun : (State.idle live).run events = some s) : SingleFlight s :=
  (State.inv_run events (State.inv_idle live) hheld hrun).singleFlight

/-- One caller begins to load, another joins it. -/
def sharedLoad : List Event :=
  [.ensureAgentLoaded true, .tailSettled 0, .closeSettled 0, .tailSettled 0, .closeSettled 0,
    .ensureAgentLoaded false, .tailSettled 1, .closeSettled 1, .readRecord 0 (some ⟨true, true, true⟩),
    .launched 0, .registerInit 0, .attached 0, .hydrated 0, .initSettled 0, .initSettled 1]

theorem sharedLoad_singleFlight :
    ∃ s, (State.idle false).run sharedLoad = some s ∧ SingleFlight s := by
  obtain ⟨s, hrun⟩ : ∃ s, (State.idle false).run sharedLoad = some s :=
    Option.isSome_iff_exists.mp (by decide +kernel)
  exact ⟨s, hrun, loading_singleFlight false sharedLoad (by decide +kernel) hrun⟩

/-- Two callers find the agent missing. The first of them to look up the lane a second time finds it
empty; before the other does, labels are written, and it has to wait until the agent is loaded. -/
def overtakenLoad : List Event :=
  [.ensureAgentLoaded false, .ensureAgentLoaded false, .tailSettled 0, .tailSettled 1,
    .closeSettled 1, .runLifecycleMutation .other, .closeSettled 0, .beginMutation,
    .tailSettled 1, .closeSettled 1, .readRecord 0 (some ⟨true, true, true⟩), .launched 0,
    .registerInit 0, .attached 0, .hydrated 0, .initSettled 1,
    .settleMutation, .tailSettled 0, .closeSettled 0]

/-- The held caller asks the provider for a second session of the live agent. -/
theorem overtakenLoad_starts : ∃ s, (State.idle false).run overtakenLoad = some s ∧
    ¬ SingleFlight s := by
  obtain ⟨s, hrun⟩ : ∃ s, (State.idle false).run overtakenLoad = some s :=
    Option.isSome_iff_exists.mp (by decide +kernel)
  obtain ⟨s', hstep⟩ : ∃ s', s.step (.readRecord 1 (some ⟨true, true, true⟩)) = some s' := by
    apply Option.isSome_iff_exists.mp
    have hcomputed : ((State.idle false).run overtakenLoad).all
        (fun s => (s.step (.readRecord 1 (some ⟨true, true, true⟩))).isSome) := by decide +kernel
    simpa [hrun] using hcomputed
  have hcomputed : ((State.idle false).run overtakenLoad).all (fun s => s.live.isSome &&
      (s.step (.readRecord 1 (some ⟨true, true, true⟩))).all
        (Starts · (.readRecord 1 (some ⟨true, true, true⟩)))) := by decide +kernel
  have hstarts : s.live.isSome ∧ Starts s' (.readRecord 1 (some ⟨true, true, true⟩)) := by
    simpa [hrun, hstep] using hcomputed
  refine ⟨s, hrun, fun h => ?_⟩
  have hlive := h.missing _ s' hstep hstarts.2
  rw [hlive] at hstarts
  exact absurd hstarts.1 (by simp)

end Orqara.Loading
