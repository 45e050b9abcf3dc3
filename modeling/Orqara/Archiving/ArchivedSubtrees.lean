import Orqara.Archiving.CascadeProgress

/-!
# Whole subtrees are archived

Any number of calls of `archiveAgent` settle, over any parent labels. Afterwards every agent below an
archived root is archived, through children that were neither detached nor archived before; and only
agents below archived roots are archived or lose their label. A child that was archived before keeps
the cascade from what is below it.
-/

namespace Orqara.Archiving.State

variable {ι : Type*} [DecidableEq ι] {s₀ s s' : State ι} {agent child root : ι}

theorem inv_run (events : List (Event ι)) (hinv : Inv s₀ s) (hrun : s.run events = some s') :
    Inv s₀ s' := by
  induction events generalizing s with
  | nil => exact Option.some.inj hrun ▸ hinv
  | cons event events ih =>
    obtain ⟨mid, hstep, hrest⟩ := Option.bind_eq_some_iff.mp hrun
    apply ih _ hrest
    cases event with
    | archiveAgent agent =>
      rw [← Option.some.inj hstep]
      exact hinv.runLifecycleMutation nofun
    | advance i =>
      obtain ⟨mutation, hm, hadvance⟩ := Option.bind_eq_some_iff.mp hstep
      exact inv_advanceMutation hinv hm hadvance

theorem length_le_weight (indices : List ℕ) (hinv : Inv s₀ s)
    (hrun : s.run (indices.map Event.advance) = some s') : indices.length + s'.weight ≤ s.weight := by
  induction indices generalizing s with
  | nil =>
    rw [Option.some.inj hrun, List.length_nil]
    omega
  | cons i indices ih =>
    obtain ⟨mid, hstep, hrest⟩ := Option.bind_eq_some_iff.mp hrun
    obtain ⟨mutation, hm, hadvance⟩ := Option.bind_eq_some_iff.mp hstep
    have hlt := weight_advanceMutation hinv hm hadvance
    have hle := ih (inv_advanceMutation hinv hm hadvance) hrest
    rw [List.length_cons]
    omega

/-! ## Subtrees -/

/-- A call for the agent has archived it. -/
def ArchivedRoot (s : State ι) (root : ι) : Prop :=
  ∃ mutation ∈ s.mutations, mutation.agent = root ∧ mutation.parent = none ∧
    ∃ mark, mutation.stage = .settled (.archived mark)

/-- A child by its label, not detached. -/
def Child (s₀ s : State ι) (parent child : ι) : Prop := s₀.Had child parent ∧ s.Had child parent

/-- A child that was not archived before. -/
def OpenChild (s₀ s : State ι) (parent child : ι) : Prop :=
  s₀.Open parent child ∧ s.Had child parent

def IsArchived (s : State ι) (agent : ι) : Prop :=
  ∃ record, s.get agent = some record ∧ record.archivedAt.isSome

def AllSettled (s : State ι) : Prop := ∀ mutation ∈ s.mutations, mutation.stage.isSettled

/-- Below an archived root, by a relation between parents and children. -/
def Below (s : State ι) (relation : ι → ι → Prop) (agent : ι) : Prop :=
  ∃ root, s.ArchivedRoot root ∧ Relation.ReflTransGen relation root agent

theorem stage_of_mark {mutation : Mutation ι} (hsettled : mutation.stage.isSettled)
    (hmark : mutation.mark.isSome) : ∃ mark, mutation.stage = .settled (.archived mark) := by
  rw [Mutation.mark] at hmark
  cases hstage : mutation.stage with
  | settled outcome =>
    cases outcome with
    | archived mark => exact ⟨mark, rfl⟩
    | _ =>
      rw [hstage] at hmark
      contradiction
  | _ =>
    rw [hstage] at hsettled
    contradiction

/-- An agent below a root has been gone through itself. -/
theorem Inv.exists_of_below (hinv : Inv s₀ s) (hsettled : s.AllSettled)
    (hbelow : s.Below (OpenChild s₀ s) agent) : ∃ mutation ∈ s.mutations, mutation.agent = agent ∧
      ∃ mark, mutation.stage = .settled (.archived mark) := by
  obtain ⟨root, ⟨call, hcall, hagent, -, hstage⟩, hpath⟩ := hbelow
  induction hpath with
  | refl => exact ⟨call, hcall, hagent, hstage⟩
  | tail _ hchild ih =>
    rename_i parent child _
    obtain ⟨mutation, hmem, hparent, mark, hmarked⟩ := ih
    obtain ⟨⟨record₀, hrecord₀, -, hopen₀⟩, record, hrecord, hlabel⟩ := hchild
    have hknows := hinv.knows mutation hmem
    simp only [Knows, hmarked] at hknows
    have hsome : record.archivedAt.isSome := by
      by_contra hnone
      rw [Option.not_isSome_iff_eq_none] at hnone
      exact hknows.2 child ⟨record, hrecord, by rw [hlabel, hparent], hnone⟩
    rcases hinv.archived child record₀ record hrecord₀ hrecord hsome with hbefore | ⟨other, hother, hsame, hmark⟩
    · rw [hopen₀] at hbefore
      contradiction
    · exact ⟨other, hother, hsame, stage_of_mark (hsettled other hother) hmark⟩

/-- Whatever was marked is below a root, since its parent was marked before. -/
theorem Inv.below_of_mark (hinv : Inv s₀ s) (hsettled : s.AllSettled) (mark : ℕ)
    (mutation : Mutation ι) (hmem : mutation ∈ s.mutations) (hmark : mutation.mark = some mark) :
    s.Below (OpenChild s₀ s) mutation.agent := by
  induction mark using Nat.strong_induction_on generalizing mutation with
  | _ mark ih =>
    obtain ⟨mark', hstage⟩ := stage_of_mark (hsettled mutation hmem) (by rw [hmark]; rfl)
    cases hparent : mutation.parent with
    | none =>
      exact ⟨mutation.agent, ⟨mutation, hmem, rfl, hparent, mark', hstage⟩, .refl⟩
    | some parent =>
      obtain ⟨-, before, hbefore, hagent, earlier, hearlier, hlt⟩ :=
        hinv.origin mutation hmem parent hparent
      obtain ⟨root, hroot, hpath⟩ := ih earlier (hlt mark hmark) before hbefore hearlier
      obtain ⟨-, record, hrecord, -, hlabel⟩ := (hinv.knows mutation hmem).archived hmark
      obtain ⟨hkept, hopen⟩ := hlabel parent hparent
      rw [hagent] at hpath
      exact ⟨root, hroot, hpath.tail ⟨hopen, record, hrecord, hkept⟩⟩

/-! ## Archiving -/

structure ArchivesSubtrees (s₀ s : State ι) : Prop where
  /-- a run without further calls is finite -/
  finite : ∀ (indices : List ℕ) (s' : State ι), s.run (indices.map Event.advance) = some s' → indices.length ≤ s.weight
  /-- and ends only where all calls have settled -/
  settles : (∀ i, s.advance i = none) → s.AllSettled
  archives : s.AllSettled → ∀ agent, s.Below (OpenChild s₀ s) agent → s.IsArchived agent
  others : s.AllSettled → ∀ agent, s.IsArchived agent → ¬ s₀.IsArchived agent →
    s.Below (OpenChild s₀ s) agent
  labels : s.AllSettled → ∀ agent record₀ record, s₀.get agent = some record₀ →
    s.get agent = some record → record.parent ≠ record₀.parent →
      ∃ parent, record₀.parent = some parent ∧ s.Below (OpenChild s₀ s) parent

theorem archiveAgent_archivesSubtrees (events : List (Event ι)) (hstart : s₀.Start)
    (hrun : s₀.run events = some s) : ArchivesSubtrees s₀ s := by
  have hinv : Inv s₀ s := inv_run events (inv_start hstart) hrun
  refine ⟨?_, settled_of_stuck hinv, ?_, ?_, ?_⟩
  · intro indices s' hindices
    have hle := length_le_weight indices hinv hindices
    omega
  · intro hsettled agent hbelow
    obtain ⟨mutation, hmem, rfl, mark, hstage⟩ := hinv.exists_of_below hsettled hbelow
    have hmark : mutation.mark = some mark := by rw [Mutation.mark, hstage]; rfl
    obtain ⟨-, record, hrecord, hsome, -⟩ := (hinv.knows mutation hmem).archived hmark
    exact ⟨record, hrecord, hsome⟩
  · rintro hsettled agent ⟨record, hrecord, hsome⟩ hbefore
    obtain ⟨record₀, hrecord₀, -⟩ := hinv.follows_get hrecord
    rcases hinv.archived agent record₀ record hrecord₀ hrecord hsome with hold | ⟨mutation, hmem, rfl, hmark⟩
    · exact absurd ⟨record₀, hrecord₀, hold⟩ hbefore
    · obtain ⟨mark, hmark⟩ := Option.isSome_iff_exists.mp hmark
      exact hinv.below_of_mark hsettled mark mutation hmem hmark
  · intro hsettled agent record₀ record hrecord₀ hrecord hne
    obtain ⟨mutation, hmem, rfl, hparent⟩ := hinv.detached agent record₀ record hrecord₀ hrecord hne
    obtain ⟨parent, hparent⟩ := Option.isSome_iff_exists.mp hparent
    obtain ⟨⟨record', hrecord', hlabel⟩, before, hbefore, hagent, mark, hmark, -⟩ :=
      hinv.origin mutation hmem parent hparent
    rw [hrecord₀] at hrecord'
    rw [Option.some.inj hrecord']
    exact ⟨parent.id, hlabel, hagent ▸ hinv.below_of_mark hsettled mark before hbefore hmark⟩

/-- Two agents that are each other's parent, both live. -/
def mutualParents : State ℕ where
  records := [⟨0, some 1, [], none, none⟩, ⟨1, some 0, [], none, none⟩]
  live := fun agent => agent < 2
  clock := 0
  mutations := []

/-- Both are archived at once; the first queues a mutation behind the call of the second. -/
def mutualCalls : List (Event ℕ) :=
  [.archiveAgent 0, .archiveAgent 1] ++
    [0, 0, 0, 0, 0, 0, 0, 0, 1, 1, 1, 1, 1, 1, 1, 2, 2, 0, 0].map .advance

theorem mutualParents_archived :
    ∃ s, mutualParents.run mutualCalls = some s ∧ ArchivesSubtrees mutualParents s := by
  obtain ⟨s, hrun⟩ : ∃ s, mutualParents.run mutualCalls = some s :=
    Option.isSome_iff_exists.mp (by decide +kernel)
  have hstart : mutualParents.Start := by
    refine ⟨fun agent hlive => ?_, rfl⟩
    have hlt : agent < 2 := of_decide_eq_true hlive
    interval_cases agent <;> rfl
  exact ⟨s, hrun, archiveAgent_archivesSubtrees _ hstart hrun⟩

/-- A live agent, a child that is archived already, and a child of that one. -/
def archivedBetween : State ℕ where
  records := [⟨0, none, [], none, none⟩, ⟨1, some 0, [], none, some 0⟩, ⟨2, some 1, [], none, none⟩]
  live := fun agent => agent == 0
  clock := 1
  mutations := []

/-- The cascade passes over the archived child, so that what is below it is not archived. -/
theorem archivedBetween_keeps : ∃ s, archivedBetween.Start ∧
    archivedBetween.run (.archiveAgent 0 :: List.replicate 8 (.advance 0)) = some s ∧
    s.AllSettled ∧ s.Below (Child archivedBetween s) 2 ∧ ¬ s.IsArchived 2 := by
  refine ⟨⟨[⟨0, none, [], none, some 1⟩, ⟨1, some 0, [], none, some 0⟩, ⟨2, some 1, [], none, none⟩],
    Function.update archivedBetween.live 0 false, 2, [⟨0, none, .settled (.archived 1)⟩]⟩, ?_, rfl, ?_,
    ?_, ?_⟩
  · refine ⟨fun agent hlive => ?_, rfl⟩
    have hzero : agent = 0 := by simpa [archivedBetween] using hlive
    rw [hzero]
    rfl
  · intro mutation hmutation
    rw [List.mem_singleton.mp hmutation]
    rfl
  · refine ⟨0, ⟨_, List.mem_singleton_self _, rfl, rfl, 1, rfl⟩, ?_⟩
    refine Relation.ReflTransGen.tail (b := 1) (.single ⟨?_, ?_⟩) ⟨?_, ?_⟩ <;> exact ⟨_, rfl, rfl⟩
  · rintro ⟨record, hrecord, hsome⟩
    have heq : (⟨2, some 1, [], none, none⟩ : Record ℕ) = record := Option.some.inj hrecord
    rw [← heq] at hsome
    contradiction

end Orqara.Archiving.State
