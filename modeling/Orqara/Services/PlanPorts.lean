import Orqara.Services.PortCalls

/-!
# Ports within a plan

A plan that is being built gives no port to two services: explicit ports differ from
each other, and a dynamic one differs from the explicit ones and from those before it.
-/

namespace Orqara.Services

def DistinctPorts (plan : Plan) : Prop :=
  ∀ n n' p, plan.get n = some p → plan.get n' = some p → n = n'

theorem distinctPorts_empty : DistinctPorts ∅ := by
  intro n n' p h
  rw [OrderedMap.get_empty] at h
  contradiction

variable {plan : Plan} {port : ℤ}

theorem DistinctPorts.set (h : DistinctPorts plan) {name : String}
    (hport : ∀ n, n ≠ name → plan.get n ≠ some port) : DistinctPorts (plan.set name port) := by
  intro n n' p hn hn'
  rw [OrderedMap.get_set] at hn hn'
  by_cases hname : n = name
  · rw [if_pos hname] at hn
    by_cases hname' : n' = name
    · rw [hname, hname']
    · rw [if_neg hname', ← hn] at hn'
      exact absurd hn' (hport n' hname')
  · rw [if_neg hname] at hn
    by_cases hname' : n' = name
    · rw [if_pos hname', ← hn] at hn'
      exact absurd hn'.symm (hport n hname)
    · rw [if_neg hname'] at hn'
      exact h n n' p hn hn'

theorem mem_planPorts :
    port ∈ planPorts plan ↔ ∃ n, plan.get n = some port := by
  unfold planPorts
  rw [List.mem_map]
  constructor
  · rintro ⟨⟨n, p⟩, hmem, rfl⟩
    exact ⟨n, OrderedMap.get_eq_some_iff.mpr hmem⟩
  · rintro ⟨n, hget⟩
    exact ⟨(n, port), OrderedMap.get_eq_some_iff.mp hget, rfl⟩

/-- The ports that services ask for. -/
def explicitOf (services : List WorkspaceServicePortDeclaration) : List ℤ :=
  services.filterMap (·.port)

theorem explicitPortOwners_spec : ∀ {services : List WorkspaceServicePortDeclaration}
    {owners ports : List ℤ}, explicitPortOwners owners services = .ok ports →
      ports = owners ++ explicitOf services ∧ (explicitOf services).Nodup ∧
        ∀ p ∈ explicitOf services, p ∉ owners := by
  intro services
  induction services with
  | nil =>
    intro owners ports h
    rw [explicitPortOwners] at h
    rw [← Except.ok.inj h]
    exact ⟨(List.append_nil owners).symm, List.nodup_nil, fun p hp => absurd hp List.not_mem_nil⟩
  | cons service services ih =>
    intro owners ports h
    rw [explicitPortOwners] at h
    unfold explicitOf
    cases hport : service.port with
    | none =>
      rw [hport] at h
      rw [List.filterMap_cons_none hport]
      exact ih h
    | some port =>
      rw [hport] at h
      dsimp only at h
      rw [List.filterMap_cons_some hport]
      by_cases hmem : port ∈ owners
      · rw [if_pos hmem] at h
        contradiction
      · rw [if_neg hmem] at h
        obtain ⟨heq, hnodup, hfresh⟩ := ih h
        have hport' : port ∉ explicitOf services := fun hin =>
          hfresh port hin (List.mem_append_right _ (List.mem_singleton_self port))
        refine ⟨?_, List.nodup_cons.mpr ⟨hport', hnodup⟩, ?_⟩
        · rw [heq, List.append_assoc]
          rfl
        · intro p hp
          rcases List.mem_cons.mp hp with rfl | hrest
          · exact hmem
          · exact fun hin => hfresh p hrest (List.mem_append_left _ hin)

/-- What a plan being built and the services after it have to do with each other. -/
structure Buildable (plan : Plan) (explicitPorts : List ℤ)
    (rest : List WorkspaceServicePortDeclaration) : Prop where
  distinct : DistinctPorts plan
  nodup : (explicitOf rest).Nodup
  apart : ∀ p ∈ explicitOf rest, p ∈ explicitPorts ∧ ∀ n, plan.get n ≠ some p

variable {explicitPorts : List ℤ}

theorem buildable_nextService :
    ∀ {services : List WorkspaceServicePortDeclaration} {plan : Plan},
      Buildable plan explicitPorts services →
        Buildable (nextService plan services).1 explicitPorts
          (((nextService plan services).2.map Prod.snd).getD []) := by
  intro services
  induction services with
  | nil => exact fun h => h
  | cons service services ih =>
    intro plan h
    rw [nextService]
    have happart := h.apart
    have hnodup := h.nodup
    unfold explicitOf at happart hnodup
    cases hport : service.port with
    | none =>
      rw [List.filterMap_cons_none hport] at happart hnodup
      exact ⟨h.distinct, hnodup, happart⟩
    | some port =>
      rw [List.filterMap_cons_some hport] at happart hnodup
      obtain ⟨hfresh, hrest⟩ := List.nodup_cons.mp hnodup
      apply ih
      refine ⟨h.distinct.set fun n _ => (happart port List.mem_cons_self).2 n, hrest, ?_⟩
      intro p hp
      obtain ⟨hin, hnone⟩ := happart p (List.mem_cons_of_mem _ hp)
      refine ⟨hin, fun n => ?_⟩
      rw [OrderedMap.get_set]
      by_cases hname : n = service.scriptName
      · rw [if_pos hname]
        rintro heq
        exact hfresh (Option.some.inj heq ▸ hp)
      · rw [if_neg hname]
        exact hnone n

/-- A call that builds a plan keeps its ports apart. -/
def BuildInv (job : Job) : Prop :=
  ∀ plan explicitPorts rest, job.kind = .build plan explicitPorts rest →
    Buildable plan explicitPorts rest ∧
      (∀ reservedPorts attempt, job.stage = .allocating reservedPorts attempt →
        reservedPorts = explicitPorts ++ planPorts plan) ∧
      ∀ port, job.stage = .resolved port → port ∉ explicitPorts ++ planPorts plan

theorem buildJob_eq (id : ℕ) (w : String) (plan : Plan) (explicitPorts : List ℤ)
    (services : List WorkspaceServicePortDeclaration) :
    (buildJob id w plan explicitPorts services).id = id ∧
      (buildJob id w plan explicitPorts services).workspaceId = w ∧
      (buildJob id w plan explicitPorts services).kind =
        .build (nextService plan services).1 explicitPorts
          (((nextService plan services).2.map Prod.snd).getD []) ∧
      ((buildJob id w plan explicitPorts services).stage = .built ∨
        (buildJob id w plan explicitPorts services).stage =
          .allocating (explicitPorts ++ planPorts (nextService plan services).1) 0) := by
  unfold buildJob
  cases hnext : nextService plan services with
  | mk plan next =>
    cases next with
    | none => exact ⟨rfl, rfl, rfl, Or.inl rfl⟩
    | some found => exact ⟨rfl, rfl, rfl, Or.inr rfl⟩

theorem buildInv_buildJob {id : ℕ} {w : String} {services : List WorkspaceServicePortDeclaration}
    (h : Buildable plan explicitPorts services) :
    BuildInv (buildJob id w plan explicitPorts services) := by
  obtain ⟨-, -, hkind, hstage⟩ := buildJob_eq id w plan explicitPorts services
  intro plan' explicitPorts' rest heq
  rw [hkind] at heq
  obtain ⟨rfl, rfl, rfl⟩ := JobKind.build.inj heq
  refine ⟨buildable_nextService h, ?_, ?_⟩
  · intro reservedPorts attempt hallocating
    rcases hstage with hbuilt | hwaits
    · rw [hbuilt] at hallocating
      contradiction
    · rw [hwaits] at hallocating
      exact (Stage.allocating.inj hallocating).1.symm
  · intro port hresolved
    rcases hstage with hbuilt | hwaits
    · rw [hbuilt] at hresolved
      contradiction
    · rw [hwaits] at hresolved
      contradiction

/-- The build goes on with the port of the service it was at. -/
theorem Buildable.resolve {rest : List WorkspaceServicePortDeclaration}
    (h : Buildable plan explicitPorts rest) (hport : port ∉ explicitPorts ++ planPorts plan)
    (name : String) :
    Buildable (plan.set name port) explicitPorts rest := by
  have hfree : ∀ n, plan.get n ≠ some port := fun n hget =>
    hport (List.mem_append_right _ (mem_planPorts.mpr ⟨n, hget⟩))
  refine ⟨h.distinct.set fun n _ => hfree n, h.nodup, ?_⟩
  intro p hp
  obtain ⟨hin, hnone⟩ := h.apart p hp
  refine ⟨hin, fun n => ?_⟩
  rw [OrderedMap.get_set]
  by_cases hname : n = name
  · rw [if_pos hname]
    intro heq
    exact hport (List.mem_append_left _ (Option.some.inj heq ▸ hin))
  · rw [if_neg hname]
    exact hnone n

/-- Stored plans and plans in the making give no port twice. -/
structure PlansInv (heap : ℕ → Plan) (jobs : List Job) : Prop where
  stored : ∀ plan, DistinctPorts (heap plan)
  builds : ∀ job ∈ jobs, BuildInv job

variable {heap : ℕ → Plan} {jobs jobs' : List Job}

section

variable (h : PlansInv heap jobs)
include h

theorem PlansInv.update (plan : ℕ) {ports : Plan}
    (hports : DistinctPorts ports) : PlansInv (Function.update heap plan ports) jobs where
  stored other := by
    by_cases hsame : other = plan
    · rw [hsame, Function.update_self]
      exact hports
    · rw [Function.update_of_ne hsame]
      exact h.stored other
  builds := h.builds

theorem PlansInv.withJobs
    (hjobs : ∀ job ∈ jobs', job ∈ jobs ∨ BuildInv job) : PlansInv heap jobs' where
  stored := h.stored
  builds job hjob := (hjobs job hjob).elim (h.builds job) id

theorem PlansInv.drop (id : ℕ) : PlansInv heap (dropJob jobs id) :=
  h.withJobs fun _ hother => Or.inl (mem_dropJob.mp hother).1

end

end Orqara.Services
