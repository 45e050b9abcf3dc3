import Orqara.Registry.ProjectRegistry

/-!
# What an allocation writes

Between the lookup of an allocation and its write the mutations of other callers are committed. When
none of them touches the project that was found, or gives the root a project, a refresh changes three
fields and no second project is created.
-/

namespace Orqara.Registry

open List Option

variable {lookup : ProjectLookup}

/-! ## The condition -/

/-- What an allocation has seen of the records and still counts on. -/
def AllocationPhase.Expects (lookup : ProjectLookup) (input : AllocationInput)
    (records : ProjectRecords) : AllocationPhase → Prop
  | .listing => True
  | .checking _ => activeProjects lookup records input.rootPath = []
  | .upserting (.refresh active) => records.get active.projectId = some active
  | .upserting (.create _) => activeProjects lookup records input.rootPath = []
  | .returning _ => True

instance (input : AllocationInput) (records : ProjectRecords) :
    (phase : AllocationPhase) → Decidable (phase.Expects lookup input records)
  | .listing => .isTrue trivial
  | .checking _ => inferInstanceAs (Decidable (_ = _))
  | .upserting (.refresh _) => inferInstanceAs (Decidable (_ = _))
  | .upserting (.create _) => inferInstanceAs (Decidable (_ = _))
  | .returning _ => .isTrue trivial

/-- Whether the lookup is over and the write is not. -/
def AllocationPhase.awaitsWrite : AllocationPhase → Bool
  | .listing => false
  | .checking _ => true
  | .upserting _ => true
  | .returning _ => false

namespace ProjectRegistry

variable {s s' : ProjectRegistry} {input : AllocationInput} {queued : QueuedMutation}
  {phase : Phase String PersistedProjectRecord}

/-- A step that disturbs no allocation: a load that resumes late read what is in the cache, a project
that is found is stored under its id, and the commit of another caller's mutation keeps what the
allocation has seen. -/
def Undisturbed (lookup : ProjectLookup) (s : ProjectRegistry) : ProjectEvent → Prop
  | .finish i => s.loaded = true → ∀ load ∈ s.loads[i]?, ∀ content ∈ load.content,
      Agrees projectSchema s.cache content.parsed
  | .lookup _ => ∀ allocation ∈ s.allocating,
      ∀ active ∈ findActive lookup s.cache allocation.1.rootPath,
        s.cache.get active.projectId = some active
  | .commit =>
    match s.running, s.allocating with
    | some (queued, .written staged), some (input, phase) =>
      queued.allocates = false → phase.Expects lookup input staged
    | _, _ => True
  | _ => True

def UndisturbedAlong (lookup : ProjectLookup) (s : ProjectRegistry) : List ProjectEvent → Prop
  | [] => True
  | event :: events => s.Undisturbed lookup event ∧
      ∀ s' ∈ s.step lookup event, s'.UndisturbedAlong lookup events

instance (s : ProjectRegistry) (event : ProjectEvent) : Decidable (s.Undisturbed lookup event) := by
  unfold Undisturbed
  split
  · infer_instance
  · infer_instance
  · split <;> infer_instance
  · infer_instance

/-- Whether no step of a run disturbs an allocation can be computed. -/
def decideUndisturbedAlong (s : ProjectRegistry) :
    (events : List ProjectEvent) → Decidable (s.UndisturbedAlong lookup events)
  | [] => .isTrue trivial
  | event :: events =>
    have := fun s' : ProjectRegistry => decideUndisturbedAlong s' events
    inferInstanceAs (Decidable (_ ∧ ∀ s' ∈ s.step lookup event, _))

instance (s : ProjectRegistry) (events : List ProjectEvent) :
    Decidable (s.UndisturbedAlong lookup events) := decideUndisturbedAlong s events

/-! ## What holds at every step -/

/-- The writes of allocations that have not settled. -/
def ownWrites (s : ProjectRegistry) : List QueuedMutation :=
  ((s.running.map Prod.fst).toList ++ s.mutationQueue).filter (·.allocates)

/-- The write that the allocation awaits. -/
def awaited (s : ProjectRegistry) : List QueuedMutation :=
  match s.allocating with
  | some (input, .upserting write) => [⟨.upsert (write.record input), true⟩]
  | _ => []

structure Inv (lookup : ProjectLookup) (s : ProjectRegistry) : Prop where
  running_loaded : ∀ run ∈ s.running, run.2 ≠ .loading → s.loaded = true
  staged : ∀ queued staged,
    s.running = some (queued, .writing staged) ∨ s.running = some (queued, .written staged) →
    queued.mutation.stage s.cache = .changed staged
  file_written : ∀ queued staged, s.running = some (queued, .written staged) →
    s.file = .ofMap staged
  looked : ∀ input phase, s.allocating = some (input, phase) → phase.awaitsWrite = true →
    s.loaded = true
  expects : ∀ input phase, s.allocating = some (input, phase) →
    phase.Expects lookup input s.cache
  own : s.ownWrites = s.awaited

theorem inv_onDisk (file : FileContent PersistedProjectRecord) : Inv lookup (onDisk file) where
  running_loaded := fun run hrun => nomatch hrun
  staged := fun queued staged h => by simp [onDisk] at h
  file_written := fun queued staged h => nomatch h
  looked := fun input phase h => nomatch h
  expects := fun input phase h => nomatch h
  own := rfl

theorem expects_of_not_awaits {phase : AllocationPhase} (h : phase.awaitsWrite ≠ true)
    (records : ProjectRecords) :
    phase.Expects lookup input records := by
  cases phase with
  | listing => trivial
  | checking projectId => exact absurd rfl h
  | upserting write => exact absurd rfl h
  | returning result => trivial

section

variable (hinv : Inv lookup s) {staged : ProjectRecords}
include hinv

/-- What a mutation stages is not there before the records are loaded. -/
theorem Inv.not_staged (hloaded : s.loaded ≠ true) :
    ¬ (s.running = some (queued, .writing staged) ∨ s.running = some (queued, .written staged)) := by
  rintro (h | h)
  · exact hloaded (hinv.running_loaded _ h (by simp))
  · exact hloaded (hinv.running_loaded _ h (by simp))

theorem inv_startLoad (forMutation : Bool) :
    Inv lookup (s.startLoad forMutation) := by
  by_cases hloaded : s.loaded = true
  · rw [startLoad, if_pos hloaded]
    exact hinv
  · rw [startLoad, if_neg hloaded]
    exact
      { hinv with
        staged := fun queued staged h => absurd h (hinv.not_staged hloaded)
        expects := fun input phase h =>
          expects_of_not_awaits (fun hawaits => hloaded (hinv.looked input phase h hawaits)) _ }

omit hinv in
theorem resumed_eq :
    (phase.resumed = .writing staged → phase = .writing staged) ∧
      (phase.resumed = .written staged → phase = .written staged) := by
  cases phase <;> simp [Phase.resumed]

theorem inv_finish {i : ℕ} (hcalm : s.Undisturbed lookup (.finish i)) (h : s.finish i = some s') :
    Inv lookup s' := by
  obtain ⟨load, hload, hmap⟩ := bind_eq_some_iff.mp h
  obtain ⟨content, hcontent, rfl⟩ := map_eq_some_iff.mp hmap
  have hcache : s.loaded = true → setAll projectSchema s.cache content.parsed = s.cache :=
    fun hloaded => setAll_of_agrees (hcalm hloaded load hload content hcontent)
  have hrunning : ∀ queued phase,
      (if load.forMutation then s.running.map fun run => (run.1, run.2.resumed) else s.running) =
        some (queued, phase) →
      ∃ before, s.running = some (queued, before) ∧ (before = phase ∨ before.resumed = phase) := by
    intro queued phase hrun
    split at hrun
    · obtain ⟨run, hbefore, heq⟩ := map_eq_some_iff.mp hrun
      obtain ⟨rfl, rfl⟩ := Prod.mk.inj heq
      exact ⟨run.2, hbefore, .inr rfl⟩
    · exact ⟨phase, hrun, .inl rfl⟩
  have hwriting : ∀ queued staged,
      (if load.forMutation then s.running.map fun run => (run.1, run.2.resumed) else s.running) =
        some (queued, .writing staged) → s.running = some (queued, .writing staged) := by
    intro queued staged hrun
    obtain ⟨before, hbefore, rfl | heq⟩ := hrunning _ _ hrun
    · exact hbefore
    · rw [hbefore, resumed_eq.1 heq]
  have hwritten : ∀ queued staged,
      (if load.forMutation then s.running.map fun run => (run.1, run.2.resumed) else s.running) =
        some (queued, .written staged) → s.running = some (queued, .written staged) := by
    intro queued staged hrun
    obtain ⟨before, hbefore, rfl | heq⟩ := hrunning _ _ hrun
    · exact hbefore
    · rw [hbefore, resumed_eq.2 heq]
  have hqueued : (if load.forMutation then s.running.map fun run => (run.1, run.2.resumed)
      else s.running).map Prod.fst = s.running.map Prod.fst := by
    split
    · rw [Option.map_map]
      rfl
    · rfl
  constructor
  · exact fun _ _ _ => rfl
  · intro queued staged hstaged
    have hstaged' := hstaged.imp (hwriting queued staged) (hwritten queued staged)
    by_cases hloaded : s.loaded = true
    · simp only [finishLoad, hcache hloaded]
      exact hinv.staged queued staged hstaged'
    · exact absurd hstaged' (hinv.not_staged hloaded)
  · intro queued staged hstaged
    exact hinv.file_written queued staged (hwritten queued staged hstaged)
  · exact fun _ _ _ _ => rfl
  · intro input phase hphase
    by_cases hloaded : s.loaded = true
    · simp only [finishLoad, hcache hloaded]
      exact hinv.expects input phase hphase
    · exact expects_of_not_awaits (fun hawaits => hloaded (hinv.looked input phase hphase hawaits)) _
  · simp only [ownWrites, finishLoad, hqueued]
    exact hinv.own

section

variable (hrun : s.running = some (queued, phase))
include hrun

/-- The write of an allocation is the one that it awaits, and no other is queued. -/
theorem Inv.allocating_eq (hallocates : queued.allocates = true) :
    ∃ input write, s.allocating = some (input, .upserting write) ∧
      queued = ⟨.upsert (write.record input), true⟩ ∧
      s.mutationQueue.filter (·.allocates) = [] := by
  have hown := hinv.own
  unfold ownWrites awaited at hown
  rw [hrun] at hown
  simp only [map_some, toList_some, singleton_append, filter_cons,
    hallocates, if_true] at hown
  split at hown
  · next input write halloc =>
    obtain ⟨hqueued, hrest⟩ := List.cons.inj hown
    exact ⟨input, write, halloc, hqueued, hrest⟩
  · contradiction

/-- A mutation settles. What others have made of the records keeps what the allocation has seen. -/
theorem inv_settle (succeeds : Bool) (records : ProjectRecords)
    (hkept : queued.allocates = false → ∀ input phase, s.allocating = some (input, phase) →
      phase.Expects lookup input records) :
    Inv lookup { s.settle queued succeeds with cache := records } := by
  by_cases hallocates : queued.allocates = true
  · obtain ⟨input, write, halloc, -, hrest⟩ := hinv.allocating_eq hrun hallocates
    have hnext : ({ s.settle queued succeeds with cache := records } : ProjectRegistry).allocating =
        some (input, .returning (if succeeds then some (write.record input) else none)) := by
      simp [settle, hallocates, halloc, AllocationPhase.settled]
    constructor
    · exact fun run hmem => nomatch hmem
    · intro queued' staged h
      simp [settle] at h
    · exact fun queued' staged h => nomatch h
    · intro input' phase' h hawaits
      obtain ⟨-, rfl⟩ := Prod.mk.inj (some.inj (hnext.symm.trans h))
      contradiction
    · intro input' phase' h
      obtain ⟨-, rfl⟩ := Prod.mk.inj (some.inj (hnext.symm.trans h))
      trivial
    · have hawaited : ({ s.settle queued succeeds with cache := records } : ProjectRegistry).awaited =
          [] := by
        unfold awaited
        rw [hnext]
      exact hrest.trans hawaited.symm
  · have hother : queued.allocates = false := by simpa using hallocates
    have hnext : ({ s.settle queued succeeds with cache := records } : ProjectRegistry).allocating =
        s.allocating := by
      simp [settle, hother]
    constructor
    · exact fun run hmem => nomatch hmem
    · intro queued' staged h
      simp [settle] at h
    · exact fun queued' staged h => nomatch h
    · intro input phase' h hawaits
      exact hinv.looked input phase' (hnext ▸ h) hawaits
    · intro input phase' h
      exact hkept hother input phase' (hnext ▸ h)
    · have hown := hinv.own
      unfold ownWrites at hown
      rw [hrun] at hown
      simp only [map_some, toList_some, singleton_append, filter_cons,
        hother, Bool.false_eq_true, if_false] at hown
      unfold awaited at hown ⊢
      rw [hnext, ← hown]
      rfl

theorem inv_settle_same (succeeds : Bool) :
    Inv lookup (s.settle queued succeeds) :=
  inv_settle hinv hrun succeeds s.cache fun _ input phase h => hinv.expects input phase h

end

omit hinv in
theorem findActive_eq_none {records : ProjectRecords} {rootPath : String}
    (h : findActive lookup records rootPath = none) :
    activeProjects lookup records rootPath = [] := by
  have hempty := head?_eq_none_iff.mp h
  have hlength := congrArg List.length hempty
  rw [length_insertionSort] at hlength
  exact length_eq_zero_iff.mp hlength

/-- The allocation queues its write, with what it has seen. -/
theorem inv_upsertAllocated {phase : AllocationPhase} {write : AllocationWrite}
    (halloc : s.allocating = some (input, phase)) (hphase : ∀ write, phase ≠ .upserting write)
    (hloaded : s.loaded = true)
    (hexpects : AllocationPhase.Expects lookup input s.cache (.upserting write)) :
    Inv lookup (s.upsertAllocated input write) :=
  { hinv with
    looked := fun _ _ _ _ => hloaded
    expects := fun input' phase' h => by
      obtain ⟨rfl, rfl⟩ := Prod.mk.inj (Option.some.inj h)
      exact hexpects
    own := by
      have hnone : s.ownWrites = [] := by
        rw [hinv.own]
        unfold awaited
        rw [halloc]
        cases phase with
        | upserting write => exact absurd rfl (hphase write)
        | listing => rfl
        | checking projectId => rfl
        | returning result => rfl
      unfold ownWrites at hnone ⊢
      simp only [upsertAllocated, awaited, ← append_assoc]
      rw [filter_append, hnone]
      rfl }

/-- A phase without a write in place of another one. -/
theorem inv_phase {phase phase' : AllocationPhase} (halloc : s.allocating = some (input, phase))
    (hphase : ∀ write, phase ≠ .upserting write) (hphase' : ∀ write, phase' ≠ .upserting write)
    (hloaded : s.loaded = true) (hexpects : phase'.Expects lookup input s.cache) :
    Inv lookup { s with allocating := some (input, phase') } :=
  { hinv with
    looked := fun _ _ _ _ => hloaded
    expects := fun input' phase'' h => by
      obtain ⟨rfl, rfl⟩ := Prod.mk.inj (Option.some.inj h)
      exact hexpects
    own := by
      have hown := hinv.own
      unfold awaited at hown ⊢
      rw [halloc] at hown
      cases phase with
      | upserting write => exact absurd rfl (hphase write)
      | _ =>
        cases phase' with
        | upserting write => exact absurd rfl (hphase' write)
        | _ => exact hown }

theorem inv_lookUp {projectId : String} (hcalm : s.Undisturbed lookup (.lookup projectId))
    (h : s.lookUp lookup projectId = some s') :
    Inv lookup s' := by
  unfold lookUp at h
  split at h
  · next input halloc =>
    split at h
    · next hloaded =>
      have hlisting : ∀ write, AllocationPhase.listing ≠ .upserting write := by simp
      split at h
      · next active hactive =>
        split at h
        · rw [← some.inj h]
          exact inv_phase hinv halloc hlisting (by simp) hloaded trivial
        · rw [← some.inj h]
          exact inv_upsertAllocated hinv halloc hlisting hloaded (hcalm _ halloc active hactive)
      · next hnone =>
        rw [← some.inj h]
        exact inv_phase hinv halloc hlisting (by simp) hloaded (findActive_eq_none hnone)
    · contradiction
  · contradiction

theorem inv_check {nextId : String} (h : s.check nextId = some s') :
    Inv lookup s' := by
  unfold check at h
  split at h
  · next input projectId halloc =>
    have hchecking : ∀ write, AllocationPhase.checking projectId ≠ .upserting write := by simp
    have hloaded := hinv.looked _ _ halloc rfl
    have hnone := hinv.expects _ _ halloc
    split at h
    · rw [← some.inj h]
      exact inv_phase hinv halloc hchecking (by simp) hloaded hnone
    · rw [← some.inj h]
      exact inv_upsertAllocated hinv halloc hchecking hloaded hnone
  · contradiction

theorem inv_stage (h : s.stage = some s') : Inv lookup s' := by
  unfold stage at h
  split at h
  · next queued hrun =>
    split at h
    · rw [← some.inj h]
      exact inv_settle_same hinv hrun false
    · rw [← some.inj h]
      exact inv_settle_same hinv hrun true
    · next staged hstaged =>
      have hloaded := hinv.running_loaded _ hrun (by simp)
      rw [← some.inj h]
      exact
        { running_loaded := fun _ _ _ => hloaded
          staged := fun queued' staged' h' => by
            rcases h' with h' | h'
            · obtain ⟨rfl, hphase⟩ := Prod.mk.inj (some.inj h')
              rw [← Phase.writing.inj hphase]
              exact hstaged
            · exact absurd (Prod.mk.inj (some.inj h')).2 (by simp)
          file_written := fun queued' staged' h' =>
            absurd (Prod.mk.inj (some.inj h')).2 (by simp)
          looked := hinv.looked
          expects := hinv.expects
          own := by
            have hown := hinv.own
            unfold ownWrites at hown ⊢
            rw [hrun] at hown
            exact hown }
  · contradiction

theorem inv_write {succeeds : Bool} (h : s.write succeeds = some s') :
    Inv lookup s' := by
  unfold write at h
  split at h
  · next queued staged hrun =>
    split at h
    · have hloaded := hinv.running_loaded _ hrun (by simp)
      have hstaged := hinv.staged queued staged (.inl hrun)
      rw [← some.inj h]
      exact
        { running_loaded := fun _ _ _ => hloaded
          staged := fun queued' staged' h' => by
            rcases h' with h' | h'
            · exact absurd (Prod.mk.inj (some.inj h')).2 (by simp)
            · obtain ⟨rfl, hphase⟩ := Prod.mk.inj (some.inj h')
              rw [← Phase.written.inj hphase]
              exact hstaged
          file_written := fun queued' staged' h' => by
            rw [← Phase.written.inj (Prod.mk.inj (some.inj h')).2]
          looked := hinv.looked
          expects := hinv.expects
          own := by
            have hown := hinv.own
            unfold ownWrites at hown ⊢
            rw [hrun] at hown
            exact hown }
    · rw [← some.inj h]
      exact inv_settle_same hinv hrun false
  · contradiction

theorem inv_commit (hcalm : s.Undisturbed lookup .commit) (h : s.commit = some s') : Inv lookup s' := by
  unfold commit at h
  split at h
  · next queued staged hrun =>
    rw [← some.inj h]
    apply inv_settle hinv hrun true staged
    intro hother input phase halloc
    unfold Undisturbed at hcalm
    rw [hrun, halloc] at hcalm
    exact hcalm hother
  · contradiction

theorem inv_begin (h : s.begin = some s') : Inv lookup s' := by
  unfold begin at h
  split at h
  · next queued queue hrun hqueue =>
    have hload := inv_startLoad hinv true
    have hown : (queued :: queue).filter (·.allocates) = s.awaited := by
      rw [← hinv.own, ownWrites, hrun, hqueue]
      rfl
    have hphase : (if s.loaded then Phase.loaded else Phase.loading :
        Phase String PersistedProjectRecord) ≠ .loading → s.loaded = true := by
      intro hne
      by_contra hloaded
      exact hne (if_neg hloaded)
    have hkeeps : (s.startLoad true).loaded = s.loaded ∧
        (s.startLoad true).allocating = s.allocating := by
      unfold startLoad
      split <;> exact ⟨rfl, rfl⟩
    have hnot : ∀ staged : ProjectRecords,
        (if s.loaded then Phase.loaded else Phase.loading) ≠ .writing staged ∧
          (if s.loaded then Phase.loaded else Phase.loading) ≠ .written staged := by
      intro staged
      split <;> simp
    rw [← some.inj h]
    exact
      { running_loaded := fun run hmem hne => by
          rw [← some.inj hmem] at hne
          exact hkeeps.1.trans (hphase hne)
        staged := fun queued' staged h' => by
          rcases h' with h' | h'
          · exact absurd (Prod.mk.inj (some.inj h')).2 (hnot staged).1
          · exact absurd (Prod.mk.inj (some.inj h')).2 (hnot staged).2
        file_written := fun queued' staged h' =>
          absurd (Prod.mk.inj (some.inj h')).2 (hnot staged).2
        looked := hload.looked
        expects := hload.expects
        own := by
          have hawaited : (s.startLoad true).awaited = s.awaited := by
            rw [awaited, awaited, hkeeps.2]
          exact hown.trans hawaited.symm }
  · contradiction

theorem inv_beginAllocation (h : s.beginAllocation = some s') :
    Inv lookup s' := by
  unfold beginAllocation at h
  split at h
  · next input queue halloc hqueue =>
    have hload := inv_startLoad hinv false
    rw [← some.inj h]
    exact
      { hload with
        looked := fun input' phase h' hawaits => by
          rw [← (Prod.mk.inj (some.inj h')).2] at hawaits
          contradiction
        expects := fun input' phase h' => by
          rw [← (Prod.mk.inj (some.inj h')).2]
          trivial
        own := by
          have hnone : (s.startLoad false).awaited = [] := by
            have hsame : (s.startLoad false).allocating = s.allocating := by
              unfold startLoad
              split <;> rfl
            rw [awaited, hsame, halloc]
          exact hload.own.trans hnone }
  · contradiction

theorem inv_release (h : s.release = some s') : Inv lookup s' := by
  unfold release at h
  split at h
  · next input result halloc =>
    rw [← some.inj h]
    exact
      { hinv with
        looked := fun _ _ h' => nomatch h'
        expects := fun _ _ h' => nomatch h'
        own := by
          have hnone : s.awaited = [] := by
            rw [awaited, halloc]
          exact hinv.own.trans hnone }
  · contradiction

theorem inv_capture {i : ℕ} (h : s.capture i = some s') : Inv lookup s' := by
  obtain ⟨load, -, hload⟩ := bind_eq_some_iff.mp h
  split at hload
  · rw [← some.inj hload]
    exact ⟨hinv.running_loaded, hinv.staged, hinv.file_written, hinv.looked, hinv.expects, hinv.own⟩
  · contradiction

omit hinv in
theorem inv_mutate (mutation : ProjectMutation) (hinv : Inv lookup s) :
    Inv lookup { s with mutationQueue := s.mutationQueue ++ [⟨mutation, false⟩] } :=
  { hinv with
    own := by
      have hown := hinv.own
      unfold ownWrites at hown ⊢
      simp only [← append_assoc]
      rw [filter_append, hown]
      exact append_nil _ }

theorem inv_step {event : ProjectEvent} (hcalm : s.Undisturbed lookup event)
    (h : s.step lookup event = some s') : Inv lookup s' := by
  cases event with
  | read => exact some.inj h ▸ inv_startLoad hinv false
  | mutate mutation => exact some.inj h ▸ inv_mutate mutation hinv
  | allocate input =>
    rw [← some.inj h]
    exact ⟨hinv.running_loaded, hinv.staged, hinv.file_written, hinv.looked, hinv.expects, hinv.own⟩
  | beginAllocation => exact inv_beginAllocation hinv h
  | lookup projectId => exact inv_lookUp hinv hcalm h
  | check nextId => exact inv_check hinv h
  | release => exact inv_release hinv h
  | begin => exact inv_begin hinv h
  | capture i => exact inv_capture hinv h
  | finish i => exact inv_finish hinv hcalm h
  | stage => exact inv_stage hinv h
  | write succeeds => exact inv_write hinv h
  | commit => exact inv_commit hinv hcalm h

end

/-! ## Runs -/

/-- A run up to a step of it, which disturbs nothing either. -/
theorem inv_run {before : List ProjectEvent} {event : ProjectEvent} {after : List ProjectEvent}
    {start : ProjectRegistry} (hinv : Inv lookup start)
    (hcalm : start.UndisturbedAlong lookup (before ++ event :: after))
    (hrun : start.run lookup before = some s) :
    Inv lookup s ∧ s.Undisturbed lookup event := by
  induction before generalizing start with
  | nil =>
    obtain rfl := some.inj hrun
    exact ⟨hinv, hcalm.1⟩
  | cons first before ih =>
    obtain ⟨next, hnext, hrest⟩ := bind_eq_some_iff.mp hrun
    exact ih (inv_step hinv hcalm.1 hnext) (hcalm.2 next hnext) hrest

end ProjectRegistry

/-- What the commit of an allocation's write makes of the records: a refresh changes the kind, the
key and the time of the project as it is, and a project is created for a root that has none. -/
def AllocationWrite.Keeps (lookup : ProjectLookup) (input : AllocationInput)
    (before after : ProjectRecords) : AllocationWrite → Prop
  | .refresh active => ∃ existing, before.get active.projectId = some existing ∧
      after = before.set active.projectId
        { existing with kind := input.kind, projectKey := input.projectKey
                        updatedAt := input.timestamp }
  | .create projectId => activeProjects lookup before input.rootPath = [] ∧
      after = before.set projectId (created projectId input)

namespace ProjectRegistry

/-- The allocations of a run, by the commits of their writes, in the cache and in the file. -/
def AllocationsKeep (lookup : ProjectLookup) (start : ProjectRegistry)
    (events : List ProjectEvent) : Prop :=
  ∀ before after s s', events = before ++ .commit :: after → start.run lookup before = some s →
    s.step lookup .commit = some s' → ∀ queued staged, s.running = some (queued, .written staged) →
      queued.allocates = true → ∃ input write, s.allocating = some (input, .upserting write) ∧
        write.Keeps lookup input s.cache s'.cache ∧ s'.file = .ofMap s'.cache

/-- In every run whose steps disturb no allocation, a refresh keeps what others have written and no
project is created for a root that has one. -/
theorem allocationsKeep (lookup : ProjectLookup) (disk : FileContent PersistedProjectRecord)
    (events : List ProjectEvent) (hcalm : (onDisk disk).UndisturbedAlong lookup events) :
    (onDisk disk).AllocationsKeep lookup events := by
  rintro before after s s' rfl hrun hstep queued staged hrunning hallocates
  obtain ⟨hinv, -⟩ := inv_run (inv_onDisk disk) hcalm hrun
  obtain ⟨input, write, halloc, rfl, -⟩ := hinv.allocating_eq hrunning hallocates
  have hstaged := hinv.staged _ _ (.inr hrunning)
  have hexpects := hinv.expects _ _ halloc
  have hrecords : s.cache.set (write.record input).projectId (write.record input) = staged :=
    Staged.changed.inj hstaged
  have hcommit : s'.cache = staged ∧ s'.file = s.file := by
    simp only [step, commit, hrunning] at hstep
    rw [← Option.some.inj hstep]
    exact ⟨rfl, rfl⟩
  refine ⟨input, write, halloc, ?_, ?_⟩
  · rw [hcommit.1, ← hrecords]
    cases write with
    | refresh active => exact ⟨active, hexpects, rfl⟩
    | create projectId => exact ⟨hexpects, rfl⟩
  · rw [hcommit.1, hcommit.2, hinv.file_written _ _ hrunning]

/-! ## Another caller between the lookup and the write -/

def samePaths : ProjectLookup where
  areEquivalentPaths left right := left == right
  isOlder left right := left.projectId ≤ right.projectId

def checkout (archivedAt : Option String) : PersistedProjectRecord where
  projectId := "p"
  rootPath := "/src"
  kind := .nonGit
  displayName := "src"
  projectKey := none
  customName := none
  customIconRevision := none
  createdAt := "t1"
  updatedAt := "t1"
  archivedAt := archivedAt

def gitCheckout : AllocationInput where
  rootPath := "/src"
  kind := .git
  displayName := "src"
  projectKey := none
  timestamp := "t2"

def opened : List ProjectEvent := [.allocate gitCheckout, .beginAllocation, .capture 0, .finish 0]

def settledWrite : List ProjectEvent := [.begin, .stage, .write true, .commit]

/-- The project is renamed after the lookup, or before it. -/
def rename : ProjectMutation := .update "p" fun project => some { project with customName := some "mine" }

def renamedBetween : List ProjectEvent :=
  opened ++ [.mutate rename, .lookup "q"] ++ settledWrite ++ settledWrite

def renamedBefore : List ProjectEvent :=
  opened ++ [.mutate rename] ++ settledWrite ++ [.lookup "q"] ++ settledWrite

/-- The project is taken out of the archive after the lookup. -/
def unarchivedBetween : List ProjectEvent :=
  opened ++ [.lookup "q", .mutate (.update "p" fun project => some { project with archivedAt := none }),
    .check "r"] ++ settledWrite ++ settledWrite

def names (lookup : ProjectLookup) (start : ProjectRegistry) (events : List ProjectEvent) :
    Option (List (String × Option String)) :=
  (start.run lookup events).map fun s =>
    (activeProjects lookup s.cache "/src").map fun project => (project.projectId, project.customName)

/-- The refresh takes back the new name, which was committed before, and the root gets a second
project. -/
theorem allocation_disturbed :
    names samePaths (onDisk (.array [some (checkout none)])) (renamedBetween.take 10) =
        some [("p", some "mine")] ∧
      names samePaths (onDisk (.array [some (checkout none)])) renamedBetween = some [("p", none)] ∧
    names samePaths (onDisk (.array [some (checkout (some "t1"))])) (unarchivedBetween.take 11) =
        some [("p", none)] ∧
      names samePaths (onDisk (.array [some (checkout (some "t1"))])) unarchivedBetween =
        some [("p", none), ("q", none)] := by
  decide +kernel

theorem allocationsKeep_renamedBefore :
    (onDisk (.array [some (checkout none)])).AllocationsKeep samePaths renamedBefore :=
  allocationsKeep samePaths (.array [some (checkout none)]) renamedBefore (by decide +kernel)

end ProjectRegistry

end Orqara.Registry
