import Orqara.Registry.FileBackedRegistry

/-!
# Mutations are applied one after the other

As long as every load that resumes after another one has filled the cache read what the cache
holds by then, the records in memory and in the file are those on disk with the mutations that
did not reject applied in the order in which they were called.
-/

namespace Orqara.Registry

open OrderedMap Option

variable {κ α : Type*} [DecidableEq κ] {schema : RecordSchema κ α} {disk : FileContent α}
  {records : OrderedMap κ α} {mutation : Mutation κ α} {cache staged : OrderedMap κ α}

/-! ## Setting records -/

theorem get_setAll (cache : OrderedMap κ α) (records : List α) (k : κ) :
    (setAll schema cache records).get k =
      ((ofRecords schema records).get k).or (cache.get k) := by
  unfold ofRecords setAll
  induction records generalizing cache with
  | nil => rfl
  | cons record records ih =>
    rw [List.foldl_cons, List.foldl_cons, ih, ih (set ∅ _ _), Option.or_assoc]
    congr 1
    rw [get_set, get_set]
    by_cases hk : k = schema.getId record
    · rw [if_pos hk, if_pos hk]
      rfl
    · rw [if_neg hk, if_neg hk]
      rfl

theorem keys_setAll {records : List α} (h : ∀ record ∈ records, schema.getId record ∈ cache.keys) :
    (setAll schema cache records).keys = cache.keys := by
  unfold setAll
  induction records generalizing cache with
  | nil => rfl
  | cons record records ih =>
    have hhead : (cache.set (schema.getId record) record).keys = cache.keys :=
      keys_set_of_mem (h record List.mem_cons_self)
    rw [List.foldl_cons, ih, hhead]
    intro other hother
    rw [hhead]
    exact h other (List.mem_cons_of_mem _ hother)

theorem mem_keys_ofRecords {records : List α} {record : α} (h : record ∈ records) :
    schema.getId record ∈ (ofRecords schema records).keys := by
  rw [mem_keys_iff]
  unfold ofRecords
  induction records with
  | nil => cases h
  | cons head records ih =>
    show ((setAll schema (set ∅ _ head) records).get _).isSome
    rw [get_setAll, isSome_or]
    by_cases hmem : record ∈ records
    · have hsome : ((ofRecords schema records).get (schema.getId record)).isSome := ih hmem
      rw [hsome]
      rfl
    · have hhead : record = head := (List.mem_cons.mp h).resolve_right hmem
      rw [hhead, get_set_self]
      simp

/-- Records that a map holds already. -/
def Agrees (schema : RecordSchema κ α) (cache : OrderedMap κ α) (records : List α) : Prop :=
  ∀ entry ∈ (ofRecords schema records).entries, cache.get entry.1 = some entry.2

instance [DecidableEq α] (cache : OrderedMap κ α) (records : List α) :
    Decidable (Agrees schema cache records) :=
  inferInstanceAs (Decidable (∀ _ ∈ _, _))

theorem setAll_of_agrees {records : List α} (h : Agrees schema cache records) :
    setAll schema cache records = cache := by
  apply ext_get
  · apply keys_setAll
    intro record hrecord
    have hkey : schema.getId record ∈ (ofRecords schema records).keys := mem_keys_ofRecords hrecord
    obtain ⟨value, hvalue⟩ := get_of_mem_keys hkey
    exact mem_keys_of_get (h _ (get_eq_some_iff.mp hvalue))
  · intro k
    rw [get_setAll]
    cases hk : (ofRecords schema records).get k with
    | none => rfl
    | some value => exact (h _ (get_eq_some_iff.mp hk)).symm

/-! ## What mutations make of the records -/

theorem Mutation.apply_of_unchanged (h : mutation.stage schema records = .unchanged) :
    mutation.apply schema records = records := by
  simp only [Mutation.apply, h]

theorem Mutation.apply_of_changed (h : mutation.stage schema records = .changed staged) :
    mutation.apply schema records = staged := by
  simp only [Mutation.apply, h]

theorem mem_keys_set {k k' : κ} {v : α} (h : k' ∈ records.keys) :
    k' ∈ (records.set k v).keys := by
  by_cases hmem : k ∈ records.keys
  · rwa [keys_set_of_mem hmem]
  · rw [keys_set_of_not_mem hmem]
    exact List.mem_append_left _ h

/-- The records after mutations. -/
def applyAll (schema : RecordSchema κ α) (records : OrderedMap κ α)
    (mutations : List (Mutation κ α)) : OrderedMap κ α :=
  mutations.foldl (fun records mutation => mutation.apply schema records) records

theorem stageUpdate_keeps {id k : κ} {updater : α → Option α} (hk : k ∈ records.keys)
    (h : stageUpdate records id updater = .changed staged) :
    k ∈ staged.keys := by
  unfold stageUpdate at h
  split at h
  · cases h
  · split at h
    · cases h
    · injection h with h
      rw [← h]
      exact mem_keys_set hk

/-- Only a removal of its id takes a record away. -/
theorem Mutation.apply_keeps {k : κ} (hk : k ∈ records.keys) (hremove : mutation ≠ .remove k) :
    k ∈ (mutation.apply schema records).keys := by
  unfold Mutation.apply
  cases hstage : mutation.stage schema records with
  | throws => exact hk
  | unchanged => exact hk
  | changed staged =>
    cases mutation with
    | upsert record =>
      injection hstage with h
      rw [← h]
      exact mem_keys_set hk
    | update id updater => exact stageUpdate_keeps hk hstage
    | archive id archivedAt => exact stageUpdate_keeps hk hstage
    | remove id =>
      have hne : k ≠ id := fun heq => hremove (heq ▸ rfl)
      simp only [Mutation.stage] at hstage
      split at hstage
      · cases hstage
      · injection hstage with h
        rw [← h, mem_keys_iff, get_delete_ne hne,
          ← mem_keys_iff]
        exact hk

theorem applyAll_keeps {mutations : List (Mutation κ α)} {k : κ} (hk : k ∈ records.keys)
    (hremove : Mutation.remove k ∉ mutations) :
    k ∈ (applyAll schema records mutations).keys := by
  unfold applyAll
  induction mutations generalizing records with
  | nil => exact hk
  | cons mutation mutations ih =>
    have hne : mutation ≠ .remove k := fun heq => hremove (heq ▸ List.mem_cons_self)
    exact ih (Mutation.apply_keeps hk hne) fun h => hremove (List.mem_cons_of_mem _ h)

/-! ## What holds at every step -/

namespace FileBackedRegistry

variable {s s' : FileBackedRegistry κ α} {seen events : List (Event κ α)}

/-- The records on disk with the mutations that did not reject applied in order. -/
def expected (schema : RecordSchema κ α) (disk : FileContent α) (s : FileBackedRegistry κ α) :
    OrderedMap κ α :=
  applyAll schema (ofRecords schema disk.records) s.resolved

/-- The file when no write is on its way: it is written with the first commit. -/
def expectedFile (schema : RecordSchema κ α) (disk : FileContent α)
    (s : FileBackedRegistry κ α) : FileContent α :=
  if .committed ∈ s.answered.map Prod.snd then .ofMap (s.expected schema disk) else disk

/-- A load that resumes when the cache has been filled read what the cache holds. -/
def LateLoadAgrees (schema : RecordSchema κ α) (s : FileBackedRegistry κ α) :
    Event κ α → Prop
  | .finish i => s.loaded = true → ∀ load ∈ s.loads[i]?, ∀ content ∈ load.content,
      Agrees schema s.cache content.parsed
  | _ => True

/-- Every load of a run agrees with the cache that it finds filled. -/
def LateLoadsAgree (schema : RecordSchema κ α) (s : FileBackedRegistry κ α) :
    List (Event κ α) → Prop
  | [] => True
  | event :: events => s.LateLoadAgrees schema event ∧
      ∀ s' ∈ s.step schema event, s'.LateLoadsAgree schema events

instance [DecidableEq α] (s : FileBackedRegistry κ α) :
    (event : Event κ α) → Decidable (s.LateLoadAgrees schema event)
  | .finish _ => inferInstanceAs (Decidable (_ → ∀ _ ∈ _, ∀ _ ∈ _, _))
  | .read => .isTrue trivial
  | .mutate _ => .isTrue trivial
  | .begin => .isTrue trivial
  | .capture _ => .isTrue trivial
  | .stage => .isTrue trivial
  | .write _ => .isTrue trivial
  | .commit => .isTrue trivial
  | .freeze => .isTrue trivial

/-- Whether every load of a run agrees can be computed. -/
def decideLateLoadsAgree [DecidableEq α] (s : FileBackedRegistry κ α) :
    (events : List (Event κ α)) → Decidable (s.LateLoadsAgree schema events)
  | [] => .isTrue trivial
  | event :: events =>
    have := fun s' : FileBackedRegistry κ α => decideLateLoadsAgree s' events
    inferInstanceAs (Decidable (_ ∧ ∀ s' ∈ s.step schema event, _))

instance [DecidableEq α] (s : FileBackedRegistry κ α) (events : List (Event κ α)) :
    Decidable (s.LateLoadsAgree schema events) := decideLateLoadsAgree s events

end FileBackedRegistry

def Event.mutation? : Event κ α → Option (Mutation κ α)
  | .mutate mutation => some mutation
  | _ => none

/-- The calls that load the file. -/
def Event.opens : Event κ α → Bool
  | .read => true
  | .mutate _ => true
  | _ => false

/-- The mutations that were called. -/
def calls (events : List (Event κ α)) : List (Mutation κ α) := events.filterMap Event.mutation?

namespace FileBackedRegistry

variable {s s' : FileBackedRegistry κ α} {seen events : List (Event κ α)} {mutation : Mutation κ α}

/-- What holds after the events seen. -/
structure Inv (schema : RecordSchema κ α) (disk : FileContent α) (seen : List (Event κ α))
    (s : FileBackedRegistry κ α) : Prop where
  cache_eq : s.loaded = true → s.cache = s.expected schema disk
  cache_empty : s.loaded = false → s.cache = ∅
  file_unloaded : s.loaded = false → s.file = disk
  loads_unloaded : s.loaded = false →
    ∀ load ∈ s.loads, ∀ content ∈ load.content, content = disk
  answered_unloaded : s.loaded = false → s.answered = []
  uncommitted : Answer.committed ∉ s.answered.map Prod.snd →
    s.expected schema disk = ofRecords schema disk.records
  running_unloaded : s.loaded = false → ∀ run ∈ s.running, run.2 = .loading
  idle : s.loaded = false → s.Settled → ∀ event ∈ seen, event.opens = false
  file_eq : (∀ mutation staged, s.running ≠ some (mutation, .written staged)) →
    s.file = s.expectedFile schema disk
  file_written : ∀ mutation staged, s.running = some (mutation, .written staged) →
    s.file = .ofMap staged
  staged : ∀ mutation staged,
    s.running = some (mutation, .writing staged) ∨ s.running = some (mutation, .written staged) →
    mutation.stage schema (s.expected schema disk) = .changed staged
  order : s.answered.map Prod.fst ++ (s.running.map Prod.fst).toList ++ s.mutationQueue =
    calls seen

theorem inv_onDisk : Inv schema disk [] (onDisk disk) where
  cache_eq := fun h => nomatch h
  cache_empty := fun _ => rfl
  file_unloaded := fun _ => rfl
  loads_unloaded := fun _ load hload => nomatch hload
  answered_unloaded := fun _ => rfl
  uncommitted := fun _ => rfl
  running_unloaded := fun _ run hrun => nomatch hrun
  idle := fun _ _ event hevent => nomatch hevent
  file_eq := fun _ => rfl
  file_written := fun mutation staged h => nomatch h
  staged := fun mutation staged h => by simp [onDisk] at h
  order := rfl

/-! ## Settling -/

theorem resolved_settle_rejected (mutation : Mutation κ α) :
    (s.settle mutation .rejected).resolved = s.resolved := by
  simp [resolved, settle]

theorem resolved_settle {answer : Answer} (mutation : Mutation κ α) (h : answer ≠ .rejected) :
    (s.settle mutation answer).resolved = s.resolved ++ [mutation] := by
  simp [resolved, settle, h]

theorem expected_settle_rejected (mutation : Mutation κ α) :
    (s.settle mutation .rejected).expected schema disk = s.expected schema disk := by
  rw [expected, resolved_settle_rejected]
  rfl

theorem expected_settle {answer : Answer} (mutation : Mutation κ α) (h : answer ≠ .rejected) :
    (s.settle mutation answer).expected schema disk =
      mutation.apply schema (s.expected schema disk) := by
  rw [expected, resolved_settle mutation h, applyAll, List.foldl_append]
  rfl

section

variable (hinv : Inv schema disk seen s) {i : ℕ}
include hinv

/-- A mutation that settles without a write. -/
theorem inv_settle {phase : Phase κ α} {answer : Answer} (hrun : s.running = some (mutation, phase))
    (hloaded : s.loaded = true) (hphase : ∀ staged, phase ≠ .written staged)
    (hanswer : answer ≠ .committed)
    (hexpected : (s.settle mutation answer).expected schema disk = s.expected schema disk) :
    Inv schema disk seen (s.settle mutation answer) :=
  { hinv with
    cache_eq := fun h => (hinv.cache_eq h).trans hexpected.symm
    answered_unloaded := fun h => absurd (hloaded.symm.trans h) (by decide)
    uncommitted := fun h => by
      rw [hexpected]
      exact hinv.uncommitted fun hmem => h (by simpa [settle, hanswer.symm] using hmem)
    running_unloaded := fun _ run hrun' => nomatch hrun'
    idle := fun h _ => absurd (hloaded.symm.trans h) (by decide)
    file_eq := fun _ => by
      have hno : ∀ m staged, s.running ≠ some (m, .written staged) := by
        intro m staged h
        rw [hrun] at h
        injection h with h
        injection h with _ h
        exact hphase staged h
      show s.file = _
      rw [hinv.file_eq hno, expectedFile, expectedFile, hexpected]
      have hmem : Answer.committed ∈ (s.settle mutation answer).answered.map Prod.snd ↔
          Answer.committed ∈ s.answered.map Prod.snd := by
        simp [settle, hanswer.symm]
      by_cases h : Answer.committed ∈ s.answered.map Prod.snd
      · rw [if_pos h, if_pos (hmem.mpr h)]
      · rw [if_neg h, if_neg (hmem.not.mpr h)]
    file_written := fun m staged h => nomatch h
    staged := fun m staged h => by simp [settle] at h
    order := by
      rw [← hinv.order, hrun]
      simp [settle] }

/-! ## Loading -/

/-- A load that starts, and the mutation that awaits it, if one does. -/
theorem inv_startLoad (forMutation : Bool) :
    Inv schema disk seen (s.startLoad forMutation) := by
  by_cases hloaded : s.loaded = true
  · rw [startLoad, if_pos hloaded]
    exact hinv
  · rw [startLoad, if_neg hloaded]
    have hempty : s.cache = ∅ := hinv.cache_empty (by simpa using hloaded)
    exact
      { hinv with
        cache_eq := fun h => absurd h hloaded
        cache_empty := fun _ => rfl
        loads_unloaded := fun h load hload content hcontent => by
          rcases List.mem_append.mp hload with hold | hnew
          · exact hinv.loads_unloaded h load hold content hcontent
          · rw [List.mem_singleton.mp hnew] at hcontent
            cases hcontent
        idle := fun _ hsettled => by simp [Settled] at hsettled }

omit hinv in
theorem loads_startLoad (forMutation : Bool) (h : (s.startLoad forMutation).loaded = false) :
    (s.startLoad forMutation).loads ≠ [] := by
  unfold startLoad at h ⊢
  by_cases hloaded : s.loaded = true
  · rw [if_pos hloaded] at h
    exact absurd (hloaded.symm.trans h) (by decide)
  · rw [if_neg hloaded]
    simp

/-- An event that is no call of a mutation. -/
theorem Inv.snoc {event : Event κ α} (hmutation : event.mutation? = none)
    (hopens : s.loaded = false → s.Settled → event.opens = false) :
    Inv schema disk (seen ++ [event]) s :=
  { hinv with
    idle := fun hloaded hsettled other hother => by
      rcases List.mem_append.mp hother with hseen | hlast
      · exact hinv.idle hloaded hsettled other hseen
      · rw [List.mem_singleton.mp hlast]
        exact hopens hloaded hsettled
    order := by
      rw [hinv.order]
      simp [calls, hmutation] }

omit hinv in
theorem inv_mutate (mutation : Mutation κ α) (hinv : Inv schema disk seen s) :
    Inv schema disk (seen ++ [.mutate mutation])
      { s with mutationQueue := s.mutationQueue ++ [mutation] } :=
  { hinv with
    idle := fun _ hsettled => by
      have hqueue : s.mutationQueue ++ [mutation] = [] := hsettled.2.1
      simp at hqueue
    order := by
      show _ ++ (s.mutationQueue ++ [mutation]) = _
      rw [← List.append_assoc, hinv.order]
      simp [calls, Event.mutation?] }

omit hinv in
omit [DecidableEq κ] in
theorem begin_cases (h : s.begin = some s') :
    ∃ mutation queue, s.running = none ∧ s.mutationQueue = mutation :: queue ∧
      s' = { s.startLoad true with
        mutationQueue := queue
        running := some (mutation, if s.loaded then .loaded else .loading) } := by
  unfold begin at h
  split at h
  · next mutation queue hrun hqueue => exact ⟨mutation, queue, hrun, hqueue, (some.inj h).symm⟩
  · cases h

theorem inv_begin (h : s.begin = some s') :
    Inv schema disk (seen ++ [.begin]) s' := by
  obtain ⟨mutation, queue, hrun, hqueue, rfl⟩ := begin_cases h
  have hload := inv_startLoad hinv true
  have hkept : (s.startLoad true).running = s.running := by
    unfold startLoad
    split <;> rfl
  have hno : ∀ m staged, (s.startLoad true).running ≠ some (m, .written staged) := by
    intro m staged
    rw [hkept, hrun]
    simp
  have hflag : (s.startLoad true).loaded = s.loaded := by
    unfold startLoad
    split <;> rfl
  have hanswered : (s.startLoad true).answered = s.answered := by
    unfold startLoad
    split <;> rfl
  exact
    { hload with
      running_unloaded := fun hloaded run hrun' => by
        rw [← some.inj hrun']
        have hfalse : s.loaded = false := hflag.symm.trans hloaded
        simp [hfalse]
      idle := fun _ hsettled => nomatch hsettled.1
      file_eq := fun _ => hload.file_eq hno
      file_written := fun m staged hwritten => by
        injection hwritten with hwritten
        injection hwritten with _ hphase
        split at hphase <;> cases hphase
      staged := fun m staged hor => by
        rcases hor with hphase | hphase
        all_goals
          injection hphase with hphase
          injection hphase with _ hphase
          split at hphase <;> cases hphase
      order := by
        rw [calls, List.filterMap_append, ← calls, ← hinv.order, hrun, hqueue]
        simp [hanswered, Event.mutation?] }

omit hinv in
omit [DecidableEq κ] in
theorem capture_cases (h : s.capture i = some s') :
    ∃ load, s.loads[i]? = some load ∧
      s' = { s with loads := s.loads.set i { load with content := some s.file } } := by
  unfold capture at h
  obtain ⟨load, hload, h⟩ := bind_eq_some_iff.mp h
  split at h
  · exact ⟨load, hload, (some.inj h).symm⟩
  · cases h

theorem inv_capture (h : s.capture i = some s') :
    Inv schema disk (seen ++ [.capture i]) s' := by
  obtain ⟨load, hload, rfl⟩ := capture_cases h
  apply Inv.snoc _ rfl (fun _ _ => rfl)
  exact
    { hinv with
      loads_unloaded := fun hloaded other hother content hcontent => by
        rcases List.mem_or_eq_of_mem_set hother with hold | hnew
        · exact hinv.loads_unloaded hloaded other hold content hcontent
        · rw [hnew] at hcontent
          rw [← some.inj hcontent]
          exact hinv.file_unloaded hloaded
      idle := fun hloaded hsettled => by
        have hnil : s.loads = [] := by simpa [Settled] using hsettled.2.2
        rw [hnil] at hload
        cases hload }

omit hinv in
theorem finish_cases (h : s.finish schema i = some s') :
    ∃ load content, s.loads[i]? = some load ∧ load.content = some content ∧
      s' = { s.finishLoad schema content with
        loads := s.loads.eraseIdx i
        running :=
          if load.forMutation then s.running.map fun run => (run.1, run.2.resumed)
          else s.running } := by
  unfold finish at h
  obtain ⟨load, hload, h⟩ := bind_eq_some_iff.mp h
  obtain ⟨content, hcontent, h⟩ := map_eq_some_iff.mp h
  exact ⟨load, content, hload, hcontent, h.symm⟩

omit hinv in
/-- The mutation that runs after a load has resumed is the same, past its load at most. -/
theorem running_finish {load : Load α} {run : Mutation κ α × Phase κ α}
    (h : run ∈ if load.forMutation then s.running.map fun run => (run.1, run.2.resumed)
      else s.running) :
    ∃ phase, s.running = some (run.1, phase) ∧ (run.2 = phase ∨ run.2 = .loaded ∧ phase = .loading) := by
  split at h
  · obtain ⟨before, hbefore, rfl⟩ := map_eq_some_iff.mp h
    refine ⟨before.2, hbefore, ?_⟩
    cases hphase : before.2 with
    | loading => exact .inr ⟨rfl, rfl⟩
    | loaded => exact .inl rfl
    | writing staged => exact .inl rfl
    | written staged => exact .inl rfl
  · exact ⟨run.2, h, .inl rfl⟩

omit hinv in
theorem inv_finish (hdisk : disk.parsed = disk.records) (hinv : Inv schema disk seen s)
    (hlate : s.LateLoadAgrees schema (.finish i)) (h : s.finish schema i = some s') :
    Inv schema disk (seen ++ [.finish i]) s' := by
  obtain ⟨load, content, hload, hcontent, rfl⟩ := finish_cases h
  apply Inv.snoc _ rfl (fun _ _ => rfl)
  have hcache : setAll schema s.cache content.parsed = s.expected schema disk := by
    by_cases hloaded : s.loaded = true
    · rw [setAll_of_agrees (hlate hloaded load hload content hcontent), hinv.cache_eq hloaded]
    · have hfalse : s.loaded = false := by simpa using hloaded
      rw [hinv.cache_empty hfalse,
        hinv.loads_unloaded hfalse load (List.mem_of_getElem? hload) content hcontent, hdisk,
        expected, resolved, hinv.answered_unloaded hfalse]
      rfl
  exact
    { cache_eq := fun _ => hcache
      cache_empty := fun hloaded => nomatch hloaded
      file_unloaded := fun hloaded => nomatch hloaded
      loads_unloaded := fun hloaded => nomatch hloaded
      answered_unloaded := fun hloaded => nomatch hloaded
      uncommitted := hinv.uncommitted
      running_unloaded := fun hloaded => nomatch hloaded
      idle := fun hloaded => nomatch hloaded
      file_eq := fun hno => by
        apply hinv.file_eq
        intro m staged hrun
        apply hno m staged
        show ite _ _ _ = _
        rw [hrun]
        simp [Phase.resumed]
      file_written := fun m staged hrun => by
        obtain ⟨phase, hbefore, rfl | ⟨hphase, -⟩⟩ := running_finish hrun
        · exact hinv.file_written m staged hbefore
        · cases hphase
      staged := fun m staged hor => by
        rcases hor with hrun | hrun
        · obtain ⟨phase, hbefore, rfl | ⟨hphase, -⟩⟩ := running_finish hrun
          · exact hinv.staged m staged (.inl hbefore)
          · cases hphase
        · obtain ⟨phase, hbefore, rfl | ⟨hphase, -⟩⟩ := running_finish hrun
          · exact hinv.staged m staged (.inr hbefore)
          · cases hphase
      order := by
        have hkept : (if load.forMutation then s.running.map fun run => (run.1, run.2.resumed)
            else s.running).map Prod.fst = s.running.map Prod.fst := by
          split
          · rw [Option.map_map]
            rfl
          · rfl
        rw [← hinv.order, ← hkept]
        rfl }

omit hinv in
/-- What staging does to the mutation that runs. -/
theorem stage_cases (h : s.stage schema = some s') :
    ∃ mutation, s.running = some (mutation, .loaded) ∧
      (s' = s.settle mutation .rejected ∨
        (mutation.stage schema s.cache = .unchanged ∧ s' = s.settle mutation .unchanged) ∨
        ∃ staged, mutation.stage schema s.cache = .changed staged ∧
          s' = { s with running := some (mutation, .writing staged) }) := by
  unfold stage at h
  split at h
  · next mutation hrun =>
    refine ⟨mutation, hrun, ?_⟩
    split at h
    · exact .inl (some.inj h).symm
    · split at h
      · exact .inl (some.inj h).symm
      · next hstage => exact .inr (.inl ⟨hstage, (some.inj h).symm⟩)
      · next staged hstage => exact .inr (.inr ⟨staged, hstage, (some.inj h).symm⟩)
  · cases h

theorem Inv.loaded_of_running {phase : Phase κ α} (hrun : s.running = some (mutation, phase))
    (hphase : phase ≠ .loading) : s.loaded = true := by
  by_contra hloaded
  exact hphase (hinv.running_unloaded (by simpa using hloaded) (mutation, phase) hrun)

theorem inv_stage (h : s.stage schema = some s') :
    Inv schema disk (seen ++ [.stage]) s' := by
  obtain ⟨mutation, hrun, hcases⟩ := stage_cases h
  have hloaded : s.loaded = true := hinv.loaded_of_running hrun nofun
  have hcache : s.cache = s.expected schema disk := hinv.cache_eq hloaded
  apply Inv.snoc _ rfl (fun _ _ => rfl)
  rcases hcases with rfl | ⟨hstage, rfl⟩ | ⟨staged, hstage, rfl⟩
  · exact inv_settle hinv hrun hloaded nofun (by decide) (expected_settle_rejected mutation)
  · apply inv_settle hinv hrun hloaded nofun (by decide)
    rw [expected_settle mutation (by decide), ← hcache, Mutation.apply_of_unchanged hstage]
  · exact
      { hinv with
        running_unloaded := fun hfalse => absurd (hloaded.symm.trans hfalse) (by decide)
        idle := fun _ hsettled => nomatch hsettled.1
        file_eq := fun _ => hinv.file_eq fun m staged' hwritten => by
          rw [hrun] at hwritten
          cases hwritten
        file_written := fun m staged' hwritten => nomatch hwritten
        staged := fun m staged' hor => by
          rcases hor with hwriting | hwritten
          · obtain ⟨rfl, rfl⟩ : mutation = m ∧ staged = staged' := by simpa using hwriting
            show mutation.stage schema (s.expected schema disk) = _
            rw [← hcache]
            exact hstage
          · cases hwritten
        order := by
          rw [← hinv.order, hrun]
          rfl }

omit hinv in
theorem write_cases {succeeds : Bool} (h : s.write succeeds = some s') :
    ∃ mutation staged, s.running = some (mutation, .writing staged) ∧
      ((succeeds = true ∧
          s' = { s with file := .ofMap staged, running := some (mutation, .written staged) }) ∨
        succeeds = false ∧ s' = s.settle mutation .rejected) := by
  unfold write at h
  split at h
  · next mutation staged hrun =>
    refine ⟨mutation, staged, hrun, ?_⟩
    cases succeeds with
    | true => exact .inl ⟨rfl, (some.inj h).symm⟩
    | false => exact .inr ⟨rfl, (some.inj h).symm⟩
  · cases h

theorem inv_write {succeeds : Bool} (h : s.write succeeds = some s') :
    Inv schema disk (seen ++ [.write succeeds]) s' := by
  obtain ⟨mutation, staged, hrun, hcases⟩ := write_cases h
  have hloaded : s.loaded = true := hinv.loaded_of_running hrun nofun
  apply Inv.snoc _ rfl (fun _ _ => rfl)
  rcases hcases with ⟨-, rfl⟩ | ⟨-, rfl⟩
  · exact
      { hinv with
        file_unloaded := fun hfalse => absurd (hloaded.symm.trans hfalse) (by decide)
        running_unloaded := fun hfalse => absurd (hloaded.symm.trans hfalse) (by decide)
        idle := fun _ hsettled => nomatch hsettled.1
        file_eq := fun hno => absurd rfl (hno mutation staged)
        file_written := fun m staged' hwritten => by
          obtain ⟨-, rfl⟩ : mutation = m ∧ staged = staged' := by simpa using hwritten
          rfl
        staged := fun m staged' hor => by
          rcases hor with hwriting | hwritten
          · cases hwriting
          · obtain ⟨rfl, rfl⟩ : mutation = m ∧ staged = staged' := by simpa using hwritten
            exact hinv.staged mutation staged (.inl hrun)
        order := by
          rw [← hinv.order, hrun]
          rfl }
  · exact inv_settle hinv hrun hloaded nofun (by decide) (expected_settle_rejected mutation)

omit hinv in
theorem commit_cases (h : s.commit = some s') :
    ∃ mutation staged, s.running = some (mutation, .written staged) ∧
      s' = { s.settle mutation .committed with cache := staged } := by
  unfold commit at h
  split at h
  · next mutation staged hrun => exact ⟨mutation, staged, hrun, (some.inj h).symm⟩
  · cases h

theorem inv_commit (h : s.commit = some s') :
    Inv schema disk (seen ++ [.commit]) s' := by
  obtain ⟨mutation, staged, hrun, rfl⟩ := commit_cases h
  have hloaded : s.loaded = true := hinv.loaded_of_running hrun nofun
  have hexpected : (s.settle mutation .committed).expected schema disk = staged := by
    rw [expected_settle mutation (by decide),
      Mutation.apply_of_changed (hinv.staged mutation staged (.inr hrun))]
  have hmem : Answer.committed ∈ (s.settle mutation .committed).answered.map Prod.snd := by
    simp [settle]
  apply Inv.snoc _ rfl (fun _ _ => rfl)
  exact
    { cache_eq := fun _ => hexpected.symm
      cache_empty := fun hfalse => absurd (hloaded.symm.trans hfalse) (by decide)
      file_unloaded := hinv.file_unloaded
      loads_unloaded := hinv.loads_unloaded
      answered_unloaded := fun hfalse => absurd (hloaded.symm.trans hfalse) (by decide)
      uncommitted := fun h => absurd hmem h
      running_unloaded := fun _ run hrun' => nomatch hrun'
      idle := fun hfalse => absurd (hloaded.symm.trans hfalse) (by decide)
      file_eq := fun _ => by
        show s.file = ite _ _ _
        rw [if_pos hmem, hinv.file_written mutation staged hrun]
        exact congrArg FileContent.ofMap hexpected.symm
      file_written := fun m staged' hwritten => nomatch hwritten
      staged := fun m staged' hor => by simp [settle] at hor
      order := by
        rw [← hinv.order, hrun]
        simp [settle] }

omit hinv in
theorem inv_step {event : Event κ α} (hdisk : disk.parsed = disk.records)
    (hinv : Inv schema disk seen s) (hlate : s.LateLoadAgrees schema event)
    (h : s.step schema event = some s') : Inv schema disk (seen ++ [event]) s' := by
  cases event with
  | read =>
    rw [← some.inj h]
    apply (inv_startLoad hinv false).snoc rfl
    intro hloaded hsettled
    exact absurd hsettled.2.2 (loads_startLoad false hloaded)
  | mutate mutation =>
    rw [← some.inj h]
    exact inv_mutate mutation hinv
  | begin => exact inv_begin hinv h
  | capture i => exact inv_capture hinv h
  | finish i => exact inv_finish hdisk hinv hlate h
  | stage => exact inv_stage hinv h
  | write succeeds => exact inv_write hinv h
  | commit => exact inv_commit hinv h
  | freeze =>
    rw [← some.inj h]
    apply Inv.snoc _ rfl fun _ _ => rfl
    exact
      { hinv with }

omit hinv in
theorem inv_run (hdisk : disk.parsed = disk.records) (hinv : Inv schema disk seen s)
    (hlate : s.LateLoadsAgree schema events) (h : s.run schema events = some s') :
    Inv schema disk (seen ++ events) s' := by
  induction events generalizing s seen with
  | nil =>
    rw [List.append_nil, ← some.inj h]
    exact hinv
  | cons event events ih =>
    obtain ⟨next, hnext, h⟩ := bind_eq_some_iff.mp h
    have hstep : Inv schema disk (seen ++ [event]) next := inv_step hdisk hinv hlate.1 hnext
    have hrest := ih hstep (hlate.2 next hnext) h
    rwa [List.append_assoc] at hrest

/-! ## Serial and atomic -/

/-- Records under an id are in the file: as they were, or among those it was written with. -/
def FileKeeps (disk : FileContent α) (s : FileBackedRegistry κ α) (k : κ) : Prop :=
  s.file = disk ∨ ∃ records : OrderedMap κ α, s.file = .ofMap records ∧ k ∈ records.keys

theorem Inv.fileKeeps {k : κ} (hk : k ∈ (ofRecords schema disk.records).keys)
    (hresolved : Mutation.remove k ∉ s.resolved) (hrunning : ∀ run ∈ s.running, run.1 ≠ .remove k) :
    s.FileKeeps disk k := by
  have hexpected : k ∈ (s.expected schema disk).keys := applyAll_keeps hk hresolved
  by_cases hwritten : ∃ mutation staged, s.running = some (mutation, .written staged)
  · obtain ⟨mutation, staged, hrun⟩ := hwritten
    refine .inr ⟨staged, hinv.file_written mutation staged hrun, ?_⟩
    rw [← Mutation.apply_of_changed (hinv.staged mutation staged (.inr hrun))]
    exact Mutation.apply_keeps hexpected (hrunning _ hrun)
  · have hfile := hinv.file_eq fun mutation staged hrun => hwritten ⟨mutation, staged, hrun⟩
    rw [expectedFile] at hfile
    split at hfile
    · exact .inr ⟨_, hfile, hexpected⟩
    · exact .inl hfile

end

/-- A mutation that rejects has changed neither the records nor the file. -/
theorem step_rejected {event : Event κ α} (h : s.step schema event = some s')
    (hrejected : s'.answered = s.answered ++ [(mutation, .rejected)]) :
    s'.cache = s.cache ∧ s'.file = s.file := by
  have hlength : s'.answered ≠ s.answered := by
    rw [hrejected]
    simp
  cases event with
  | read =>
    rw [← some.inj h] at hlength
    unfold startLoad at hlength
    split at hlength <;> exact absurd rfl hlength
  | mutate other =>
    rw [← some.inj h] at hlength
    exact absurd rfl hlength
  | begin =>
    obtain ⟨m, queue, -, -, rfl⟩ := begin_cases h
    unfold startLoad at hlength
    split at hlength <;> exact absurd rfl hlength
  | capture i =>
    obtain ⟨load, -, rfl⟩ := capture_cases h
    exact absurd rfl hlength
  | finish i =>
    obtain ⟨load, content, -, -, rfl⟩ := finish_cases h
    exact absurd rfl hlength
  | stage =>
    obtain ⟨m, -, rfl | ⟨-, rfl⟩ | ⟨staged, -, rfl⟩⟩ := stage_cases h
    · exact ⟨rfl, rfl⟩
    · exact ⟨rfl, rfl⟩
    · exact ⟨rfl, rfl⟩
  | write succeeds =>
    obtain ⟨m, staged, -, ⟨-, rfl⟩ | ⟨-, rfl⟩⟩ := write_cases h
    · exact absurd rfl hlength
    · exact ⟨rfl, rfl⟩
  | commit =>
    obtain ⟨m, staged, -, rfl⟩ := commit_cases h
    simp [settle] at hrejected
  | freeze =>
    rw [← some.inj h] at hlength
    exact absurd rfl hlength

end FileBackedRegistry

open FileBackedRegistry

/-- What is promised of a registry after the events of a run. -/
structure SerialAndAtomic (schema : RecordSchema κ α) (disk : FileContent α)
    (events : List (Event κ α)) (s : FileBackedRegistry κ α) : Prop where
  /-- every mutation called has settled, in the order of the calls -/
  in_order : s.Settled → s.answered.map Prod.fst = calls events
  records_eq : s.Settled → (∃ event ∈ events, event.opens = true) →
    s.loaded = true ∧ s.cache = s.expected schema disk
  /-- a file that was not written holds the records expected as it is -/
  file_eq : s.Settled → s.file = .ofMap (s.expected schema disk) ∨
    s.file = disk ∧ s.expected schema disk = ofRecords schema disk.records
  rejected : ∀ event s' mutation, s.step schema event = some s' →
    s'.answered = s.answered ++ [(mutation, .rejected)] → s'.cache = s.cache ∧ s'.file = s.file
  kept : ∀ k ∈ (ofRecords schema disk.records).keys, Mutation.remove k ∉ s.resolved →
    (∀ run ∈ s.running, run.1 ≠ .remove k) → s.FileKeeps disk k

/-- Records of an id and a value. -/
def pairs : RecordSchema ℕ (ℕ × ℕ) where
  getId := Prod.fst
  archived := fun record _ => some record

/-- A record is upserted over a file, which is read for the mutation only. -/
def oneUpsert (record : ℕ × ℕ) : List (Event ℕ (ℕ × ℕ)) :=
  [.mutate (.upsert record), .begin, .capture 0, .finish 0, .stage, .write true, .commit, .read]

/-- A record is upserted while a `list` that has read the file waits to resume. -/
def overlappingList (record : ℕ × ℕ) : List (Event ℕ (ℕ × ℕ)) :=
  [.mutate (.upsert record), .begin, .read, .capture 0, .capture 1, .finish 0, .stage,
    .write true, .commit, .finish 0]

end Orqara.Registry
