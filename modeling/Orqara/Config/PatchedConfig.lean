import Orqara.Config.DaemonConfigStore

/-!
# Patches in step

What the daemon has in memory and what a reload would read from its file are the same after a patch
that names no removed provider, repeats the records it writes into, and brings new fields in the
order of the schema. A patch that throws changes neither.
-/

namespace Orqara.Config

open Json OrderedMap

variable {accepts : PersistedConfig → Bool}

/-! ## When a patch does the same to both -/

/-- A provider's configuration repeats the records of the one it is written over, and its new fields
come in the order in which the schema writes them. -/
structure ProviderConfig.Repeats (current patch : ProviderConfig) : Prop where
  records : ∀ field old value, current.fields.get field = some old →
    patch.fields.get field = some value → Restates old value = true
  newFields : (patch.fields.keys.filter fun field =>
    decide (field ∉ current.fields.keys)).Sublist OverrideField.shape

/-- No provider is both removed and named by the patch, and each one repeats what is there. -/
structure MutableConfigPatch.InStep (current : MutableDaemonConfig) (patch : MutableConfigPatch) :
    Prop where
  providersKept : ∀ providers, patch.providers = some providers →
    ∀ id ∈ patch.removeProviders, id ∉ providers.keys
  metadataKept : ∀ entries, patch.metadataGeneration = some entries →
    ∀ entry ∈ entries, entry.provider ∉ patch.removeProviders
  repeated : ∀ providers, patch.providers = some providers → ∀ id config,
    providers.get id = some config → ((current.providers.get id).getD .empty).Repeats config

/-- A patch is read from JSON text, whose objects have each key once. -/
def MutableConfigPatch.WellFormed (patch : MutableConfigPatch) : Prop :=
  ∀ providers, patch.providers = some providers → ∀ id config, providers.get id = some config →
    ∀ field value, config.fields.get field = some value → value.Distinct = true

/-! ## One provider -/

theorem deepMerge_empty (config : ProviderConfig) : ProviderConfig.empty.deepMerge config = config := by
  have htools : PaseoToolsPolicy.merge none config.paseoTools = config.paseoTools := by
    cases config.paseoTools with
    | none => rfl
    | some tools => simp [PaseoToolsPolicy.merge, PaseoToolsPolicy.spread]
  have hfields : (∅ : OrderedMap OverrideField Json).mergeWith mergeValue config.fields =
      config.fields := by
    apply ext_get
    · rw [keys_mergeWith]
      simp
    · intro field
      rw [get_mergeWith]
      cases config.fields.get field with
      | none => rfl
      | some value => simp [mergeValue]
  simp [ProviderConfig.deepMerge, ProviderConfig.empty, htools, hfields]

theorem mergeProvider_eq (previous : Option ProviderConfig) (config : ProviderConfig) :
    mergeProvider previous config = (previous.getD .empty).deepMerge config := by
  cases previous with
  | none => exact (deepMerge_empty config).symm
  | some current => rfl

/-- The fields that are new to a provider, whichever way they are written. -/
theorem newFields_listed {current patch : OrderedMap OverrideField Json}
    (h : (patch.keys.filter fun field => decide (field ∉ current.keys)).Sublist
      OverrideField.shape) :
    (patch.keys.filter fun field => decide (field ∉ current.keys)) =
      (patch.listed OverrideField.shape OverrideField.shape_nodup).keys.filter fun field =>
        decide (field ∉ current.keys) := by
  conv_lhs => rw [← filter_shape_of_sublist OverrideField.shape_nodup h]
  rw [keys_listed, List.filter_filter]
  apply List.filter_congr
  intro field _
  simp [Bool.and_comm]

/-- The merge in memory and the one in the file make the same of a provider. -/
theorem applyOverride_of_repeats {previous : Option ProviderConfig} {config : ProviderConfig}
    (hrepeats : (previous.getD .empty).Repeats config)
    (hdistinct : ∀ field value, config.fields.get field = some value → value.Distinct = true) :
    mergeProvider previous config = applyOverride previous config := by
  have hfields : (previous.getD .empty).fields.mergeWith mergeValue config.fields =
      (previous.getD .empty).fields.mergeWith (fun _ value => value) config.parse.fields := by
    apply mergeWith_congr (newFields_listed hrepeats.newFields)
    intro field
    simp only [ProviderConfig.parse, get_listed, if_pos field.mem_shape]
    cases hvalue : config.fields.get field with
    | none => rfl
    | some value =>
      have hsame : mergeValue ((previous.getD .empty).fields.get field) value = value :=
        mergeValue_restates _ (hdistinct field value hvalue) fun old hold =>
          hrepeats.records field old value hold hvalue
      simp [hsame]
  rw [mergeProvider_eq]
  simp [ProviderConfig.deepMerge, applyOverride, hfields, ProviderConfig.parse]

/-! ## All providers -/

theorem eq_empty_of_keys {α : Type} {m : OrderedMap String α} (h : m.keys = []) : m = ∅ := by
  apply ext_get h
  intro k
  rw [get_empty, get_eq_none_iff, h]
  exact List.not_mem_nil

theorem omitProvidersFromOverrides_getD (overrides : Option (OrderedMap String ProviderConfig))
    (providers : List String) :
    (omitProvidersFromOverrides overrides providers).getD ∅ =
      (overrides.getD ∅).deleteAll providers := by
  cases overrides with
  | none =>
    have hkeys : ((∅ : OrderedMap String ProviderConfig).deleteAll providers).keys = [] := by
      simp [keys_deleteAll]
    exact (eq_empty_of_keys hkeys).symm
  | some overrides =>
    simp only [omitProvidersFromOverrides, Option.bind_some, Option.getD_some]
    split
    · next h => exact (eq_empty_of_keys h).symm
    · rfl

theorem applyMutable_getD (base providers : Option (OrderedMap String ProviderConfig)) :
    (applyMutableProviderConfigToOverrides base providers).getD ∅ =
      (base.getD ∅).mergeWith applyOverride (providers.getD ∅) := by
  unfold applyMutableProviderConfigToOverrides
  split
  · next h =>
    have hkeys : ((∅ : OrderedMap String ProviderConfig).mergeWith applyOverride
        (providers.getD ∅)).keys = [] := by
      rw [keys_mergeWith, h.2]
      rfl
    rw [h.1]
    exact (eq_empty_of_keys hkeys).symm
  · rfl

theorem mergeWith_empty {f : Option ProviderConfig → ProviderConfig → ProviderConfig}
    (m : OrderedMap String ProviderConfig) : m.mergeWith f ∅ = m := rfl

variable {current : MutableDaemonConfig} {persisted : PersistedConfig} {patch : MutableConfigPatch}

theorem nextConfig_providers (hstep : patch.InStep current) (hwell : patch.WellFormed) :
    (nextConfig current patch).providers =
      (current.providers.deleteAll patch.removeProviders).mergeWith applyOverride
        (patch.providers.getD ∅) := by
  cases hproviders : patch.providers with
  | none =>
    simp [nextConfig, omitMetadataGenerationProvidersFromConfig, omitProvidersFromConfig, deepMerge,
      hproviders, mergeWith_empty]
  | some providers =>
    have hkept := hstep.providersKept providers hproviders
    simp only [nextConfig, omitMetadataGenerationProvidersFromConfig, omitProvidersFromConfig,
      deepMerge, hproviders, Option.getD_some]
    rw [deleteAll_mergeWith hkept]
    apply mergeWith_congr rfl
    intro id
    cases hconfig : providers.get id with
    | none => rfl
    | some config =>
      have hmem : id ∉ patch.removeProviders := by
        intro hmem
        exact hkept id hmem (mem_keys_of_get hconfig)
      have hsame := applyOverride_of_repeats (hstep.repeated providers hproviders id config hconfig)
        (hwell providers hproviders id config hconfig)
      rw [get_deleteAll, if_neg hmem]
      simp [hsame]

theorem mergeMutableAgentPatch_providers (persisted : PersistedConfig) (patch : MutableConfigPatch) :
    (mergeMutableAgentPatch persisted patch).providers.getD ∅ =
      ((persisted.providers.getD ∅).deleteAll patch.removeProviders).mergeWith applyOverride
        (patch.providers.getD ∅) := by
  unfold mergeMutableAgentPatch
  split
  · next h => rw [h.1, h.2.2.2, Option.getD_none, mergeWith_empty]; rfl
  · rw [applyMutable_getD, omitProvidersFromOverrides_getD]

/-! ## The metadata providers and the settings -/

theorem mergeMutableAgentPatch_metadataGeneration (hstep : patch.InStep current)
    (hagrees : current.metadataGeneration = persisted.metadataGeneration.getD []) :
    (nextConfig current patch).metadataGeneration =
      (mergeMutableAgentPatch persisted patch).metadataGeneration.getD [] := by
  simp only [nextConfig, omitMetadataGenerationProvidersFromConfig, omitProvidersFromConfig,
    deepMerge]
  unfold mergeMutableAgentPatch
  split
  · next h => simp [h.2.1, h.2.2.2, hagrees]
  · cases hentries : patch.metadataGeneration with
    | some entries =>
      have hkept := hstep.metadataKept entries hentries
      simpa using hkept
    | none =>
      by_cases hremove : patch.removeProviders = []
      · simp [hremove, hagrees]
      · cases hpersisted : persisted.metadataGeneration with
        | none => simp [hremove, hagrees, hpersisted]
        | some entries => simp [hremove, hagrees, hpersisted]

/-- A relay setting that may not be changed is not in the patch. -/
theorem merged_settings {persistRelayEnabled : Bool} (path : SettingPath)
    (hrelay : ¬ (patch.settings .relayEnabled ≠ none ∧ persistRelayEnabled = false)) :
    (mergeMutablePatchIntoPersistedConfig persistRelayEnabled persisted patch).settings path =
      (patch.settings path).or (persisted.settings path) := by
  simp only [mergeMutablePatchIntoPersistedConfig]
  split
  · next h =>
    have hnone : patch.settings .relayEnabled = none := by
      by_contra hsome
      exact hrelay ⟨hsome, h.2⟩
    rw [h.1, hnone, Option.none_or]
  · rfl

namespace DaemonConfigStore

/-! ## Agreement -/

/-- The configuration in memory is what the reload source makes of the file. -/
structure Agrees (defaults : SettingPath → Option Json) (store : DaemonConfigStore accepts) : Prop where
  providers : store.current.providers = (resolve defaults store.file.val).providers
  metadataGeneration :
    store.current.metadataGeneration = (resolve defaults store.file.val).metadataGeneration
  settings : store.current.settings = (resolve defaults store.file.val).settings

variable {defaults : SettingPath → Option Json} {store store' : DaemonConfigStore accepts}
  {throws : ℕ → Bool}

/-- A reload of a configuration that agrees with the file applies nothing. -/
theorem appliedPaths_of_agrees (h : store.Agrees defaults) : store.appliedPaths defaults = [] := by
  apply List.filter_eq_nil_iff.mpr
  intro path _
  have hsame : getValueAtPath store.current path = getValueAtPath (store.desired defaults) path := by
    cases path with
    | providers => exact congrArg FieldValue.providers h.providers
    | metadataGeneration => exact congrArg FieldValue.metadataGeneration h.metadataGeneration
    | setting path =>
      simp only [getValueAtPath, desired, h.settings, ite_self]
  simpa using hsame

/-- What a patch leaves: the store as it was, or both merges in it. -/
theorem applySupportedPatch_store (throws : ℕ → Bool) (store : DaemonConfigStore accepts)
    (patch : MutableConfigPatch) :
    (applySupportedPatch throws store patch).store = store ∨
    ¬ (patch.settings .relayEnabled ≠ none ∧ store.relayEnabledMutable = false) ∧
      ∃ haccepts, (applySupportedPatch throws store patch).store =
        { store with
          current := nextConfig store.current patch
          file := ⟨mergeMutablePatchIntoPersistedConfig store.relayEnabledMutable store.file.val patch,
            haccepts⟩ } := by
  unfold applySupportedPatch
  split
  · exact Or.inl rfl
  · next hrelay =>
    dsimp only
    split
    · exact Or.inl rfl
    · split
      · next haccepts =>
        split
        · next hsame =>
          refine Or.inr ⟨hrelay, haccepts, ?_⟩
          dsimp only
          rw [hsame]
        · next hchanged =>
          unfold applyReplacement
          rw [if_neg (fun h => hchanged h.1.symm)]
          dsimp only
          split
          · next hresult =>
            split at hresult
            · cases hresult
            · next hquiet =>
              refine Or.inr ⟨hrelay, haccepts, ?_⟩
              rw [if_neg hquiet]
          · next hresult =>
            split at hresult
            · next hthrew =>
              left
              rw [if_pos hthrew]
            · cases hresult
      · exact Or.inl rfl

/-- A patch in step keeps memory and file in step. -/
theorem applySupportedPatch_agrees (hagrees : store.Agrees defaults)
    (hstep : patch.InStep store.current) (hwell : patch.WellFormed) :
    (applySupportedPatch throws store patch).store.Agrees defaults := by
  rcases applySupportedPatch_store throws store patch with hsame | ⟨hrelay, haccepts, hnext⟩
  · rw [hsame]
    exact hagrees
  · rw [hnext]
    refine ⟨?_, ?_, ?_⟩
    · have hfile := mergeMutableAgentPatch_providers store.file.val patch
      have hlive := nextConfig_providers hstep hwell
      rw [hagrees.providers] at hlive
      exact hlive.trans hfile.symm
    · exact mergeMutableAgentPatch_metadataGeneration hstep hagrees.metadataGeneration
    · funext path
      simp only [resolve]
      rw [merged_settings path hrelay, Option.or_assoc]
      have hlive := congrFun hagrees.settings path
      simp only [resolve] at hlive
      rw [← hlive]
      rfl

/-! ## Taking back -/

/-- The value that a call gives to a field handler. -/
def valueFor (path : FieldPath) (id : ℕ) : Call → Option FieldValue
  | .handler path' id' value => if path' = path ∧ id' = id then some value else none
  | _ => none

/-- The value with which a field handler was last called. -/
def lastValue (calls : List Call) (path : FieldPath) (id : ℕ) : Option FieldValue :=
  calls.reverse.findSome? (valueFor path id)

/-- Every field handler that was called was last called with the previous value. -/
def TakenBack (previous : MutableDaemonConfig) (calls : List Call) : Prop :=
  ∀ path id value, lastValue calls path id = some value → value = getValueAtPath previous path

theorem takenBack_nil (previous : MutableDaemonConfig) : TakenBack previous [] := by
  intro path id value h
  contradiction

/-- A handler that none of the restoring calls is for was not called. -/
theorem not_made_of_not_restored {previous : MutableDaemonConfig} {made : List Call}
    {path : FieldPath} {id : ℕ}
    (h : ∀ call ∈ restoringCalls previous made, valueFor path id call = none) :
    ∀ call ∈ made, valueFor path id call = none := by
  intro call hcall
  cases call with
  | handler path' id' value =>
    have hrestored : Call.handler path' id' (getValueAtPath previous path') ∈
        restoringCalls previous made :=
      List.mem_filterMap.mpr ⟨_, hcall, rfl⟩
    have hnone := h _ hrestored
    simp only [valueFor] at hnone ⊢
    split at hnone
    · contradiction
    · next hne => exact if_neg hne
  | listener _ => rfl
  | rollback _ => rfl

theorem takenBack_undone (previous : MutableDaemonConfig) (made : List Call) :
    TakenBack previous (made ++ undoCalls previous made) := by
  intro path id value h
  have hlast : lastValue (made ++ undoCalls previous made) path id =
      (restoringCalls previous made).findSome? (valueFor path id) := by
    unfold lastValue undoCalls
    rw [List.reverse_append, List.reverse_append, List.reverse_reverse, List.reverse_reverse,
      List.append_assoc, List.findSome?_append]
    cases hrestored : (restoringCalls previous made).findSome? (valueFor path id) with
    | some value => rw [Option.some_or]
    | none =>
      rw [Option.none_or, List.findSome?_append, Option.or_eq_none_iff]
      constructor
      · apply List.findSome?_eq_none_iff.mpr
        intro call hcall
        obtain ⟨call', -, hcall'⟩ := List.mem_filterMap.mp hcall
        split at hcall'
        · cases hcall'
          rfl
        · contradiction
      · apply List.findSome?_eq_none_iff.mpr
        intro call hcall
        exact not_made_of_not_restored (List.findSome?_eq_none_iff.mp hrestored) call
          (List.mem_reverse.mp hcall)
  rw [hlast] at h
  obtain ⟨call, hcall, hvalue⟩ := List.exists_of_findSome?_eq_some h
  obtain ⟨call', -, hcall'⟩ := List.mem_filterMap.mp hcall
  split at hcall'
  · next path' id' old =>
    cases hcall'
    simp only [valueFor] at hvalue
    split at hvalue
    · next hsame =>
      rw [← hsame.1]
      exact (Option.some.inj hvalue).symm
    · contradiction
  · contradiction

/-- A patch that throws leaves the configuration and the file, and takes back what it called. -/
theorem applySupportedPatch_error {error : ConfigError}
    (h : (applySupportedPatch throws store patch).result = .error error) :
    (applySupportedPatch throws store patch).store = store ∧
      TakenBack store.current (applySupportedPatch throws store patch).calls := by
  revert h
  unfold applySupportedPatch
  split
  · exact fun _ => ⟨rfl, takenBack_nil _⟩
  · dsimp only
    split
    · simp
    · split
      · split
        · simp
        · next hchanged =>
          unfold applyReplacement
          rw [if_neg (fun h => hchanged h.1.symm)]
          dsimp only
          split
          · next hresult =>
            rw [hresult]
            simp
          · next hresult =>
            split at hresult
            · next hthrew =>
              intro _
              rw [if_pos hthrew]
              exact ⟨rfl, takenBack_undone _ _⟩
            · contradiction
      · exact fun _ => ⟨rfl, takenBack_nil _⟩

/-! ## Runs of patches -/

/-- Patches from JSON text, one after the other, each meeting the condition in the state that it is
applied to. The calls of each may throw anywhere. -/
inductive PatchRun (condition : MutableDaemonConfig → MutableConfigPatch → Prop) :
    DaemonConfigStore accepts → DaemonConfigStore accepts → Prop
  | refl (store : DaemonConfigStore accepts) : PatchRun condition store store
  | patch {store store' : DaemonConfigStore accepts} (run : PatchRun condition store store')
      (throws : ℕ → Bool) (partialConfig : MutableConfigPatch) (hwell : partialConfig.WellFormed)
      (hcondition : condition store'.current partialConfig) :
      PatchRun condition store (store'.patch throws partialConfig).store

theorem inStep_picked {current : MutableDaemonConfig} (h : patch.InStep current) :
    (pickSupportedPatchFields patch).InStep current :=
  ⟨h.providersKept, h.metadataKept, h.repeated⟩

/-- Memory and file agree in every state of a run of patches in step. -/
theorem PatchRun.agrees (run : PatchRun (fun current patch => patch.InStep current) store store')
    (hagrees : store.Agrees defaults) : store'.Agrees defaults := by
  induction run with
  | refl => exact hagrees
  | patch _ throws partialConfig hwell hstep ih =>
    exact applySupportedPatch_agrees ih (inStep_picked hstep) hwell

/-- One provider with one field, in memory and in the file. -/
def oneProvider (value : Json) : OrderedMap String ProviderConfig :=
  (∅ : OrderedMap String ProviderConfig).set "claude"
    { ProviderConfig.empty with fields := (∅ : OrderedMap OverrideField Json).set .env value }

def seededStore : DaemonConfigStore fun _ => true where
  current := ⟨oneProvider (.obj [("A", .str "1")]), [], fun _ => none⟩
  file := ⟨⟨some (oneProvider (.obj [("A", .str "1")])), none, fun _ => none⟩, rfl⟩
  relayEnabledMutable := true
  fieldChangeHandlers := ∅
  applyListeners := []

def envPatch (value : Json) : MutableConfigPatch := ⟨some (oneProvider value), [], none, fun _ => none⟩

theorem seededStore_agrees : seededStore.Agrees fun _ => none := ⟨rfl, rfl, rfl⟩

theorem get_oneProvider {value : Json} {id : String} {config : ProviderConfig}
    (h : (oneProvider value).get id = some config) : ∀ field value',
      config.fields.get field = some value' → field = .env ∧ value' = value := by
  intro field value' hvalue
  unfold oneProvider at h
  rw [get_set] at h
  split at h
  · cases h
    rw [get_set] at hvalue
    split at hvalue
    · next hfield => exact ⟨hfield, (Option.some.inj hvalue).symm⟩
    · contradiction
  · contradiction

theorem envPatch_wellFormed {value : Json} (h : value.Distinct = true) :
    (envPatch value).WellFormed := by
  intro providers hproviders id config hconfig field value' hvalue
  cases hproviders
  rw [(get_oneProvider hconfig field value' hvalue).2]
  exact h

theorem sameVariable_inStep :
    (envPatch (.obj [("A", .str "2")])).InStep seededStore.current where
  providersKept := by
    intro providers _ id hid
    contradiction
  metadataKept := by
    intro entries hentries
    contradiction
  repeated := by
    intro providers hproviders id config hconfig
    cases hproviders
    have hid : id = "claude" := by
      unfold oneProvider at hconfig
      rw [get_set] at hconfig
      split at hconfig
      · assumption
      · contradiction
    have hfields : config.fields = (∅ : OrderedMap OverrideField Json).set .env
        (.obj [("A", .str "2")]) := by
      unfold oneProvider at hconfig
      rw [hid, get_set_self] at hconfig
      rw [← Option.some.inj hconfig]
    have hcurrent : (seededStore.current.providers.get id).getD .empty =
        { ProviderConfig.empty with
          fields := (∅ : OrderedMap OverrideField Json).set .env (.obj [("A", .str "1")]) } := by
      rw [hid]
      decide +kernel
    constructor
    · intro field old value hold hvalue
      rw [hcurrent] at hold
      rw [hfields] at hvalue
      simp only [get_set] at hold hvalue
      split at hvalue
      · next hfield =>
        rw [if_pos hfield] at hold
        rw [← Option.some.inj hold, ← Option.some.inj hvalue]
        decide +kernel
      · contradiction
    · rw [hcurrent, hfields]
      decide +kernel

end DaemonConfigStore

end Orqara.Config
