import Orqara.Library.JsonMerge
import Orqara.Library.MergedMaps

/-!
# The daemon's configuration

The daemon holds its mutable configuration in memory and a persisted one in a file. A patch is
merged into both: in memory in depth, in the file one level deep and by other functions. Field
handlers and apply listeners follow the configuration, and are taken back when one of them throws.
-/

namespace Orqara.Config

open Json

/-! ## Values -/

/-- The fields of `ProviderOverrideSchema` that `MutableDaemonProviderConfigSchema` passes through. -/
inductive OverrideField
  | «extends» | label | description | command | env | params | models | disallowedTools | order
  deriving DecidableEq

/-- The order in which `ProviderOverrideSchema` writes the fields it reads. -/
def OverrideField.shape : List OverrideField :=
  [.extends, .label, .description, .command, .env, .params, .models, .disallowedTools, .order]

theorem OverrideField.shape_nodup : OverrideField.shape.Nodup := by decide

theorem OverrideField.mem_shape (field : OverrideField) : field ∈ OverrideField.shape := by
  cases field <;> decide

structure PaseoToolsPolicy where
  enabled : Option Bool
  disabledTools : Option (List String)
  deriving DecidableEq

/-- A provider's configuration as the schemas of the daemon write it: the three fields that
`MutableDaemonProviderConfigSchema` names come first, the others in the order in which they came. -/
structure ProviderConfig where
  paseoTools : Option PaseoToolsPolicy
  enabled : Option Bool
  additionalModels : Option (List Json)
  fields : OrderedMap OverrideField Json
  deriving DecidableEq

def ProviderConfig.empty : ProviderConfig := ⟨none, none, none, ∅⟩

structure StructuredGenerationProvider where
  provider : String
  model : Option String
  thinkingOptionId : Option String
  deriving DecidableEq

/-- The settings beside the providers, by their path in the mutable configuration. -/
inductive SettingPath
  | relayEnabled | mcpEnabled | mcpInjectIntoAgents | browserToolsEnabled | hostnames
  | corsAllowedOrigins | trustedProxies | gitMaxProcessesPerSecond | gitMaxProcessConcurrency
  | autoArchiveAfterMerge | enableTerminalAgentHooks | appendSystemPrompt | terminalProfiles
  | agentProfiles | appBaseUrl | catalogRefreshTimeoutMs | skillsSelection | pluginsEnabled | plugins
  deriving DecidableEq

instance : Fintype SettingPath where
  elems := {.relayEnabled, .mcpEnabled, .mcpInjectIntoAgents, .browserToolsEnabled, .hostnames,
    .corsAllowedOrigins, .trustedProxies, .gitMaxProcessesPerSecond, .gitMaxProcessConcurrency,
    .autoArchiveAfterMerge, .enableTerminalAgentHooks, .appendSystemPrompt, .terminalProfiles,
    .agentProfiles, .appBaseUrl, .catalogRefreshTimeoutMs, .skillsSelection, .pluginsEnabled,
    .plugins}
  complete := by
    intro path
    cases path <;> decide

structure MutableDaemonConfig where
  providers : OrderedMap String ProviderConfig
  metadataGeneration : List StructuredGenerationProvider
  settings : SettingPath → Option Json
  deriving DecidableEq

/-- What the file holds: `agents.providers`, `agents.metadataGeneration.providers` and the rest. -/
structure PersistedConfig where
  providers : Option (OrderedMap String ProviderConfig)
  metadataGeneration : Option (List StructuredGenerationProvider)
  settings : SettingPath → Option Json
  deriving DecidableEq

structure MutableConfigPatch where
  providers : Option (OrderedMap String ProviderConfig)
  removeProviders : List String
  metadataGeneration : Option (List StructuredGenerationProvider)
  settings : SettingPath → Option Json

def pickSupportedPatchFields (patch : MutableConfigPatch) : MutableConfigPatch where
  providers := patch.providers
  removeProviders := patch.removeProviders
  metadataGeneration := patch.metadataGeneration
  settings := fun path =>
    match path with
    | .relayEnabled | .mcpInjectIntoAgents | .browserToolsEnabled | .autoArchiveAfterMerge
    | .enableTerminalAgentHooks | .appendSystemPrompt | .terminalProfiles | .agentProfiles
    | .pluginsEnabled | .plugins => patch.settings path
    | _ => none

/-! ## The patch in memory -/

/-- `{ ...existing, ...incoming }`. -/
def PaseoToolsPolicy.spread (existing incoming : PaseoToolsPolicy) : PaseoToolsPolicy where
  enabled := incoming.enabled.or existing.enabled
  disabledTools := incoming.disabledTools.or existing.disabledTools

/-- What becomes of the policy that is there when one is given, or none is. -/
def PaseoToolsPolicy.merge (existing : Option PaseoToolsPolicy) :
    Option PaseoToolsPolicy → Option PaseoToolsPolicy
  | some incoming => some ((existing.getD ⟨none, none⟩).spread incoming)
  | none => existing

/-- `deepMerge` of two provider configurations. -/
def ProviderConfig.deepMerge (current patch : ProviderConfig) : ProviderConfig where
  paseoTools := PaseoToolsPolicy.merge current.paseoTools patch.paseoTools
  enabled := patch.enabled.or current.enabled
  additionalModels := patch.additionalModels.or current.additionalModels
  fields := current.fields.mergeWith mergeValue patch.fields

/-- A provider that is not there yet is taken as it is given. -/
def mergeProvider : Option ProviderConfig → ProviderConfig → ProviderConfig
  | some current, patch => current.deepMerge patch
  | none, patch => patch

/-- `deepMerge` of the configuration and a patch. The lists and the settings are replaced. -/
def deepMerge (current : MutableDaemonConfig) (patch : MutableConfigPatch) : MutableDaemonConfig where
  providers :=
    match patch.providers with
    | some providers => current.providers.mergeWith mergeProvider providers
    | none => current.providers
  metadataGeneration := patch.metadataGeneration.getD current.metadataGeneration
  settings := fun path => (patch.settings path).or (current.settings path)

def omitProvidersFromConfig (config : MutableDaemonConfig) (providers : List String) :
    MutableDaemonConfig :=
  { config with providers := config.providers.deleteAll providers }

def omitMetadataGenerationProvidersFromConfig (config : MutableDaemonConfig)
    (providers : List String) : MutableDaemonConfig :=
  { config with
    metadataGeneration := config.metadataGeneration.filter fun entry => entry.provider ∉ providers }

/-- The configuration after a patch. -/
def nextConfig (current : MutableDaemonConfig) (patch : MutableConfigPatch) : MutableDaemonConfig :=
  omitMetadataGenerationProvidersFromConfig
    (omitProvidersFromConfig (deepMerge current patch) patch.removeProviders) patch.removeProviders

/-! ## The patch in the file -/

def omitProvidersFromOverrides (overrides : Option (OrderedMap String ProviderConfig))
    (providers : List String) : Option (OrderedMap String ProviderConfig) :=
  overrides.bind fun overrides =>
    if (overrides.deleteAll providers).keys = [] then none else some (overrides.deleteAll providers)

/-- `ProviderOverrideSchema.strip().parse`, on values that the schema keeps. -/
def ProviderConfig.parse (config : ProviderConfig) : ProviderConfig :=
  { config with fields := config.fields.listed OverrideField.shape OverrideField.shape_nodup }

/-- The override that is there, with the fields of the parsed one written over it. -/
def applyOverride (previous : Option ProviderConfig) (config : ProviderConfig) : ProviderConfig where
  paseoTools :=
    PaseoToolsPolicy.merge (previous.getD .empty).paseoTools config.parse.paseoTools
  enabled := config.parse.enabled.or (previous.getD .empty).enabled
  additionalModels := config.parse.additionalModels.or (previous.getD .empty).additionalModels
  fields := (previous.getD .empty).fields.mergeWith (fun _ value => value) config.parse.fields

def applyMutableProviderConfigToOverrides
    (baseOverrides mutableProviders : Option (OrderedMap String ProviderConfig)) :
    Option (OrderedMap String ProviderConfig) :=
  if baseOverrides = none ∧ (mutableProviders.getD ∅).keys = [] then
    none
  else
    some ((baseOverrides.getD ∅).mergeWith applyOverride (mutableProviders.getD ∅))

def mergeMutableAgentPatch (persisted : PersistedConfig) (patch : MutableConfigPatch) :
    PersistedConfig :=
  if patch.providers = none ∧ patch.metadataGeneration = none ∧
      patch.settings .skillsSelection = none ∧ patch.removeProviders = [] then
    persisted
  else
    { persisted with
      providers := applyMutableProviderConfigToOverrides
        (omitProvidersFromOverrides persisted.providers patch.removeProviders) patch.providers
      metadataGeneration :=
        match patch.metadataGeneration with
        | some providers => some providers
        | none =>
          if patch.removeProviders = [] then
            persisted.metadataGeneration
          else
            persisted.metadataGeneration.map fun providers =>
              providers.filter fun entry => entry.provider ∉ patch.removeProviders }

def mergeMutablePatchIntoPersistedConfig (persistRelayEnabled : Bool) (persisted : PersistedConfig)
    (patch : MutableConfigPatch) : PersistedConfig :=
  { mergeMutableAgentPatch persisted patch with
    settings := fun path =>
      if path = .relayEnabled ∧ persistRelayEnabled = false then
        persisted.settings path
      else
        (patch.settings path).or (persisted.settings path) }

/-! ## Field handlers and apply listeners -/

/-- The paths that `onFieldChange` and `reload` read. -/
inductive FieldPath
  | providers
  | metadataGeneration
  | setting (path : SettingPath)
  deriving DecidableEq

inductive FieldValue
  | providers (providers : OrderedMap String ProviderConfig)
  | metadataGeneration (providers : List StructuredGenerationProvider)
  | setting (value : Option Json)
  deriving DecidableEq

def getValueAtPath (config : MutableDaemonConfig) : FieldPath → FieldValue
  | .providers => .providers config.providers
  | .metadataGeneration => .metadataGeneration config.metadataGeneration
  | .setting path => .setting (config.settings path)

/-- What the store calls: a field handler with a value, an apply listener, or the rollback that a
listener returned. -/
inductive Call
  | handler (path : FieldPath) (id : ℕ) (value : FieldValue)
  | listener (id : ℕ)
  | rollback (id : ℕ)
  deriving DecidableEq

/-- The calls that are made until one throws, that one included, and whether one did. -/
def callUntilThrow (throws : ℕ → Bool) : List Call → ℕ → List Call × Bool
  | [], _ => ([], false)
  | call :: calls, n =>
    if throws n then
      ([call], true)
    else
      (call :: (callUntilThrow throws calls (n + 1)).1, (callUntilThrow throws calls (n + 1)).2)

inductive ConfigError
  | relayControlledByOverride | invalidConfig | applyFailed | rollbackFailed
  deriving DecidableEq

/-- `accepts` is what `PersistedConfigSchema` lets through: the file holds nothing else. -/
structure DaemonConfigStore (accepts : PersistedConfig → Bool) where
  current : MutableDaemonConfig
  file : {config : PersistedConfig // accepts config = true}
  relayEnabledMutable : Bool
  fieldChangeHandlers : OrderedMap FieldPath (List ℕ)
  applyListeners : List ℕ

/-- What a call of the store leaves, the calls it made, and what it returned or threw. -/
structure Outcome (accepts : PersistedConfig → Bool) where
  store : DaemonConfigStore accepts
  calls : List Call
  result : Except ConfigError MutableDaemonConfig

variable {accepts : PersistedConfig → Bool}

namespace DaemonConfigStore

/-- The handlers of the paths whose value changes, then the listeners. -/
def applyCalls (store : DaemonConfigStore accepts) (next : MutableDaemonConfig) : List Call :=
  (store.fieldChangeHandlers.entries.flatMap fun entry =>
    if getValueAtPath store.current entry.1 = getValueAtPath next entry.1 then
      []
    else
      entry.2.map fun id => .handler entry.1 id (getValueAtPath next entry.1)) ++
  store.applyListeners.map .listener

/-- The rollbacks of the listeners that returned one: the last call made is the one that threw. -/
def rollbackCalls (made : List Call) : List Call :=
  made.dropLast.filterMap fun call =>
    match call with
    | .listener id => some (.rollback id)
    | _ => none

/-- The field handlers that were called, with the previous values. -/
def restoringCalls (previous : MutableDaemonConfig) (made : List Call) : List Call :=
  made.filterMap fun call =>
    match call with
    | .handler path id _ => some (.handler path id (getValueAtPath previous path))
    | _ => none

/-- The calls that take back what was made until one threw. -/
def undoCalls (previous : MutableDaemonConfig) (made : List Call) : List Call :=
  (rollbackCalls made).reverse ++ (restoringCalls previous made).reverse

/-- `throws n` says whether the `n`-th of the calls throws. -/
def applyReplacement (throws : ℕ → Bool) (store : DaemonConfigStore accepts)
    (next : MutableDaemonConfig) (removedProviders : List String) : Outcome accepts :=
  if store.current = next ∧ removedProviders = [] then
    ⟨store, [], .ok store.current⟩
  else
    let (made, threw) := callUntilThrow throws (store.applyCalls next) 0
    if threw then
      let undone := undoCalls store.current made
      let rollbackFails := (List.range undone.length).any fun i => throws (made.length + i)
      ⟨store, made ++ undone, .error (if rollbackFails then .rollbackFailed else .applyFailed)⟩
    else
      ⟨{ store with current := next }, made, .ok next⟩

/-- Loading and saving read and write the file of the store; nobody else does. -/
def applySupportedPatch (throws : ℕ → Bool) (store : DaemonConfigStore accepts)
    (patch : MutableConfigPatch) : Outcome accepts :=
  if patch.settings .relayEnabled ≠ none ∧ store.relayEnabledMutable = false then
    ⟨store, [], .error .relayControlledByOverride⟩
  else
    let next := nextConfig store.current patch
    if next = store.current ∧ patch.removeProviders = [] then
      ⟨store, [], .ok store.current⟩
    else
      let nextPersisted :=
        mergeMutablePatchIntoPersistedConfig store.relayEnabledMutable store.file.val patch
      if haccepts : accepts nextPersisted = true then
        let saved := { store with file := ⟨nextPersisted, haccepts⟩ }
        if next = store.current then
          ⟨saved, [], .ok store.current⟩
        else
          let outcome := applyReplacement throws saved next patch.removeProviders
          match outcome.result with
          | .ok _ => outcome
          | .error _ => { outcome with store := { outcome.store with file := store.file } }
      else
        ⟨store, [], .error .invalidConfig⟩

def patch (throws : ℕ → Bool) (store : DaemonConfigStore accepts) (partialConfig : MutableConfigPatch) :
    Outcome accepts :=
  applySupportedPatch throws store (pickSupportedPatchFields partialConfig)

/-! ## Reloading -/

/-- What the reload source makes of the file: absent providers are none, and an absent setting has
its default. -/
def resolve (defaults : SettingPath → Option Json) (persisted : PersistedConfig) :
    MutableDaemonConfig where
  providers := persisted.providers.getD ∅
  metadataGeneration := persisted.metadataGeneration.getD []
  settings := fun path => (persisted.settings path).or (defaults path)

/-- The configuration that a reload would bring: the plugins stay as they are. -/
def desired (defaults : SettingPath → Option Json) (store : DaemonConfigStore accepts) :
    MutableDaemonConfig :=
  { resolve defaults store.file.val with
    settings := fun path =>
      if path = .plugins then store.current.settings path
      else (resolve defaults store.file.val).settings path }

def RELOADABLE_PATHS : List FieldPath :=
  [.setting .relayEnabled, .setting .mcpEnabled, .setting .mcpInjectIntoAgents,
    .setting .browserToolsEnabled, .setting .hostnames, .setting .corsAllowedOrigins,
    .setting .trustedProxies, .setting .gitMaxProcessesPerSecond,
    .setting .gitMaxProcessConcurrency, .setting .autoArchiveAfterMerge,
    .setting .enableTerminalAgentHooks, .setting .appendSystemPrompt, .setting .terminalProfiles,
    .setting .agentProfiles, .setting .appBaseUrl, .providers, .setting .catalogRefreshTimeoutMs,
    .metadataGeneration, .setting .skillsSelection, .setting .pluginsEnabled]

/-- The paths that `reload` reports as applied. -/
def appliedPaths (defaults : SettingPath → Option Json) (store : DaemonConfigStore accepts) :
    List FieldPath :=
  RELOADABLE_PATHS.filter fun path =>
    getValueAtPath store.current path ≠ getValueAtPath (store.desired defaults) path

end DaemonConfigStore

end Orqara.Config
