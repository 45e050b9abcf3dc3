import Orqara.Library.Interning
import Orqara.Library.JsonText

/-!
# Compact provider snapshots

A snapshot lists the models of every provider, and many of them offer the same thinking options.
The compact form puts each list of options, with the default that goes with it, into one table and
leaves an index in the model. Numbers in metadata are integers, and an optional field that is
`undefined` is an absent one.
-/

namespace Orqara.ProviderSnapshot

/-- The own properties of an option, in the order its provider wrote them. -/
abbrev AgentSelectOption := Record

structure AgentMode where
  id : String
  label : String
  description : Option String
  icon : Option String
  colorTier : Option String
  deriving DecidableEq

inductive ProviderStatus
  | ready
  | loading
  | error
  | unavailable
  deriving DecidableEq

inductive EntrySource
  | builtin
  | custom
  deriving DecidableEq

/-- The fields of a model that both forms hold alike. -/
structure ModelFields where
  id : String
  aliases : Option (List String)
  isSelectable : Option Bool
  label : String
  description : Option String
  isDefault : Option Bool
  metadata : Option Record
  contextWindowMaxTokens : Option ℤ
  deriving DecidableEq

structure AgentModelDefinition extends ModelFields where
  provider : String
  thinkingOptions : Option (List AgentSelectOption)
  defaultThinkingOptionId : Option String
  deriving DecidableEq

structure CompactProviderSnapshotModel extends ModelFields where
  defaultThinkingOptionId : Option String
  thinkingSet : Option ℕ
  deriving DecidableEq

/-- The fields of an entry that both forms hold alike; `defaultModeId` can be `null`. -/
structure EntryFields where
  provider : String
  status : ProviderStatus
  enabled : Bool
  source : Option EntrySource
  error : Option String
  modes : Option (List AgentMode)
  fetchedAt : Option String
  label : Option String
  description : Option String
  iconSvg : Option String
  defaultModeId : Option (Option String)
  deriving DecidableEq

structure ProviderSnapshotEntry extends EntryFields where
  models : Option (List AgentModelDefinition)
  deriving DecidableEq

structure CompactProviderSnapshotEntry extends EntryFields where
  models : Option (List CompactProviderSnapshotModel)
  deriving DecidableEq

structure ProviderSnapshotThinkingSet where
  options : List AgentSelectOption
  defaultOptionId : Option String
  deriving DecidableEq

structure CompactProviderSnapshot where
  entries : List CompactProviderSnapshotEntry
  thinkingSets : List ProviderSnapshotThinkingSet
  deriving DecidableEq

/-! ## Compacting -/

def ProviderSnapshotThinkingSet.toJson (set : ProviderSnapshotThinkingSet) : Json :=
  .obj (("options", .arr (set.options.map .obj)) ::
    match set.defaultOptionId with
    | some id => [("defaultOptionId", .str id)]
    | none => [])

def thinkingSetKey (set : ProviderSnapshotThinkingSet) : String := Json.stringify set.toJson

/-- `thinkingSets` and `thinkingSetIndexes`. -/
abbrev ThinkingSets := Pool thinkingSetKey

def compactModel (model : AgentModelDefinition) (thinkingSets : ThinkingSets) :
    CompactProviderSnapshotModel × ThinkingSets :=
  match model.thinkingOptions with
  | none => (⟨model.toModelFields, model.defaultThinkingOptionId, none⟩, thinkingSets)
  | some thinkingOptions =>
    let interned := thinkingSets.intern ⟨thinkingOptions, model.defaultThinkingOptionId⟩
    (⟨model.toModelFields, none, some interned.1⟩, interned.2)

def compactEntry (entry : ProviderSnapshotEntry) (thinkingSets : ThinkingSets) :
    CompactProviderSnapshotEntry × ThinkingSets :=
  match entry.models with
  | none => (⟨entry.toEntryFields, none⟩, thinkingSets)
  | some models =>
    let compacted := threaded compactModel models thinkingSets
    (⟨entry.toEntryFields, some compacted.1⟩, compacted.2)

def compactProviderSnapshot (entries : List ProviderSnapshotEntry) : CompactProviderSnapshot :=
  let compacted := threaded compactEntry entries (Pool.empty thinkingSetKey)
  ⟨compacted.1, compacted.2.values⟩

/-! ## Expanding -/

def missingThinkingSet (index : ℕ) : String :=
  s!"Provider snapshot references missing thinking set {index}"

/-- The error is the text of a `RangeError`. -/
def expandModel (provider : String) (model : CompactProviderSnapshotModel)
    (thinkingSets : List ProviderSnapshotThinkingSet) : Except String AgentModelDefinition :=
  match model.thinkingSet with
  | none => .ok ⟨model.toModelFields, provider, none, model.defaultThinkingOptionId⟩
  | some thinkingSetIndex =>
    match thinkingSets[thinkingSetIndex]? with
    | none => .error (missingThinkingSet thinkingSetIndex)
    | some thinkingSet =>
      -- a default in the set is spread over the one that the model kept
      .ok ⟨model.toModelFields, provider, some thinkingSet.options,
        thinkingSet.defaultOptionId.or model.defaultThinkingOptionId⟩

def expandEntry (thinkingSets : List ProviderSnapshotThinkingSet)
    (entry : CompactProviderSnapshotEntry) : Except String ProviderSnapshotEntry :=
  match entry.models with
  | none => .ok ⟨entry.toEntryFields, none⟩
  | some models => do
    let expanded ← models.mapM fun model => expandModel entry.provider model thinkingSets
    .ok ⟨entry.toEntryFields, some expanded⟩

def expandProviderSnapshot (snapshot : CompactProviderSnapshot) :
    Except String (List ProviderSnapshotEntry) :=
  snapshot.entries.mapM (expandEntry snapshot.thinkingSets)

/-! ## Keys -/

theorem toJson_injective : Function.Injective ProviderSnapshotThinkingSet.toJson := by
  rintro ⟨options, default⟩ ⟨options', default'⟩ h
  have hobj : Function.Injective Json.obj := fun _ _ => Json.obj.inj
  have hfields := List.cons.inj (Json.obj.inj h)
  have hoptions : options = options' :=
    hobj.list_map (Json.arr.inj (Prod.mk.inj hfields.1).2)
  have hdefault : default = default' := by
    cases default <;> cases default' <;> simp_all
  rw [hoptions, hdefault]

theorem thinkingSetKey_injective : Function.Injective thinkingSetKey :=
  Json.stringify_injective.comp toJson_injective

/-! ## Nothing is lost -/

theorem mapM_eq_ok {ε α β : Type} {f : β → Except ε α} {bs : List β} {as : List α}
    (h : List.Forall₂ (fun b a => f b = .ok a) bs as) : bs.mapM f = .ok as := by
  induction h with
  | nil => rfl
  | cons hfirst _ ih => rw [List.mapM_cons, hfirst, ih]; rfl

/-- A compact model that stands for a model of a provider, with the sets of a pool. -/
structure ModelMeans (provider : String) (thinkingSets : ThinkingSets)
    (compact : CompactProviderSnapshotModel) (model : AgentModelDefinition) : Prop where
  expands : expandModel provider compact thinkingSets.values = .ok model
  inRange : ∀ index, compact.thinkingSet = some index → index < thinkingSets.values.length

theorem extends_compactModel (model : AgentModelDefinition) (thinkingSets : ThinkingSets) :
    thinkingSets.Extends (compactModel model thinkingSets).2 := by
  unfold compactModel
  split
  · exact Pool.Extends.refl _
  · exact Pool.extends_intern _ _

theorem modelMeans_compactModel (model : AgentModelDefinition) (thinkingSets : ThinkingSets) :
    ModelMeans model.provider (compactModel model thinkingSets).2
      (compactModel model thinkingSets).1 model := by
  obtain ⟨fields, provider, thinkingOptions, default⟩ := model
  cases thinkingOptions with
  | none =>
    constructor
    · rfl
    · intro index hindex
      contradiction
  | some options =>
    have hset := Pool.getElem?_intern_of_injective thinkingSetKey_injective thinkingSets
      ⟨options, default⟩
    constructor
    · simp only [compactModel, expandModel, hset, Option.or_none]
    · intro index hindex
      rw [← Option.some.inj hindex]
      exact (List.getElem?_eq_some_iff.mp hset).1

variable {thinkingSets : ThinkingSets} {later : ThinkingSets}

/-- More sets change nothing for a model that was written before. -/
theorem ModelMeans.extend {provider : String}
    {compact : CompactProviderSnapshotModel} {model : AgentModelDefinition}
    (hlater : thinkingSets.Extends later) (h : ModelMeans provider thinkingSets compact model) :
    ModelMeans provider later compact model := by
  have hexpands := h.expands
  constructor
  · unfold expandModel at hexpands ⊢
    split
    · next hnone => rwa [hnone] at hexpands
    · next index hindex =>
      rw [hindex] at hexpands
      have hset := List.getElem?_eq_getElem (h.inRange index hindex)
      rw [hlater.getElem? hset]
      simpa only [hset] using hexpands
  · intro index hindex
    exact (h.inRange index hindex).trans_le hlater.length_le

/-- The same for an entry and its models. -/
structure EntryMeans (thinkingSets : ThinkingSets) (compact : CompactProviderSnapshotEntry)
    (entry : ProviderSnapshotEntry) : Prop where
  fields : compact.toEntryFields = entry.toEntryFields
  models : Option.Rel (List.Forall₂ (ModelMeans entry.provider thinkingSets)) compact.models
    entry.models

theorem extends_compactEntry (entry : ProviderSnapshotEntry) (thinkingSets : ThinkingSets) :
    thinkingSets.Extends (compactEntry entry thinkingSets).2 := by
  unfold compactEntry
  split
  · exact Pool.Extends.refl _
  · exact later_threaded Pool.Extends.refl Pool.Extends.trans extends_compactModel _ _

/-- Every model of an entry is one of its own provider. -/
def OwnModels (entry : ProviderSnapshotEntry) : Prop :=
  ∀ models, entry.models = some models → ∀ model ∈ models, model.provider = entry.provider

variable {entry : ProviderSnapshotEntry} {compact : CompactProviderSnapshotEntry}

theorem entryMeans_compactEntry (h : OwnModels entry) (thinkingSets : ThinkingSets) :
    EntryMeans (compactEntry entry thinkingSets).2 (compactEntry entry thinkingSets).1 entry := by
  obtain ⟨fields, models⟩ := entry
  cases models with
  | none => exact ⟨rfl, .none⟩
  | some models =>
    refine ⟨rfl, .some ?_⟩
    apply means_threaded Pool.Extends.refl Pool.Extends.trans extends_compactModel
      (fun hlater hmeans => hmeans.extend hlater)
    intro model hmodel sets
    have hmeans := modelMeans_compactModel model sets
    rwa [h models rfl model hmodel] at hmeans

theorem EntryMeans.extend (hlater : thinkingSets.Extends later)
    (h : EntryMeans thinkingSets compact entry) :
    EntryMeans later compact entry where
  fields := h.fields
  models := by
    have hmodels := h.models
    generalize compact.models = compacted, entry.models = models at hmodels
    cases hmodels with
    | none => exact .none
    | some hall => exact .some (hall.imp fun _ _ hmeans => hmeans.extend hlater)

/-- An entry comes back from its compact form. -/
theorem EntryMeans.expands (h : EntryMeans thinkingSets compact entry) :
    expandEntry thinkingSets.values compact = .ok entry := by
  obtain ⟨fields, compacted⟩ := compact
  obtain ⟨fields', models⟩ := entry
  have hfields : fields = fields' := h.fields
  have hmodels : Option.Rel (List.Forall₂ (ModelMeans fields'.provider thinkingSets)) compacted
    models := h.models
  cases hmodels with
  | none => rw [hfields]; rfl
  | some hall =>
    have hexpands := mapM_eq_ok (hall.imp fun _ _ hmeans => hmeans.expands)
    rw [hfields]
    simp only [expandEntry, hexpands]
    rfl

theorem compactProviderSnapshot_means {entries : List ProviderSnapshotEntry}
    (h : ∀ entry ∈ entries, OwnModels entry) :
    ∃ thinkingSets : ThinkingSets,
      (compactProviderSnapshot entries).thinkingSets = thinkingSets.values ∧
      List.Forall₂ (EntryMeans thinkingSets) (compactProviderSnapshot entries).entries entries := by
  refine ⟨(threaded compactEntry entries (Pool.empty thinkingSetKey)).2, rfl, ?_⟩
  apply means_threaded Pool.Extends.refl Pool.Extends.trans extends_compactEntry
    (fun hlater hmeans => hmeans.extend hlater)
  intro entry hentry thinkingSets
  exact entryMeans_compactEntry (h entry hentry) thinkingSets

/-- Expanding a compact snapshot gives back its entries, with every index in range and no two sets of
one text. -/
theorem expand_compactProviderSnapshot (entries : List ProviderSnapshotEntry)
    (h : ∀ entry ∈ entries, OwnModels entry) :
    expandProviderSnapshot (compactProviderSnapshot entries) = .ok entries ∧
    (∀ entry ∈ (compactProviderSnapshot entries).entries, ∀ models, entry.models = some models →
      ∀ model ∈ models, ∀ index, model.thinkingSet = some index →
        index < (compactProviderSnapshot entries).thinkingSets.length) ∧
    ((compactProviderSnapshot entries).thinkingSets.map thinkingSetKey).Nodup := by
  obtain ⟨thinkingSets, hsets, hentries⟩ := compactProviderSnapshot_means h
  rw [expandProviderSnapshot, hsets]
  refine ⟨mapM_eq_ok (hentries.imp fun _ _ hmeans => hmeans.expands), ?_, thinkingSets.nodup_keys⟩
  intro compact hcompact models hmodels model hmodel index hindex
  obtain ⟨entry, -, hmeans⟩ := exists_of_mem_left hentries hcompact
  have hrel := hmeans.models
  rw [hmodels] at hrel
  generalize entry.models = originals at hrel
  cases hrel with
  | some hall =>
    obtain ⟨original, -, hmodelMeans⟩ := exists_of_mem_left hall hmodel
    exact hmodelMeans.inRange index hindex

/-! ## Options written in another order -/

mutual
/-- Equality of values, whatever the order of an object's properties. -/
def deepEqual : Json → Json → Bool
  | .arr xs, .arr ys => deepEqualItems xs ys
  | .obj xs, .obj ys => xs.length == ys.length && deepEqualFields xs ys
  | a, b => a == b

def deepEqualItems : List Json → List Json → Bool
  | [], [] => true
  | x :: xs, y :: ys => deepEqual x y && deepEqualItems xs ys
  | _, _ => false

/-- Every property of the first object is one of the second. -/
def deepEqualFields : List (String × Json) → List (String × Json) → Bool
  | [], _ => true
  | (key, x) :: xs, ys =>
    (match ys.lookup key with
      | some y => deepEqual x y
      | none => false) && deepEqualFields xs ys
end

/-- A provider with one model that offers one option. -/
def offering (provider : String) (option : AgentSelectOption) : ProviderSnapshotEntry :=
  ⟨⟨provider, .ready, true, none, none, none, none, none, none, none, none⟩,
    some [⟨⟨"m", none, none, "M", none, none, none, none⟩, provider, some [option], none⟩]⟩

def idFirst : AgentSelectOption := [("id", .str "low"), ("label", .str "Low")]

def labelFirst : AgentSelectOption := [("label", .str "Low"), ("id", .str "low")]

theorem ownModels_offering (provider : String) (option : AgentSelectOption) :
    OwnModels (offering provider option) := by
  intro models hmodels model hmodel
  rw [← Option.some.inj hmodels, List.mem_singleton] at hmodel
  rw [hmodel]
  rfl

/-- Two providers write the properties of one option in different orders, and the table holds two
equal sets. -/
theorem sameOption_twice :
    (∀ entry ∈ [offering "a" idFirst, offering "b" labelFirst], OwnModels entry) ∧
    (compactProviderSnapshot [offering "a" idFirst, offering "b" labelFirst]).thinkingSets =
      [⟨[idFirst], none⟩, ⟨[labelFirst], none⟩] ∧
    deepEqual (ProviderSnapshotThinkingSet.toJson ⟨[idFirst], none⟩)
      (ProviderSnapshotThinkingSet.toJson ⟨[labelFirst], none⟩) = true := by
  refine ⟨?_, by decide +kernel, by decide +kernel⟩
  intro entry hentry
  rcases List.mem_cons.mp hentry with rfl | hentry
  · exact ownModels_offering _ _
  · rw [List.mem_singleton.mp hentry]
    exact ownModels_offering _ _

/-- Two providers that offer the same option share its set. -/
theorem expand_compactProviderSnapshot_shared :
    expandProviderSnapshot
      (compactProviderSnapshot [offering "a" idFirst, offering "b" idFirst]) =
        .ok [offering "a" idFirst, offering "b" idFirst] := by
  refine (expand_compactProviderSnapshot _ ?_).1
  intro entry hentry
  rcases List.mem_cons.mp hentry with rfl | hentry
  · exact ownModels_offering _ _
  · rw [List.mem_singleton.mp hentry]
    exact ownModels_offering _ _

end Orqara.ProviderSnapshot
