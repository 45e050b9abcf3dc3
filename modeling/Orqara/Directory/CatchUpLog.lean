import Orqara.Directory.VersionedCollection
import Orqara.Library.KeyedUpdates

/-!
# The catch-up log is exact

Whatever happens to a collection after a client has read it, what it is sent later brings
it to the current state, or it is told that its cursor has expired.
-/

namespace Orqara.Directory

open VersionedCollection OrderedMap KeyedUpdates

variable {α : Type*} {getId fingerprint : α → String} {c : VersionedCollection α}

namespace VersionedCollection

/-! ## Invariants -/

/-- The values, tombstones and changes of a collection fit together. -/
structure Logged (getId : α → String) (c : VersionedCollection α) : Prop where
  ids : ∀ id stored, c.valuesById.get id = some stored → getId stored.value = id
  valueSeqs : ∀ id stored, c.valuesById.get id = some stored → stored.seq ≤ c.nextSeq
  apart : ∀ id stored, c.valuesById.get id = some stored → c.tombstonesById.get id = none
  increasing : (c.published.map PublishedChange.seq).Pairwise (· < ·)
  publishedSeqs : ∀ change ∈ c.published, change.seq ≤ c.nextSeq
  expired : ∀ removal ∈ c.dropped, removal.seq ≤ c.expiredThroughSeq

structure Sound (getId : α → String) (c : VersionedCollection α) : Prop extends c.Logged getId where
  bounded : c.tombstonesById.size ≤ c.maxTombstones

/-- What the collection still knows of the time after `seq`, when its state was `old`. -/
def Since (seq : ℕ) (old : String → Option α) (c : VersionedCollection α) : Prop :=
  seq ≤ c.nextSeq ∧ ∀ id,
    match c.valuesById.get id with
    | some stored => seq < stored.seq ∨ old id = some stored.value
    | none =>
      c.expiredThroughSeq ≤ seq → (∃ removedAt, c.tombstonesById.get id = some removedAt ∧
        seq < removedAt) ∨ old id = none

theorem sound_start (getId : α → String) (maxTombstones : ℕ) : (start maxTombstones : VersionedCollection α).Sound getId where
  ids := by simp [start]
  valueSeqs := by simp [start]
  apart := by simp [start]
  increasing := by simp [start]
  publishedSeqs := by simp [start]
  expired := by simp [start]
  bounded := by simp [start, size, EmptyCollection.emptyCollection, empty]

/-- What is published next has the next number. -/
theorem Logged.publish (h : c.Logged getId) (change : PublishedChange α)
    (hchange : change.seq = c.nextSeq + 1) :
    ((c.published ++ [change]).map PublishedChange.seq).Pairwise (· < ·) ∧
      ∀ x ∈ c.published ++ [change], x.seq ≤ c.nextSeq + 1 := by
  constructor
  · rw [List.map_append, List.pairwise_append]
    refine ⟨h.increasing, by simp, ?_⟩
    intro seq hseq next hnext
    obtain ⟨old, hold, rfl⟩ := List.mem_map.mp hseq
    have hle := h.publishedSeqs old hold
    simp only [List.map_cons, List.map_nil, List.mem_singleton] at hnext
    omega
  · intro x hx
    rcases List.mem_append.mp hx with hold | hnew
    · have := h.publishedSeqs x hold
      omega
    · rw [List.mem_singleton.mp hnew, hchange]

theorem size_delete_le (m : OrderedMap String ℕ) (id : String) : (m.delete id).size ≤ m.size :=
  List.length_filter_le ..

theorem Sound.replace (h : c.Sound getId) (value : α) :
    (c.replace getId fingerprint value).Sound getId := by
  unfold VersionedCollection.replace
  dsimp only
  split
  · exact h
  · obtain ⟨hincreasing, hpublished⟩ :=
      h.publish (.upsert (c.nextSeq + 1) value) rfl
    refine ⟨⟨?_, ?_, ?_, hincreasing, hpublished, h.expired⟩, ?_⟩
    · intro id stored hget
      dsimp only at hget
      rw [get_set] at hget
      split at hget
      · rename_i hid
        rw [← Option.some.inj hget, hid]
      · exact h.ids id stored hget
    · intro id stored hget
      dsimp only at hget ⊢
      rw [get_set] at hget
      split at hget
      · rw [← Option.some.inj hget]
      · have := h.valueSeqs id stored hget
        omega
    · intro id stored hget
      dsimp only at hget ⊢
      rw [get_set] at hget
      rw [get_delete]
      split at hget
      · rename_i hid
        rw [if_pos hid]
      · rename_i hid
        rw [if_neg hid]
        exact h.apart id stored hget
    · exact (size_delete_le ..).trans h.bounded

variable {old : String → Option α}

theorem Since.replace {seq : ℕ} (h : Since seq old c) (value : α) :
    Since seq old (c.replace getId fingerprint value) := by
  unfold VersionedCollection.replace
  dsimp only
  split
  · exact h
  · obtain ⟨hseq, hids⟩ := h
    refine ⟨Nat.le_succ_of_le hseq, ?_⟩
    intro id
    dsimp only
    rw [get_set, get_delete]
    by_cases hid : id = getId value
    · rw [if_pos hid]
      exact .inl (Nat.lt_succ_of_le hseq)
    · rw [if_neg hid, if_neg hid]
      exact hids id

/-! ## Dropping tombstones -/

theorem dropOldest_same (c : VersionedCollection α) :
    c.dropOldest.valuesById = c.valuesById ∧ c.dropOldest.nextSeq = c.nextSeq ∧
      c.dropOldest.published = c.published ∧ c.dropOldest.maxTombstones = c.maxTombstones := by
  unfold dropOldest
  split
  · simp
  · simp

theorem Logged.dropOldest (h : c.Logged getId) : c.dropOldest.Logged getId := by
  unfold VersionedCollection.dropOldest
  split
  · exact h
  · refine ⟨h.ids, h.valueSeqs, ?_, h.increasing, h.publishedSeqs, ?_⟩
    · intro id stored hget
      dsimp only
      rw [get_delete]
      split
      · rfl
      · exact h.apart id stored hget
    · intro removal hmem
      dsimp only at hmem ⊢
      rcases List.mem_append.mp hmem with hold | hnew
      · exact (h.expired removal hold).trans (le_max_left ..)
      · rw [List.mem_singleton.mp hnew]
        exact le_max_right ..

/-- A client that needs a dropped tombstone is behind what has expired. -/
theorem Since.dropOldest {seq : ℕ} (h : Since seq old c) :
    Since seq old c.dropOldest := by
  obtain ⟨hseq, hids⟩ := h
  unfold VersionedCollection.dropOldest
  split
  · exact ⟨hseq, hids⟩
  · rename_i droppedId droppedSeq rest hentries
    refine ⟨hseq, ?_⟩
    intro id
    have hid := hids id
    dsimp only
    cases hget : c.valuesById.get id with
    | some stored =>
      rw [hget] at hid
      exact hid
    | none =>
      rw [hget] at hid
      intro hexpired
      rcases hid ((le_max_left ..).trans hexpired) with ⟨removedAt, hremoved, hlt⟩ | hnone
      · left
        refine ⟨removedAt, ?_, hlt⟩
        rw [get_delete_ne]
        · exact hremoved
        · -- the dropped tombstone is not after the client's cursor
          rintro rfl
          have hfirst : c.tombstonesById.get id = some droppedSeq := by
            simp [OrderedMap.get, hentries]
          rw [hremoved] at hfirst
          have hle : droppedSeq ≤ seq := (le_max_right ..).trans hexpired
          have := Option.some.inj hfirst
          omega
      · exact .inr hnone

theorem size_dropOldest (h : 0 < c.tombstonesById.size) :
    c.dropOldest.tombstonesById.size < c.tombstonesById.size := by
  unfold dropOldest
  split
  · rename_i hentries
    simp [size, hentries] at h
  · rename_i id seq rest hentries
    apply size_delete_lt
    simp [keys, hentries]

theorem trimLoop_spec (seq : ℕ) (old : String → Option α) (fuel : ℕ) :
    ∀ c : VersionedCollection α, c.Logged getId → c.tombstonesById.size ≤ c.maxTombstones + fuel →
      (trimLoop fuel c).Sound getId ∧ (Since seq old c → Since seq old (trimLoop fuel c)) ∧
        (trimLoop fuel c).maxTombstones = c.maxTombstones := by
  induction fuel with
  | zero =>
    intro c h hsize
    exact ⟨⟨h, hsize⟩, id, rfl⟩
  | succ fuel ih =>
    intro c h hsize
    rw [trimLoop]
    by_cases hover : c.maxTombstones < c.tombstonesById.size
    · rw [if_pos hover]
      have hmax := (dropOldest_same c).2.2.2
      have hlt : c.dropOldest.tombstonesById.size < c.tombstonesById.size :=
        size_dropOldest (by omega)
      obtain ⟨hsound, hsince, hmax'⟩ := ih c.dropOldest h.dropOldest (by omega)
      exact ⟨hsound, fun hc => hsince hc.dropOldest, hmax'.trans hmax⟩
    · rw [if_neg hover]
      exact ⟨⟨h, by omega⟩, id, rfl⟩

/-! ## Removals -/

theorem remove_spec (seq : ℕ) (old : String → Option α) (h : c.Sound getId) (id : String) :
    (c.remove id).Sound getId ∧ (Since seq old c → Since seq old (c.remove id)) ∧
      (c.remove id).maxTombstones = c.maxTombstones := by
  unfold remove
  dsimp only
  split
  · exact ⟨h, fun hc => hc, rfl⟩
  · split
    · exact ⟨h, fun hc => hc, rfl⟩
    · obtain ⟨hincreasing, hpublished⟩ := h.publish (.remove (c.nextSeq + 1) id) rfl
      have hlogged : Logged getId
          { c with
            nextSeq := c.nextSeq + 1
            valuesById := c.valuesById.delete id
            tombstonesById := (c.tombstonesById.delete id).set id (c.nextSeq + 1)
            published := c.published ++ [PublishedChange.remove (c.nextSeq + 1) id] } := by
        refine ⟨?_, ?_, ?_, hincreasing, hpublished, h.expired⟩
        · intro other stored hget
          dsimp only at hget
          rw [get_delete] at hget
          split at hget
          · cases hget
          · exact h.ids other stored hget
        · intro other stored hget
          dsimp only at hget ⊢
          rw [get_delete] at hget
          split at hget
          · cases hget
          · have := h.valueSeqs other stored hget
            omega
        · intro other stored hget
          dsimp only at hget ⊢
          rw [get_delete] at hget
          split at hget
          · cases hget
          · rename_i hother
            rw [get_set_ne hother, get_delete_ne hother]
            exact h.apart other stored hget
      obtain ⟨hsound, hsince, hmax⟩ := trimLoop_spec seq old _ _ hlogged
        (Nat.le_add_left ..)
      refine ⟨hsound, ?_, hmax⟩
      rintro ⟨hseq, hids⟩
      apply hsince
      refine ⟨Nat.le_succ_of_le hseq, ?_⟩
      intro other
      dsimp only
      rw [get_delete]
      by_cases hother : other = id
      · rw [if_pos hother, hother]
        exact fun _ => .inl ⟨c.nextSeq + 1, get_set_self, Nat.lt_succ_of_le hseq⟩
      · rw [if_neg hother, get_set_ne hother, get_delete_ne hother]
        exact hids other

theorem maxTombstones_replace (value : α) :
    (c.replace getId fingerprint value).maxTombstones = c.maxTombstones := by
  unfold replace
  dsimp only
  split
  · rfl
  · rfl

theorem replaceAll_spec (fingerprint : α → String) (seq : ℕ) (old : String → Option α)
    (h : c.Sound getId) (values : List α) :
    (c.replaceAll getId fingerprint values).Sound getId ∧
      (Since seq old c → Since seq old (c.replaceAll getId fingerprint values)) ∧
      (c.replaceAll getId fingerprint values).maxTombstones = c.maxTombstones := by
  have hreplaces : ∀ (xs : List α) (c : VersionedCollection α), c.Sound getId →
      (xs.foldl (replace getId fingerprint) c).Sound getId ∧
        (Since seq old c → Since seq old (xs.foldl (replace getId fingerprint) c)) ∧
        (xs.foldl (replace getId fingerprint) c).maxTombstones =
          c.maxTombstones := by
    intro xs
    induction xs with
    | nil => exact fun c h => ⟨h, fun hc => hc, rfl⟩
    | cons x xs ih =>
      intro c h
      obtain ⟨hsound, hsince, hmax⟩ := ih _ (h.replace x)
      exact ⟨hsound, fun hc => hsince (hc.replace x), hmax.trans (maxTombstones_replace x)⟩
  have hremoves : ∀ (ids : List String) (c : VersionedCollection α), c.Sound getId →
      (ids.foldl (fun c id => if id ∈ values.map getId then c else c.remove id) c).Sound getId ∧
        (Since seq old c → Since seq old
          (ids.foldl (fun c id => if id ∈ values.map getId then c else c.remove id) c)) ∧
        (ids.foldl (fun c id => if id ∈ values.map getId then c else c.remove id) c).maxTombstones =
          c.maxTombstones := by
    intro ids
    induction ids with
    | nil => exact fun c h => ⟨h, fun hc => hc, rfl⟩
    | cons id ids ih =>
      intro c h
      rw [List.foldl_cons]
      by_cases hid : id ∈ values.map getId
      · rw [if_pos hid]
        exact ih c h
      · rw [if_neg hid]
        obtain ⟨hsound, hsince, hmax⟩ := remove_spec seq old h id
        obtain ⟨hsound', hsince', hmax'⟩ := ih _ hsound
        exact ⟨hsound', fun hc => hsince' (hsince hc), hmax'.trans hmax⟩
  obtain ⟨hsound, hsince, hmax⟩ := hreplaces values c h
  obtain ⟨hsound', hsince', hmax'⟩ := hremoves
    (values.foldl (replace getId fingerprint) c).valuesById.keys _ hsound
  exact ⟨hsound', fun hc => hsince' (hsince hc), hmax'.trans hmax⟩

theorem apply_spec (fingerprint : α → String) (seq : ℕ) (old : String → Option α)
    (h : c.Sound getId) (op : CollectionOp α) :
    (c.apply getId fingerprint op).Sound getId ∧
      (Since seq old c → Since seq old (c.apply getId fingerprint op)) ∧
      (c.apply getId fingerprint op).maxTombstones = c.maxTombstones := by
  cases op with
  | replace value => exact ⟨h.replace value, fun hc => hc.replace value, maxTombstones_replace value⟩
  | remove id => exact remove_spec seq old h id
  | replaceAll values => exact replaceAll_spec fingerprint seq old h values

theorem run_spec (fingerprint : α → String) (seq : ℕ) (old : String → Option α) (ops : List (CollectionOp α)) :
    ∀ c : VersionedCollection α, c.Sound getId →
      (c.run getId fingerprint ops).Sound getId ∧
        (Since seq old c → Since seq old (c.run getId fingerprint ops)) ∧
        (c.run getId fingerprint ops).maxTombstones = c.maxTombstones := by
  induction ops with
  | nil => exact fun c h => ⟨h, fun hc => hc, rfl⟩
  | cons op ops ih =>
    intro c h
    obtain ⟨hsound, hsince, hmax⟩ := apply_spec fingerprint seq old h op
    obtain ⟨hsound', hsince', hmax'⟩ := ih _ hsound
    exact ⟨hsound', fun hc => hsince' (hsince hc), hmax'.trans hmax⟩

theorem since_now (c : VersionedCollection α) : Since c.headSeq c.state c := by
  refine ⟨le_rfl, ?_⟩
  intro id
  cases hget : c.valuesById.get id with
  | some stored => exact .inr (by simp [state, hget])
  | none => exact fun _ => .inr (by simp [state, hget])

/-! ## Reads -/

variable {localeLE : String → String → Bool}

theorem mem_sortedValues {entry : VersionedValue α} :
    entry ∈ c.sortedValues getId localeLE ↔ ∃ id stored, c.valuesById.get id = some stored ∧
      entry = { seq := stored.seq, value := stored.value } := by
  rw [sortedValues, List.mem_mergeSort, List.mem_map]
  constructor
  · rintro ⟨found, hfound, rfl⟩
    exact ⟨found.1, found.2, get_eq_some_iff.mpr hfound, rfl⟩
  · rintro ⟨id, stored, hget, rfl⟩
    exact ⟨(id, stored), get_eq_some_iff.mp hget, rfl⟩

/-- The upserts of a read, then its removals. -/
def applyRead (getId : α → String) (read : CollectionRead α) (old : String → Option α) :
    String → Option α :=
  removals (read.removals.map VersionedRemoval.id)
    (upserts getId (read.values.map VersionedValue.value) old)

/-- The values among the latest that meet a condition, upserted. -/
theorem upserts_values (localeLE : String → String → Bool) (h : c.Sound getId) (p : VersionedValue α → Bool)
    (old : String → Option α) (id : String) :
    upserts getId (((c.sortedValues getId localeLE).filter p).map VersionedValue.value) old id =
      match c.valuesById.get id with
      | some stored =>
        if p { seq := stored.seq, value := stored.value } then some stored.value else old id
      | none => old id := by
  have hmem : ∀ value, value ∈ ((c.sortedValues getId localeLE).filter p).map VersionedValue.value →
      ∃ stored, c.valuesById.get (getId value) = some stored ∧ stored.value = value ∧
        p { seq := stored.seq, value := stored.value } = true := by
    intro value hvalue
    obtain ⟨entry, hentry, rfl⟩ := List.mem_map.mp hvalue
    obtain ⟨hsorted, hp⟩ := List.mem_filter.mp hentry
    obtain ⟨id', stored, hget, rfl⟩ := mem_sortedValues.mp hsorted
    refine ⟨stored, ?_, rfl, hp⟩
    rw [h.ids id' stored hget]
    exact hget
  by_cases hfound : ∃ stored, c.valuesById.get id = some stored ∧
      p { seq := stored.seq, value := stored.value } = true
  · obtain ⟨stored, hget, hp⟩ := hfound
    have hid := h.ids id stored hget
    rw [hget, ← hid]
    dsimp only
    rw [if_pos hp]
    apply upserts_of_mem
    · apply List.mem_map.mpr
      exact ⟨_, List.mem_filter.mpr ⟨mem_sortedValues.mpr ⟨id, stored, hget, rfl⟩, hp⟩, rfl⟩
    · intro value hvalue hsame
      obtain ⟨other, hother, hvalue', -⟩ := hmem value hvalue
      rw [hsame, hid, hget] at hother
      rw [← hvalue', Option.some.inj hother]
  · have hnone : upserts getId
        (((c.sortedValues getId localeLE).filter p).map VersionedValue.value) old id = old id := by
      apply upserts_of_forall_ne
      intro value hvalue heq
      obtain ⟨stored, hget, -, hp⟩ := hmem value hvalue
      exact hfound ⟨stored, heq ▸ hget, hp⟩
    rw [hnone]
    cases hget : c.valuesById.get id with
    | none => rfl
    | some stored =>
      have hp : ¬ p { seq := stored.seq, value := stored.value } = true :=
        fun hp => hfound ⟨stored, hget, hp⟩
      dsimp only
      rw [if_neg hp]

/-- A snapshot says the whole current state. -/
theorem applyRead_snapshot (h : c.Sound getId) (reason : ReadReason) :
    applyRead getId (c.readSnapshot getId localeLE reason) (fun _ => none) = c.state := by
  funext id
  rw [applyRead, removals_apply]
  have hall := upserts_values localeLE h (fun _ => true) (fun _ => none) id
  rw [List.filter_true] at hall
  simp only [readSnapshot, List.map_nil, List.not_mem_nil, if_false]
  rw [hall, state]
  cases c.valuesById.get id with
  | none => rfl
  | some stored => rfl

theorem not_expired {afterSeq : ℕ} (h : (c.readAfter getId localeLE afterSeq).mode = .changes) :
    ¬ (afterSeq < c.expiredThroughSeq ∨ c.headSeq < afterSeq) := by
  intro hexpired
  rw [readAfter, if_pos hexpired] at h
  cases h

theorem mem_removals {afterSeq : ℕ} (hmode : (c.readAfter getId localeLE afterSeq).mode = .changes)
    (id : String) :
    id ∈ (c.readAfter getId localeLE afterSeq).removals.map VersionedRemoval.id ↔
      ∃ seq, c.tombstonesById.get id = some seq ∧ afterSeq < seq := by
  rw [readAfter, if_neg (not_expired hmode)]
  simp only [List.mem_map, List.mem_mergeSort, List.mem_filter, decide_eq_true_eq]
  constructor
  · rintro ⟨removal, ⟨⟨entry, hentry, rfl⟩, hlt⟩, rfl⟩
    exact ⟨entry.2, get_eq_some_iff.mpr hentry, hlt⟩
  · rintro ⟨seq, hget, hlt⟩
    exact ⟨{ id, seq }, ⟨⟨(id, seq), get_eq_some_iff.mp hget, rfl⟩, hlt⟩, rfl⟩

/-- Changes bring a client from the state at its cursor to the current one. -/
theorem applyRead_changes (h : c.Sound getId) {seq : ℕ} (hsince : Since seq old c)
    (hmode : (c.readAfter getId localeLE seq).mode = .changes) :
    applyRead getId (c.readAfter getId localeLE seq) old = c.state := by
  obtain ⟨hseq, hids⟩ := hsince
  funext id
  have hremovals := mem_removals hmode id
  rw [applyRead, removals_apply]
  have hexpired := not_expired hmode
  have hvalues : (c.readAfter getId localeLE seq).values =
      (c.sortedValues getId localeLE).filter fun entry => seq < entry.seq := by
    rw [readAfter, if_neg hexpired]
  rw [hvalues, upserts_values localeLE h, state]
  have hid := hids id
  cases hget : c.valuesById.get id with
  | some stored =>
    rw [hget] at hid
    have hnot : id ∉ (c.readAfter getId localeLE seq).removals.map VersionedRemoval.id := by
      intro hmem
      obtain ⟨removedAt, hremoved, -⟩ := hremovals.mp hmem
      rw [h.apart id stored hget] at hremoved
      cases hremoved
    rw [if_neg hnot]
    dsimp only
    by_cases hlt : seq < stored.seq
    · rw [if_pos (by simpa using hlt)]
      rfl
    · rw [if_neg (by simpa using hlt)]
      exact hid.resolve_left hlt
  | none =>
    rw [hget] at hid
    by_cases hmem : id ∈ (c.readAfter getId localeLE seq).removals.map VersionedRemoval.id
    · rw [if_pos hmem]
      rfl
    · rw [if_neg hmem]
      have hle : c.expiredThroughSeq ≤ seq := by omega
      rcases hid hle with hremoved | hnone
      · exact absurd (hremovals.mpr hremoved) hmem
      · exact hnone

theorem run_append (c : VersionedCollection α) (before after : List (CollectionOp α)) :
    c.run getId fingerprint (before ++ after) =
      (c.run getId fingerprint before).run getId fingerprint after :=
  List.foldl_append

/-- What a client that read `c` is sent when the collection has become `c'`: changes that
bring it to the current state, or all of it where a tombstone that it needs was dropped. -/
structure CatchesUp (getId : α → String) (localeLE : String → String → Bool)
    (c c' : VersionedCollection α) : Prop where
  changes : (c'.readAfter getId localeLE c.headSeq).mode = .changes →
    applyRead getId (c'.readAfter getId localeLE c.headSeq) c.state = c'.state
  expired : ∀ removal ∈ c'.dropped, c.headSeq < removal.seq →
    (c'.readAfter getId localeLE c.headSeq).reason = some .cursorExpired ∧
      (c'.readAfter getId localeLE c.headSeq).mode = .snapshot
  snapshot : (c'.readAfter getId localeLE c.headSeq).mode = .snapshot →
    applyRead getId (c'.readAfter getId localeLE c.headSeq) (fun _ => none) = c'.state

theorem Sound.catchesUp {c' : VersionedCollection α} (h : c'.Sound getId)
    (hsince : Since c.headSeq c.state c') : CatchesUp getId localeLE c c' where
  changes := applyRead_changes h hsince
  expired := by
    intro removal hmem hlt
    have hle := h.expired removal hmem
    rw [readAfter, if_pos (.inl (by omega))]
    exact ⟨rfl, rfl⟩
  snapshot := by
    intro hmode
    by_cases hexpired : c.headSeq < c'.expiredThroughSeq ∨ c'.headSeq < c.headSeq
    · rw [readAfter, if_pos hexpired]
      exact applyRead_snapshot h .cursorExpired
    · rw [readAfter, if_neg hexpired] at hmode
      cases hmode

/-- Whatever happens before and after a client has read the collection, it catches up; every
published number is higher than those before, and the tombstones stay within their bound. -/
theorem catchesUp_of_run (getId fingerprint : α → String) (localeLE : String → String → Bool)
    (maxTombstones : ℕ) (before after : List (CollectionOp α)) :
    CatchesUp getId localeLE ((start maxTombstones).run getId fingerprint before)
        ((start maxTombstones).run getId fingerprint (before ++ after)) ∧
      ((((start maxTombstones).run getId fingerprint (before ++ after)).published.map
        PublishedChange.seq).Pairwise (· < ·)) ∧
      ((start maxTombstones).run getId fingerprint (before ++ after)).tombstonesById.size ≤
        maxTombstones := by
  obtain ⟨hbefore, -, hmax⟩ := run_spec fingerprint 0 (fun _ => none) before
    (start maxTombstones) (sound_start getId maxTombstones)
  obtain ⟨hafter, hsince, hmax'⟩ := run_spec fingerprint
    ((start maxTombstones).run getId fingerprint before).headSeq
    ((start maxTombstones).run getId fingerprint before).state after _ hbefore
  rw [run_append]
  refine ⟨hafter.catchesUp (hsince (since_now _)), hafter.increasing, ?_⟩
  exact hafter.bounded.trans (hmax'.trans hmax).le

end VersionedCollection

end Orqara.Directory
