import Orqara.Labels.LabelPublications
import Orqara.Library.KeyedUpdates

/-!
# Catching up with the label catalog

What a client is sent after a cursor is the net change of the history since then, which is exact
as long as no label that the client has is upserted and then removed.
-/

namespace Orqara.Labels

open NetChanges WorkspaceLabelService OrderedMap HostWorkspaceLabelReplica Option

variable {ρ : Type} {toLowerCase : String → String}

/-! ## Missed changes -/

namespace MissedChanges

/-- The net change of a key. -/
def net (missed : MissedChanges) (key : String) : Net WorkspaceLabelDefinition :=
  match missed.upserts.get key with
  | some label => .set label
  | none => if (missed.removals.get key).isSome then .unset else .none

/-- No key is both upserted and removed, and every entry is under its own key. -/
structure Sound (toLowerCase : String → String) (missed : MissedChanges) : Prop where
  disjoint : ∀ key, (missed.upserts.get key).isSome → missed.removals.get key = none
  upsertKey : ∀ key label, missed.upserts.get key = some label →
    workspaceLabelKey toLowerCase label.name = key
  removalKey : ∀ key removal, missed.removals.get key = some removal →
    workspaceLabelKey toLowerCase removal.name = key

variable {missed : MissedChanges} {key : String}

theorem sound_empty : Sound toLowerCase .empty where
  disjoint := fun _ h => by cases h
  upsertKey := fun _ _ h => by cases h
  removalKey := fun _ _ h => by cases h

theorem net_eq_set {label : WorkspaceLabelDefinition} (h : missed.upserts.get key = some label) :
    missed.net key = .set label := by
  rw [net, h]

theorem net_eq_unset (h : missed.upserts.get key = none)
    (hremoved : (missed.removals.get key).isSome) : missed.net key = .unset := by
  rw [net, h]
  exact if_pos hremoved

theorem net_eq_none (h : missed.upserts.get key = none)
    (hremoved : missed.removals.get key = none) : missed.net key = .none := by
  rw [net, h, hremoved]
  rfl

theorem net_congr {missed' : MissedChanges}
    (hupserts : missed'.upserts.get key = missed.upserts.get key)
    (hremovals : missed'.removals.get key = missed.removals.get key) :
    missed'.net key = missed.net key := by
  rw [net, net, hupserts, hremovals]

theorem drop_removals_ne {key' : String} (h : key' ≠ key) (removal : LabelRemoval) :
    (missed.drop key removal).removals.get key' = missed.removals.get key' := by
  unfold drop
  by_cases hcreated : (missed.upserts.get key).isSome = true
  · rw [if_pos hcreated]
  · rw [if_neg hcreated, get_set_ne h]

section

variable (h : Sound toLowerCase missed)
include h

theorem net_drop (removal : LabelRemoval) :
    (missed.drop key removal).net =
      Function.update missed.net key ((missed.net key).step none) := by
  funext key'
  by_cases hkey : key' = key
  · rw [hkey, Function.update_self]
    have hupserts : (missed.drop key removal).upserts.get key = none := get_delete_self
    cases hupsert : missed.upserts.get key with
    | some label =>
      rw [net_eq_set hupsert]
      apply net_eq_none hupserts
      rw [drop, hupsert]
      exact h.disjoint key (by rw [hupsert]; rfl)
    | none =>
      rw [net_eq_unset hupserts (by simp [drop, hupsert]), net, hupsert]
      by_cases hremoved : (missed.removals.get key).isSome = true
      · simp only [hremoved, if_true]
        rfl
      · simp only [hremoved, Bool.false_eq_true, if_false]
        rfl
  · rw [Function.update_of_ne hkey]
    exact net_congr (get_delete_ne hkey) (drop_removals_ne hkey removal)

omit h in
theorem net_put (missed : MissedChanges) (key : String) (label : WorkspaceLabelDefinition) :
    (missed.put key label).net =
      Function.update missed.net key ((missed.net key).step (some label)) := by
  funext key'
  by_cases hkey : key' = key
  · rw [hkey, Function.update_self, Net.step_some]
    exact net_eq_set get_set_self
  · rw [Function.update_of_ne hkey]
    exact net_congr (get_set_ne hkey) (get_delete_ne hkey)

theorem Sound.drop (removal : LabelRemoval) (hkey : workspaceLabelKey toLowerCase removal.name = key) :
    Sound toLowerCase (missed.drop key removal) := by
  constructor
  · intro key' hupsert
    by_cases heq : key' = key
    · rw [heq, MissedChanges.drop, get_delete_self] at hupsert
      cases hupsert
    · rw [drop_removals_ne heq]
      rw [MissedChanges.drop, get_delete_ne heq] at hupsert
      exact h.disjoint key' hupsert
  · intro key' label hupsert
    by_cases heq : key' = key
    · rw [heq, MissedChanges.drop, get_delete_self] at hupsert
      cases hupsert
    · rw [MissedChanges.drop, get_delete_ne heq] at hupsert
      exact h.upsertKey key' label hupsert
  · intro key' removed hremoved
    by_cases heq : key' = key
    · rw [heq] at hremoved ⊢
      unfold MissedChanges.drop at hremoved
      by_cases hcreated : (missed.upserts.get key).isSome = true
      · rw [if_pos hcreated] at hremoved
        exact h.removalKey key removed hremoved
      · rw [if_neg hcreated, get_set_self] at hremoved
        rw [← some.inj hremoved]
        exact hkey
    · rw [drop_removals_ne heq] at hremoved
      exact h.removalKey key' removed hremoved

theorem Sound.put (label : WorkspaceLabelDefinition)
    (hkey : workspaceLabelKey toLowerCase label.name = key) :
    Sound toLowerCase (missed.put key label) := by
  constructor
  · intro key' hupsert
    by_cases heq : key' = key
    · rw [heq]
      exact get_delete_self
    · rw [MissedChanges.put, get_set_ne heq] at hupsert
      rw [MissedChanges.put, get_delete_ne heq]
      exact h.disjoint key' hupsert
  · intro key' found hupsert
    rw [MissedChanges.put, get_set] at hupsert
    by_cases heq : key' = key
    · rw [if_pos heq] at hupsert
      rw [heq, ← some.inj hupsert]
      exact hkey
    · rw [if_neg heq] at hupsert
      exact h.upsertKey key' found hupsert
  · intro key' removed hremoved
    rw [MissedChanges.put, get_delete] at hremoved
    by_cases heq : key' = key
    · rw [if_pos heq] at hremoved
      cases hremoved
    · rw [if_neg heq] at hremoved
      exact h.removalKey key' removed hremoved

/-- What a history adds to the net change of every key. -/
def netFrom (net : String → Net WorkspaceLabelDefinition)
    (edits : List (String × Option WorkspaceLabelDefinition)) :
    String → Net WorkspaceLabelDefinition :=
  edits.foldl (fun net edit => Function.update net edit.1 ((net edit.1).step edit.2)) net

omit h in
theorem add_upsert (missed : MissedChanges) (seq : ℕ) (label : WorkspaceLabelDefinition)
    (previousName : Option String) :
    missed.add toLowerCase { seq, change := .upsert label previousName } =
      ((previousName.filter (· ≠ "")).elim missed fun name =>
        missed.drop (toLowerCase name) { name, seq }).put (toLowerCase label.name) label := rfl

/-- An entry of the journal adds the edits of its change. -/
theorem add_spec (entry : SequencedChange) (hnames : ∀ name ∈ entry.change.names, Normalized name) :
    Sound toLowerCase (missed.add toLowerCase entry) ∧
      (missed.add toLowerCase entry).net =
        netFrom missed.net (entry.change.edits toLowerCase) := by
  rcases entry with ⟨seq, change⟩
  cases change with
  | remove name =>
    have hkey := (hnames name (List.mem_singleton_self name)).key toLowerCase
    show Sound toLowerCase (missed.drop (toLowerCase name) { name, seq }) ∧
      (missed.drop (toLowerCase name) { name, seq }).net = _
    rw [← hkey]
    exact ⟨h.drop _ rfl, net_drop h _⟩
  | upsert label previousName =>
    have hkey := (hnames label.name List.mem_cons_self).key toLowerCase
    rw [add_upsert, WorkspaceLabelChange.edits, ← hkey]
    cases hprevious : previousName.filter (· ≠ "") with
    | none => exact ⟨h.put label rfl, net_put missed _ label⟩
    | some name =>
      have hname : name ∈ previousName.toList := by
        rw [mem_toList]
        exact (filter_eq_some_iff.mp hprevious).1
      have hpreviousKey := (hnames name (List.mem_cons_of_mem _ hname)).key toLowerCase
      have hdrop := h.drop { name, seq } rfl
      show Sound toLowerCase ((missed.drop (toLowerCase name) { name, seq }).put _ label) ∧
        ((missed.drop (toLowerCase name) { name, seq }).put _ label).net = _
      rw [← hpreviousKey]
      refine ⟨hdrop.put label rfl, ?_⟩
      rw [net_put, net_drop h]
      rfl

end

theorem foldl_add_spec (toLowerCase : String → String) (entries : List SequencedChange)
    (hnames : ∀ entry ∈ entries, ∀ name ∈ entry.change.names, Normalized name) :
    Sound toLowerCase (entries.foldl (MissedChanges.add toLowerCase) .empty) ∧
      (entries.foldl (MissedChanges.add toLowerCase) .empty).net =
        NetChanges.net (entries.flatMap fun entry => entry.change.edits toLowerCase) := by
  induction entries using List.reverseRecOn with
  | nil => exact ⟨sound_empty, rfl⟩
  | append_singleton entries entry ih =>
    obtain ⟨hsound, hnet⟩ := ih fun entry hentry => hnames entry (List.mem_append_left _ hentry)
    rw [List.foldl_append, List.flatMap_append]
    obtain ⟨hsound', hnet'⟩ := add_spec hsound entry
      (hnames entry (List.mem_append_right _ (List.mem_singleton_self entry)))
    refine ⟨hsound', ?_⟩
    show (MissedChanges.add toLowerCase _ entry).net = _
    rw [hnet', hnet, NetChanges.net, NetChanges.net, List.foldl_append, List.flatMap_singleton]
    rfl

end MissedChanges

/-! ## The client's copy -/

namespace HostWorkspaceLabelReplica

theorem get_foldl_setLabel (labels : List WorkspaceLabelDefinition)
    (m : OrderedMap String WorkspaceLabelDefinition) :
    (labels.foldl (setLabel toLowerCase) m).get =
      KeyedUpdates.upserts (fun label => workspaceLabelKey toLowerCase label.name) labels m.get := by
  unfold KeyedUpdates.upserts
  induction labels generalizing m with
  | nil => rfl
  | cons label labels ih =>
    rw [List.foldl_cons, List.foldl_cons, ih]
    congr 1
    funext key
    by_cases hkey : key = workspaceLabelKey toLowerCase label.name
    · rw [hkey, Function.update_self]
      exact get_set_self
    · rw [Function.update_of_ne hkey]
      exact get_set_ne hkey

theorem get_foldl_deleteLabel (names : List String)
    (m : OrderedMap String WorkspaceLabelDefinition) :
    (names.foldl (deleteLabel toLowerCase) m).get =
      KeyedUpdates.removals (names.map (workspaceLabelKey toLowerCase)) m.get := by
  unfold KeyedUpdates.removals
  induction names generalizing m with
  | nil => rfl
  | cons name names ih =>
    rw [List.foldl_cons, List.map_cons, List.foldl_cons, ih]
    congr 1
    funext key
    by_cases hkey : key = workspaceLabelKey toLowerCase name
    · rw [hkey, Function.update_self]
      exact get_delete_self
    · rw [Function.update_of_ne hkey]
      exact get_delete_ne hkey

section

variable (m : OrderedMap String WorkspaceLabelDefinition)

theorem get_setLabel (label : WorkspaceLabelDefinition) :
    (setLabel toLowerCase m label).get =
      Function.update m.get (workspaceLabelKey toLowerCase label.name) (some label) :=
  get_foldl_setLabel [label] m

theorem get_deleteLabel (name : String) :
    (deleteLabel toLowerCase m name).get =
      Function.update m.get (workspaceLabelKey toLowerCase name) none :=
  get_foldl_deleteLabel [name] m

theorem get_applyChange (change : WorkspaceLabelChange) :
    (applyChange toLowerCase m change).get = values (change.edits toLowerCase) m.get := by
  cases change with
  | remove name => exact get_deleteLabel m name
  | upsert label previousName =>
    rw [applyChange, WorkspaceLabelChange.edits, get_setLabel]
    cases previousName.filter (· ≠ "") with
    | none => rfl
    | some name =>
      rw [elim_some, get_deleteLabel]
      rfl

end

/-- Labels of distinct keys come in over what was there. -/
theorem upserts_catalog {labels : List WorkspaceLabelDefinition}
    (hnodup : (catalogKeys toLowerCase labels).Nodup)
    (m : String → Option WorkspaceLabelDefinition) (key : String) :
    KeyedUpdates.upserts (fun label => workspaceLabelKey toLowerCase label.name) labels m key =
      (catalogMap toLowerCase labels key).or (m key) := by
  cases hlabel : catalogMap toLowerCase labels key with
  | none =>
    rw [none_or]
    apply KeyedUpdates.upserts_of_forall_ne
    intro label hmem heq
    exact catalogMap_eq_none_iff.mp hlabel (List.mem_map.mpr ⟨label, hmem, heq⟩)
  | some label =>
    obtain ⟨hmem, rfl⟩ := (catalogMap_eq_some_iff hnodup).mp hlabel
    rw [some_or]
    apply KeyedUpdates.upserts_of_mem hmem
    intro other hother heq
    exact eq_of_key_eq hnodup hother hmem heq

end HostWorkspaceLabelReplica

namespace MissedChanges

variable {missed : MissedChanges}

section

variable (h : Sound toLowerCase missed)
include h

theorem catalogKeys_upserts :
    catalogKeys toLowerCase (missed.upserts.entries.map Prod.snd) = missed.upserts.keys := by
  unfold catalogKeys keys
  rw [List.map_map]
  apply List.map_congr_left
  rintro ⟨key, label⟩ hentry
  exact h.upsertKey key label (get_eq_some_iff.mpr hentry)

theorem keys_removals :
    ((missed.removals.entries.map Prod.snd).map (·.name)).map (workspaceLabelKey toLowerCase) =
      missed.removals.keys := by
  unfold keys
  rw [List.map_map, List.map_map]
  apply List.map_congr_left
  rintro ⟨key, removal⟩ hentry
  exact h.removalKey key removal (get_eq_some_iff.mpr hentry)

theorem catalogMap_upserts (key : String) :
    catalogMap toLowerCase (missed.upserts.entries.map Prod.snd) key = missed.upserts.get key := by
  have hnodup : (catalogKeys toLowerCase (missed.upserts.entries.map Prod.snd)).Nodup := by
    rw [catalogKeys_upserts h]
    exact missed.upserts.nodup_keys
  ext label
  rw [catalogMap_eq_some_iff hnodup]
  constructor
  · rintro ⟨hmem, rfl⟩
    obtain ⟨⟨key, label'⟩, hentry, rfl⟩ := List.mem_map.mp hmem
    have hget := get_eq_some_iff.mpr hentry
    rw [h.upsertKey key label' hget]
    exact hget
  · intro hget
    refine ⟨List.mem_map.mpr ⟨(key, label), get_eq_some_iff.mp hget, rfl⟩, ?_⟩
    exact h.upsertKey key label hget

/-- A client that is sent the missed changes applies the net change to every key. -/
theorem apply_missed (m : OrderedMap String WorkspaceLabelDefinition) (key : String) :
    ((missed.upserts.entries.map Prod.snd).foldl
      (setLabel toLowerCase)
      (((missed.removals.entries.map Prod.snd).map (·.name)).foldl
        (deleteLabel toLowerCase) m)).get key =
      (missed.net key).apply (m.get key) := by
  have hnodup : (catalogKeys toLowerCase (missed.upserts.entries.map Prod.snd)).Nodup := by
    rw [catalogKeys_upserts h]
    exact missed.upserts.nodup_keys
  rw [get_foldl_setLabel,
    upserts_catalog hnodup, catalogMap_upserts h,
    get_foldl_deleteLabel, KeyedUpdates.removals_apply, keys_removals h,
    net]
  cases hupsert : missed.upserts.get key with
  | some label => rfl
  | none =>
    rw [none_or]
    by_cases hremoved : (missed.removals.get key).isSome = true
    · rw [if_pos (mem_keys_iff.mpr hremoved), if_pos hremoved]
      rfl
    · rw [if_neg fun hmem => hremoved (mem_keys_iff.mp hmem), if_neg hremoved]
      rfl

end

end MissedChanges

/-! ## The journal -/

/-- Changes numbered from `seq` on. -/
def numbered (seq : ℕ) (changes : List WorkspaceLabelChange) : List SequencedChange :=
  (changes.zipIdx seq).map fun entry => { seq := entry.2, change := entry.1 }

theorem numbered_append (seq : ℕ) (changes changes' : List WorkspaceLabelChange) :
    numbered seq (changes ++ changes') =
      numbered seq changes ++ numbered (seq + changes.length) changes' := by
  unfold numbered
  rw [List.zipIdx_append, List.map_append]

@[simp] theorem length_numbered (seq : ℕ) (changes : List WorkspaceLabelChange) :
    (numbered seq changes).length = changes.length := by
  simp [numbered]

@[simp] theorem map_change_numbered (seq : ℕ) (changes : List WorkspaceLabelChange) :
    (numbered seq changes).map (·.change) = changes := by
  rw [numbered, List.map_map]
  exact List.zipIdx_map_fst seq changes

theorem seq_of_mem_numbered {seq : ℕ} {changes : List WorkspaceLabelChange}
    {entry : SequencedChange} (h : entry ∈ numbered seq changes) :
    seq ≤ entry.seq ∧ entry.seq < seq + changes.length ∧ entry.change ∈ changes := by
  obtain ⟨⟨change, index⟩, hmem, rfl⟩ := List.mem_map.mp h
  have hindex := List.le_snd_of_mem_zipIdx hmem
  have hlt := List.snd_lt_of_mem_zipIdx hmem
  refine ⟨hindex, ?_, List.fst_mem_of_mem_zipIdx hmem⟩
  show index < seq + changes.length
  omega

namespace WorkspaceLabelSequence

variable {sequence : WorkspaceLabelSequence} {published : List WorkspaceLabelChange}

/-- The journal is the end of everything that was published. -/
structure Journals (sequence : WorkspaceLabelSequence)
    (published : List WorkspaceLabelChange) : Prop where
  headSeq : sequence.headSeq = published.length
  journal : ∃ lost ≤ published.length, sequence.journal = (numbered 1 published).drop lost

theorem journals_start (generation : String) (journalLimit : ℕ) :
    Journals (start generation journalLimit) [] where
  headSeq := rfl
  journal := ⟨0, Nat.le_refl 0, rfl⟩

theorem Journals.publish (h : Journals sequence published) (change : WorkspaceLabelChange) :
    Journals (sequence.publish change) (published ++ [change]) := by
  obtain ⟨lost, hlost, hjournal⟩ := h.journal
  have hlength : (published ++ [change]).length = published.length + 1 := List.length_append
  have happended : sequence.journal ++ [{ seq := sequence.headSeq + 1, change }] =
      (numbered 1 (published ++ [change])).drop lost := by
    have hnext : 1 + published.length = sequence.headSeq + 1 := by
      rw [h.headSeq, Nat.add_comm]
    rw [numbered_append, hjournal, List.drop_append_of_le_length (by simpa using hlost), hnext]
    rfl
  refine ⟨?_, ?_⟩
  · show sequence.headSeq + 1 = _
    rw [hlength, h.headSeq]
  · rw [WorkspaceLabelSequence.publish, happended]
    by_cases hlong : ((numbered 1 (published ++ [change])).drop lost).length >
        sequence.journalLimit
    · refine ⟨lost + 1, by omega, ?_⟩
      simp only [hlong, if_true, List.tail_drop]
    · refine ⟨lost, by omega, ?_⟩
      simp only [hlong, if_false]

/-- A journal that reaches back to a cursor has all that was published since. -/
theorem Journals.filter_journal {earlier later : List WorkspaceLabelChange}
    (h : Journals sequence (earlier ++ later)) {cursor : WorkspaceLabelCursor}
    (hcursor : cursor.afterSeq = earlier.length)
    (hcan : sequence.canCatchUp (some cursor) = true) :
    (sequence.journal.filter fun entry =>
      (some cursor).any fun cursor => entry.seq > cursor.afterSeq) =
        numbered (earlier.length + 1) later := by
  obtain ⟨lost, hlost, hjournal⟩ := h.journal
  have hreach : sequence.oldestSeq ≤ earlier.length + 1 := by
    unfold canCatchUp at hcan
    simp only [any_some, Bool.and_eq_true, decide_eq_true_eq] at hcan
    rw [← hcursor]
    exact hcan.2
  have hlength : (earlier ++ later).length = earlier.length + later.length := List.length_append
  have hbefore : lost ≤ earlier.length := by
    unfold oldestSeq at hreach
    rw [hjournal, List.head?_drop] at hreach
    by_cases hempty : lost < (earlier ++ later).length
    · have hget : (numbered 1 (earlier ++ later))[lost]?.map (·.seq) = some (1 + lost) := by
        simp [numbered, List.getElem?_eq_getElem hempty]
      rw [hget, getD_some] at hreach
      omega
    · have hget : (numbered 1 (earlier ++ later))[lost]? = none := by
        rw [List.getElem?_eq_none_iff, length_numbered]
        omega
      rw [hget, map_none, getD_none, h.headSeq] at hreach
      omega
  rw [hjournal, numbered_append, List.drop_append_of_le_length (by simpa using hbefore),
    List.filter_append, Nat.add_comm 1]
  have hnone : (((numbered 1 earlier).drop lost).filter fun entry =>
      (some cursor).any fun cursor => entry.seq > cursor.afterSeq) = [] := by
    apply List.filter_eq_nil_iff.mpr
    intro entry hentry
    have hseq := seq_of_mem_numbered (List.mem_of_mem_drop hentry)
    simp only [any_some, decide_eq_true_eq, hcursor]
    omega
  have hall : ((numbered (earlier.length + 1) later).filter fun entry =>
      (some cursor).any fun cursor => entry.seq > cursor.afterSeq) =
        numbered (earlier.length + 1) later := by
    apply List.filter_eq_self.mpr
    intro entry hentry
    have hseq := seq_of_mem_numbered hentry
    simp only [any_some, decide_eq_true_eq, hcursor]
    omega
  rw [hnone, hall, List.nil_append]

end WorkspaceLabelSequence

/-! ## Runs of the service -/

namespace WorkspaceLabelService

variable {service : WorkspaceLabelService ρ} {published : List WorkspaceLabelChange}

/-- The catalog is as the service leaves it, and the journal ends what was published. -/
structure Ready (toLowerCase : String → String) (service : WorkspaceLabelService ρ)
    (published : List WorkspaceLabelChange) : Prop where
  consistent : Consistent toLowerCase service.state
  named : Named service.state.catalog
  journals : service.sequence.Journals published

/-- The changes of updates, as edits of the catalog. -/
def editsOf (toLowerCase : String → String) (updates : List WorkspaceLabelUpdate) :
    List (String × Option WorkspaceLabelDefinition) :=
  updates.flatMap fun update => update.change.edits toLowerCase

/-- What the updates of a run say about it. -/
structure Follows (toLowerCase : String → String) (service service' : WorkspaceLabelService ρ)
    (updates : List WorkspaceLabelUpdate) : Prop where
  generation : service'.sequence.generation = service.sequence.generation
  headSeq : service'.sequence.headSeq = service.sequence.headSeq + updates.length
  names : ∀ update ∈ updates, ∀ name ∈ update.change.names, Normalized name
  valid : Valid (catalogMap toLowerCase service.state.catalog) (editsOf toLowerCase updates)
  values : values (editsOf toLowerCase updates)
    (catalogMap toLowerCase service.state.catalog) =
      catalogMap toLowerCase service'.state.catalog

theorem step_spec (h : Ready toLowerCase service published) (op : LabelOp ρ) :
    Ready toLowerCase (service.step toLowerCase op).1
        (published ++ (service.step toLowerCase op).2.toList.map (·.change)) ∧
      Follows toLowerCase service (service.step toLowerCase op).1
        (service.step toLowerCase op).2.toList ∧
      ∀ update ∈ (service.step toLowerCase op).2,
        update.generation = service.sequence.generation ∧
          update.seq = service.sequence.headSeq + 1 := by
  have hpublishes := publishes_step h.consistent h.named op
  have hconsistent := h.consistent.step op
  cases hchange : (service.state.step toLowerCase op).2.published with
  | none =>
    rw [hchange] at hpublishes
    have hstep : service.step toLowerCase op =
        ({ state := (service.state.step toLowerCase op).1, sequence := service.sequence }, none) := by
      simp only [step, hchange, elim_none, map_none]
    rw [hstep]
    refine ⟨⟨hconsistent, hpublishes.named, ?_⟩, ⟨rfl, rfl, ?_, trivial, ?_⟩, ?_⟩
    · simpa using h.journals
    · intro update hupdate
      cases hupdate
    · exact hpublishes.values
    · intro update hupdate
      cases hupdate
  | some change =>
    rw [hchange] at hpublishes
    have hstep : service.step toLowerCase op =
        ({ state := (service.state.step toLowerCase op).1
           sequence := service.sequence.publish change },
         some
          { change := change
            generation := service.sequence.generation
            seq := service.sequence.headSeq + 1 }) := by
      simp only [step, hchange, elim_some, map_some]
    rw [hstep]
    have hedits : ∀ update : WorkspaceLabelUpdate,
        editsOf toLowerCase [update] = update.change.edits toLowerCase :=
      fun update => List.flatMap_singleton ..
    refine ⟨⟨hconsistent, hpublishes.named, h.journals.publish change⟩,
      ⟨rfl, rfl, ?_, ?_, ?_⟩, ?_⟩
    · intro update hupdate
      rw [List.mem_singleton.mp hupdate]
      exact hpublishes.names change rfl
    · rw [toList_some, hedits]
      exact hpublishes.valid
    · rw [toList_some, hedits]
      exact hpublishes.values
    · intro update hupdate
      cases hupdate
      exact ⟨rfl, rfl⟩

theorem Follows.trans {service' service'' : WorkspaceLabelService ρ}
    {updates updates' : List WorkspaceLabelUpdate}
    (h : Follows toLowerCase service service' updates)
    (h' : Follows toLowerCase service' service'' updates') :
    Follows toLowerCase service service'' (updates ++ updates') := by
  have hedits : editsOf toLowerCase (updates ++ updates') =
      editsOf toLowerCase updates ++ editsOf toLowerCase updates' := List.flatMap_append
  refine ⟨h'.generation.trans h.generation, ?_, ?_, ?_, ?_⟩
  · rw [h'.headSeq, h.headSeq, List.length_append, Nat.add_assoc]
  · intro update hupdate
    rcases List.mem_append.mp hupdate with hupdate | hupdate
    · exact h.names update hupdate
    · exact h'.names update hupdate
  · rw [hedits, valid_append, h.values]
    exact ⟨h.valid, h'.valid⟩
  · rw [hedits, values_append, h.values, h'.values]

theorem run_spec (h : Ready toLowerCase service published) (ops : List (LabelOp ρ)) :
    Ready toLowerCase (service.run toLowerCase ops).1
        (published ++ (service.run toLowerCase ops).2.map (·.change)) ∧
      Follows toLowerCase service (service.run toLowerCase ops).1
        (service.run toLowerCase ops).2 := by
  induction ops generalizing service published with
  | nil =>
    refine ⟨⟨h.consistent, h.named, ?_⟩, ⟨rfl, rfl, ?_, trivial, rfl⟩⟩
    · simpa [run] using h.journals
    · intro update hupdate
      cases hupdate
  | cons op ops ih =>
    obtain ⟨hready, hfollows, -⟩ := step_spec h op
    obtain ⟨hready', hfollows'⟩ := ih hready
    rw [List.append_assoc, ← List.map_append] at hready'
    exact ⟨hready', hfollows.trans hfollows'⟩

end WorkspaceLabelService

/-! ## Clients -/

/-- A copy that is exactly the catalog of the service, up to its last change. -/
structure HostWorkspaceLabelReplica.Holds (toLowerCase : String → String)
    (replica : HostWorkspaceLabelReplica) (service : WorkspaceLabelService ρ) : Prop where
  labels : ∀ key, replica.labels.get key = catalogMap toLowerCase service.state.catalog key
  cursor : replica.cursor =
    some { generation := service.sequence.generation, afterSeq := service.sequence.headSeq }

/-- A change that gives a key a label. -/
def WorkspaceLabelChange.Upserts (toLowerCase : String → String) (key : String) :
    WorkspaceLabelChange → Prop
  | .remove _ => False
  | .upsert label _ => workspaceLabelKey toLowerCase label.name = key

section Clients

variable {service : WorkspaceLabelService ρ} {published : List WorkspaceLabelChange}
  {replica : HostWorkspaceLabelReplica}

section

variable (h : service.Ready toLowerCase published) {updates : List WorkspaceLabelUpdate}
include h

/-- A snapshot is exact. -/
theorem holds_of_snapshot {cursor : Option WorkspaceLabelCursor}
    (hcan : service.sequence.canCatchUp cursor = false) :
    (replica.applyList toLowerCase (service.subscribe toLowerCase cursor)).Holds toLowerCase
      service := by
  have hanswer : service.subscribe toLowerCase cursor =
      { labels := service.state.catalog, mode := .snapshot
        generation := service.sequence.generation
        headSeq := service.sequence.headSeq, removals := [] } := by
    simp only [subscribe, WorkspaceLabelSequence.synchronize, hcan,
      Bool.false_eq_true, if_false]
  rw [hanswer]
  refine ⟨fun key => ?_, rfl⟩
  show (service.state.catalog.foldl (setLabel toLowerCase) ∅).get key = _
  rw [get_foldl_setLabel,
    upserts_catalog h.consistent.keysNodup, get_empty,
    or_none]

omit h in
/-- What a client makes of the changes it is sent is the net change of every key. -/
theorem get_applyList_changes (replica : HostWorkspaceLabelReplica)
    (h : service.Ready toLowerCase (published ++ updates.map (·.change)))
    (hnames : ∀ update ∈ updates, ∀ name ∈ update.change.names, Normalized name)
    {cursor : WorkspaceLabelCursor} (hcursor : cursor.afterSeq = published.length)
    (hcan : service.sequence.canCatchUp (some cursor) = true) (key : String) :
    (replica.applyList toLowerCase
      (service.subscribe toLowerCase (some cursor))).labels.get key =
      (net (editsOf toLowerCase updates) key).apply
        (replica.labels.get key) := by
  have hentries := h.journals.filter_journal hcursor hcan
  obtain ⟨hsound, hnet⟩ := MissedChanges.foldl_add_spec toLowerCase
    (numbered (published.length + 1) (updates.map (·.change))) fun entry hentry => by
      obtain ⟨update, hupdate, heq⟩ := List.mem_map.mp (seq_of_mem_numbered hentry).2.2
      rw [← heq]
      exact hnames update hupdate
  have hedits : (numbered (published.length + 1) (updates.map (·.change))).flatMap
      (fun entry => entry.change.edits toLowerCase) =
        editsOf toLowerCase updates := by
    rw [← List.flatMap_map (fun entry : SequencedChange => entry.change)
      (WorkspaceLabelChange.edits toLowerCase), map_change_numbered, List.flatMap_map]
    rfl
  rw [hedits] at hnet
  rw [← hnet, ← MissedChanges.apply_missed hsound]
  simp only [subscribe, WorkspaceLabelSequence.synchronize, hcan, if_true,
    hentries]
  rfl

omit h in
theorem mem_editsOf_iff {key : String} :
    (∃ label, (key, some label) ∈ editsOf toLowerCase updates) ↔
      ∃ update ∈ updates, update.change.Upserts toLowerCase key := by
  constructor
  · rintro ⟨label, hmem⟩
    obtain ⟨update, hupdate, hedit⟩ := List.mem_flatMap.mp hmem
    refine ⟨update, hupdate, ?_⟩
    cases hchange : update.change with
    | remove name =>
      rw [hchange] at hedit
      cases List.mem_singleton.mp hedit
    | upsert label' previousName =>
      rw [hchange] at hedit
      rcases List.mem_append.mp hedit with hedit | hedit
      · obtain ⟨name, -, heq⟩ := List.mem_map.mp hedit
        cases heq
      · cases List.mem_singleton.mp hedit
        rfl
  · rintro ⟨update, hupdate, hupserts⟩
    cases hchange : update.change with
    | remove name =>
      rw [hchange] at hupserts
      cases hupserts
    | upsert label previousName =>
      rw [hchange] at hupserts
      refine ⟨label, List.mem_flatMap.mpr ⟨update, hupdate, ?_⟩⟩
      rw [hchange, ← show workspaceLabelKey toLowerCase label.name = key from hupserts]
      exact List.mem_append_right _ (List.mem_singleton_self _)

section

variable (hholds : replica.Holds toLowerCase service)
include hholds

/-- A client that applies the next update has the next catalog. -/
theorem holds_applyUpdate (op : LabelOp ρ) :
    ((service.step toLowerCase op).2.toList.foldl
      (fun replica update => (replica.applyUpdate toLowerCase update).1) replica).Holds toLowerCase
        (service.step toLowerCase op).1 := by
  obtain ⟨-, hfollows, hnumber⟩ := step_spec h op
  have hmap := hfollows.values
  cases hupdate : (service.step toLowerCase op).2 with
  | none =>
    rw [hupdate] at hfollows hmap
    refine ⟨fun key => ?_, ?_⟩
    · rw [← hmap]
      exact hholds.labels key
    · rw [hfollows.generation, hfollows.headSeq]
      exact hholds.cursor
  | some update =>
    rw [hupdate] at hfollows hmap
    obtain ⟨hgeneration, hseq⟩ := hnumber update hupdate
    have hnext : (replica.cursor.any fun cursor =>
        update.generation = cursor.generation && update.seq = cursor.afterSeq + 1) = true := by
      simp [hholds.cursor, hgeneration, hseq]
    rw [toList_some, List.foldl_cons, List.foldl_nil,
      applyUpdate, if_pos hnext]
    refine ⟨fun key => ?_, ?_⟩
    · have hlabels : replica.labels.get = catalogMap toLowerCase service.state.catalog :=
        funext hholds.labels
      have hedits : editsOf toLowerCase [update] =
          update.change.edits toLowerCase := List.flatMap_singleton ..
      rw [← hmap, toList_some, hedits, ← hlabels]
      exact congrFun (get_applyChange _ _) key
    · rw [hfollows.generation, hfollows.headSeq, hgeneration, hseq]
      rfl

theorem holds_applyUpdates (ops : List (LabelOp ρ)) :
    ((service.run toLowerCase ops).2.foldl
      (fun replica update => (replica.applyUpdate toLowerCase update).1) replica).Holds toLowerCase
        (service.run toLowerCase ops).1 := by
  induction ops generalizing service published replica with
  | nil => exact hholds
  | cons op ops ih =>
    have hstep := ih (step_spec h op).1 (holds_applyUpdate h hholds op)
    rw [← List.foldl_append] at hstep
    exact hstep

/-- A client that is sent changes has the current catalog, unless it has a label that was
upserted since and then removed. -/
theorem holds_changes_iff (ops : List (LabelOp ρ))
    (hcan : (service.run toLowerCase ops).1.sequence.canCatchUp replica.cursor = true) :
    (replica.applyList toLowerCase
      ((service.run toLowerCase ops).1.subscribe toLowerCase replica.cursor)).Holds toLowerCase
        (service.run toLowerCase ops).1 ↔
      ∀ key, (catalogMap toLowerCase service.state.catalog key).isSome →
        catalogMap toLowerCase (service.run toLowerCase ops).1.state.catalog key = none →
          ∀ update ∈ (service.run toLowerCase ops).2, ¬ update.change.Upserts toLowerCase key := by
  obtain ⟨hready, hfollows⟩ := run_spec h ops
  have hcursor : replica.cursor =
      some { generation := service.sequence.generation, afterSeq := service.sequence.headSeq } :=
    hholds.cursor
  rw [hcursor] at hcan ⊢
  have hget := get_applyList_changes replica hready hfollows.names
    h.journals.headSeq hcan
  have hnet := apply_net_iff hfollows.valid
  rw [hfollows.values] at hnet
  constructor
  · intro happlied key hsome hgone update hupdate hupserts
    have hexact := happlied.labels key
    rw [hget, hholds.labels key] at hexact
    obtain ⟨label, hedit⟩ := mem_editsOf_iff.mpr ⟨update, hupdate, hupserts⟩
    exact (hnet key).mp hexact hsome hgone label hedit
  · intro hnever
    refine ⟨fun key => ?_, ?_⟩
    · rw [hget, hholds.labels key]
      apply (hnet key).mpr
      intro hsome hgone label hedit
      obtain ⟨update, hupdate, hupserts⟩ := mem_editsOf_iff.mp ⟨label, hedit⟩
      exact hnever key hsome hgone update hupdate hupserts
    · simp only [applyList, subscribe,
        WorkspaceLabelSequence.synchronize, hcan, if_true]

end

end

/-- The service that starts on what an earlier one has stored. -/
def WorkspaceLabelService.start (toLowerCase : String → String) (stored : List (LabelOp ρ))
    (generation : String) (journalLimit : ℕ) : WorkspaceLabelService ρ where
  state := LabelState.empty.run toLowerCase stored
  sequence := .start generation journalLimit

theorem named_run {state : LabelState ρ} (hstate : Consistent toLowerCase state)
    (hnamed : Named state.catalog) (ops : List (LabelOp ρ)) :
    Named (state.run toLowerCase ops).catalog := by
  unfold LabelState.run
  induction ops generalizing state with
  | nil => exact hnamed
  | cons op ops ih => exact ih (hstate.step op) (publishes_step hstate hnamed op).named

theorem ready_start (toLowerCase : String → String) (stored : List (LabelOp ρ))
    (generation : String) (journalLimit : ℕ) :
    (start toLowerCase stored generation journalLimit).Ready toLowerCase
      [] where
  consistent := consistent_run consistent_empty stored
  named := named_run consistent_empty nofun stored
  journals := WorkspaceLabelSequence.journals_start generation journalLimit

/-- A client that holds the catalog as of an earlier point comes to hold the current one, both by
the answer to its subscription and by the updates in between, if and only if the answer is a
snapshot, or no label that it holds and that is gone was upserted in between. -/
theorem catchUp_exact_iff (toLowerCase : String → String) (stored earlier later : List (LabelOp ρ))
    (generation : String) (journalLimit : ℕ) (replica : HostWorkspaceLabelReplica) :
    let before := ((start toLowerCase stored generation journalLimit).run
      toLowerCase earlier).1
    let now := (before.run toLowerCase later).1
    let updates := (before.run toLowerCase later).2
    replica.Holds toLowerCase before →
      ((replica.applyList toLowerCase (now.subscribe toLowerCase replica.cursor)).Holds
            toLowerCase now ∧
          (updates.foldl (fun replica update => (replica.applyUpdate toLowerCase update).1)
            replica).Holds toLowerCase now ↔
        now.sequence.canCatchUp replica.cursor = false ∨
          ∀ key, (catalogMap toLowerCase before.state.catalog key).isSome →
            catalogMap toLowerCase now.state.catalog key = none →
              ∀ update ∈ updates, ¬ update.change.Upserts toLowerCase key) := by
  intro before now updates hholds
  obtain ⟨hbefore, -⟩ := run_spec
    (ready_start toLowerCase stored generation journalLimit) earlier
  obtain ⟨hnow, -⟩ := run_spec hbefore later
  have hupdates := holds_applyUpdates hbefore hholds later
  by_cases hcan : now.sequence.canCatchUp replica.cursor = true
  · have hiff := holds_changes_iff hbefore hholds later hcan
    constructor
    · rintro ⟨hlist, -⟩
      exact Or.inr (hiff.mp hlist)
    · rintro (hsnapshot | hnever)
      · rw [hsnapshot] at hcan
        cases hcan
      · exact ⟨hiff.mpr hnever, hupdates⟩
  · have hsnapshot : now.sequence.canCatchUp replica.cursor = false := by simpa using hcan
    constructor
    · intro _
      exact Or.inl hsnapshot
    · intro _
      exact ⟨holds_of_snapshot hnow hsnapshot, hupdates⟩

/-- A workspace, and a label that it is given. -/
def urgentAssigned : List (LabelOp Unit) :=
  [.upsertWorkspace ⟨"w", none, "t0", ()⟩ true,
    .request (.setAssignment ⟨"w", ⟨"Urgent", .red⟩, true⟩) "t1" .persisted]

/-- The label is recoloured and then deleted. -/
def recolouredAndDeleted : List (LabelOp Unit) :=
  [.request (.update ⟨"Urgent", none, some .sky⟩) "t2" .persisted,
    .request (.delete "Urgent") "t3" .persisted]

/-- A client that holds the label keeps it when it catches up with the deletion. -/
theorem recoloured_and_deleted_stays :
    let before := ((start String.toLower [] "g" 256).run String.toLower
      urgentAssigned).1
    let now := (before.run String.toLower recolouredAndDeleted).1
    let replica := ({ labels := ∅, cursor := none } : HostWorkspaceLabelReplica).applyList
      String.toLower (before.subscribe String.toLower none)
    replica.Holds String.toLower before ∧
      ¬ (replica.applyList String.toLower
        (now.subscribe String.toLower replica.cursor)).Holds String.toLower now := by
  intro before now replica
  obtain ⟨hbefore, -⟩ := run_spec
    (ready_start String.toLower [] "g" 256) urgentAssigned
  refine ⟨holds_of_snapshot hbefore rfl, ?_⟩
  intro hholds
  have hkept : ((replica.applyList String.toLower
      (now.subscribe String.toLower replica.cursor)).labels.get "urgent").isSome = true := by
    decide +kernel
  have hgone : catalogMap String.toLower now.state.catalog "urgent" = none := by
    decide +kernel
  rw [hholds.labels, hgone] at hkept
  cases hkept

/-- A client catches up with a label that was recoloured. -/
theorem catchUp_exact_iff_recoloured :
    let before := ((start String.toLower [] "g" 256).run String.toLower
      urgentAssigned).1
    let now := (before.run String.toLower (recolouredAndDeleted.take 1)).1
    let replica := ({ labels := ∅, cursor := none } : HostWorkspaceLabelReplica).applyList
      String.toLower (before.subscribe String.toLower none)
    (replica.applyList String.toLower (now.subscribe String.toLower replica.cursor)).Holds
      String.toLower now := by
  intro before now replica
  obtain ⟨hbefore, -⟩ := run_spec
    (ready_start String.toLower [] "g" 256) urgentAssigned
  refine ((catchUp_exact_iff String.toLower [] urgentAssigned (recolouredAndDeleted.take 1) "g" 256
    replica (holds_of_snapshot hbefore rfl)).mpr (Or.inr ?_)).1
  have hsame : catalogKeys String.toLower now.state.catalog =
      catalogKeys String.toLower before.state.catalog := by
    decide +kernel
  intro key hsome hgone
  have hmissing := catalogMap_eq_none_iff.mp hgone
  rw [hsame, ← catalogMap_eq_none_iff] at hmissing
  rw [hmissing] at hsome
  cases hsome

end Clients

end Orqara.Labels
