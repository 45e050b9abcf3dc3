import Orqara.Archiving.ArchiveCascade

/-!
# What a mutation knows

A record is archived for good, and an archived record keeps its label. So what a mutation has read of
other agents stays true in one direction: a child that was archived or detached is no open child any
more. Of its own agent it knows more, since no other mutation of the agent is under way.
-/

namespace Orqara.Archiving

variable {ι : Type*}

/-- The marking of a record, if it has come to that. -/
def Stage.mark : Stage ι → Option ℕ
  | marked mark _ | listing mark | cascading mark _ _ | getting mark _ _ _ | queueing mark _ _ _
  | awaiting mark _ _ _ _ | settled (.archived mark) => some mark
  | _ => none

def Mutation.mark (mutation : Mutation ι) : Option ℕ := mutation.stage.mark

/-- What becomes of a record. -/
structure Record.Follows (record' record : Record ι) : Prop where
  parent : record'.parent = record.parent ∨ record'.parent = none ∧ record.archivedAt = none
  archived : record.archivedAt.isSome → record'.archivedAt.isSome

theorem Record.Follows.refl (record : Record ι) : record.Follows record := ⟨Or.inl rfl, fun harchived => harchived⟩

theorem Record.Follows.trans {record record' record'' : Record ι} (h' : record''.Follows record')
    (h : record'.Follows record) : record''.Follows record := by
  refine ⟨?_, fun harchived => h'.archived (h.archived harchived)⟩
  rcases h'.parent with hsame | ⟨hnone, hopen⟩
  · rw [hsame]
    exact h.parent
  · right
    refine ⟨hnone, ?_⟩
    by_contra harchived
    have := h.archived (Option.isSome_iff_ne_none.mpr harchived)
    rw [hopen] at this
    contradiction

namespace State

variable [DecidableEq ι] {s₀ s s' : State ι} {i j : ℕ} {mutation : Mutation ι} {agent child : ι}

/-! ## Records and mutations -/

theorem get_update (change : Record ι → Record ι) (hid : ∀ record, (change record).id = record.id)
    (other : ι) : (s.update agent change).get other =
      if other = agent then (s.get agent).map change else s.get other := by
  have hkeep : (fun record : Record ι => decide (record.id = other)) ∘
      (fun record => if record.id = agent then change record else record) =
      fun record => decide (record.id = other) := by
    funext record
    dsimp only [Function.comp_apply]
    split_ifs
    · rw [hid]
    · rfl
  rw [get, update, List.find?_map, hkeep]
  have hfound : ∀ record, s.get other = some record → record.id = other := by
    intro record hrecord
    simpa using List.find?_some hrecord
  change (s.get other).map _ = _
  split_ifs with hsame
  · subst hsame
    cases hget : s.get other with
    | none => rfl
    | some record =>
      rw [Option.map_some, Option.map_some, if_pos (hfound record hget)]
  · cases hget : s.get other with
    | none => rfl
    | some record =>
      have hne : record.id ≠ agent := by
        rw [hfound record hget]
        exact hsame
      rw [Option.map_some, if_neg hne]

omit [DecidableEq ι] in
theorem getElem?_goOn (stage : Stage ι) (j : ℕ) : (s.goOn i stage).mutations[j]? =
    (s.mutations[j]?).map fun mutation => if i = j then { mutation with stage } else mutation := by
  rw [goOn, List.getElem?_modify, Option.map_eq_map]

/-! ## What stays true -/

/-- A child of an agent that is not archived. -/
def Open (s : State ι) (parent child : ι) : Prop :=
  ∃ record, s.get child = some record ∧ record.parent = some parent ∧ record.archivedAt = none

structure Later (s s' : State ι) : Prop where
  records : ∀ agent record, s.get agent = some record →
    ∃ record', s'.get agent = some record' ∧ record'.Follows record
  stored : ∀ agent, s.get agent = none → s'.get agent = none
  clock : s.clock ≤ s'.clock
  kept : ∀ (j : ℕ) (mutation : Mutation ι), s.mutations[j]? = some mutation →
    ∃ mutation', s'.mutations[j]? = some mutation' ∧ mutation'.agent = mutation.agent ∧ mutation'.parent = mutation.parent ∧
    ∀ mark, mutation.mark = some mark → mutation'.mark = some mark
  marks : ∀ mutation' ∈ s'.mutations, ∀ mark, mutation'.mark = some mark → s.clock ≤ mark ∨
    ∃ mutation ∈ s.mutations, mutation.agent = mutation'.agent ∧ mutation.mark = some mark

section

variable (h : Later s s')
include h

theorem Later.open_of_open (hopen : s'.Open agent child) : s.Open agent child := by
  obtain ⟨record', hrecord', hparent, hunarchived⟩ := hopen
  cases hrecord : s.get child with
  | none =>
    rw [h.stored child hrecord] at hrecord'
    contradiction
  | some record =>
    obtain ⟨record'', hsame, hfollows⟩ := h.records child record hrecord
    rw [hrecord'] at hsame
    rw [← Option.some.inj hsame] at hfollows
    refine ⟨record, hrecord, ?_, ?_⟩
    · rcases hfollows.parent with heq | ⟨hnone, -⟩
      · rw [← heq, hparent]
      · rw [hnone] at hparent
        contradiction
    · by_contra harchived
      have := hfollows.archived (Option.isSome_iff_ne_none.mpr harchived)
      rw [hunarchived] at this
      contradiction

/-! ## What a mutation knows -/

/-- The child is as it was read: it is to be detached or archived. -/
def Fresh (s : State ι) (mutation : Mutation ι) : Prop :=
  ∀ parent, mutation.parent = some parent → ∃ record, s.get mutation.agent = some record ∧
    record.archivedAt = none ∧ record.parent = some parent.id

/-- The agent is archived; a child has kept its label, and was not archived at first. -/
def Archived (s₀ s : State ι) (mutation : Mutation ι) (mark : ℕ) : Prop :=
  mark < s.clock ∧ ∃ record, s.get mutation.agent = some record ∧ record.archivedAt.isSome ∧
    ∀ parent, mutation.parent = some parent → record.parent = some parent.id ∧
      s₀.Open parent.id mutation.agent

/-- Every open child is among those that are still to be gone through, except one. -/
def Covers (s : State ι) (agent : ι) (except : Option ι) (rest : List (Record ι)) : Prop :=
  ∀ child, s.Open agent child → some child = except ∨
    ∃ record ∈ rest, record.id = child ∧ record.archivedAt = none ∧ record.parent = some agent

/-- The child was not archived when the agent was marked. -/
def After (s : State ι) (child : ι) (mark : ℕ) : Prop :=
  ∀ mutation ∈ s.mutations, mutation.agent = child → ∀ later, mutation.mark = some later → mark < later

/-- The child had the label at first. -/
def Had (s₀ : State ι) (child parent : ι) : Prop :=
  ∃ record, s₀.get child = some record ∧ record.parent = some parent

def Knows (s₀ s : State ι) (mutation : Mutation ι) : Prop :=
  match mutation.stage with
  | .queued | .reading => True
  | .detaching => mutation.parent.isSome ∧ s.Fresh mutation
  | .marking _ => (s.get mutation.agent).isSome ∧ s.Fresh mutation
  | .marked mark _ | .listing mark => s₀.Archived s mutation mark
  | .cascading mark parent rest => s₀.Archived s mutation mark ∧ parent.id = mutation.agent ∧
      s.Covers mutation.agent none rest
  | .getting mark parent child rest => s₀.Archived s mutation mark ∧ parent.id = mutation.agent ∧
      s.Covers mutation.agent (some child) rest
  | .queueing mark parent child rest => s₀.Archived s mutation mark ∧ parent.id = mutation.agent ∧
      s.Covers mutation.agent (some child) rest ∧ s.After child mark ∧ s₀.Had child mutation.agent
  | .awaiting mark parent child awaited rest => s₀.Archived s mutation mark ∧ parent.id = mutation.agent ∧
      s.Covers mutation.agent (some child) rest ∧ s.After child mark ∧
      ∃ other, s.mutations[awaited]? = some other ∧ other.agent = child ∧ other.parent = some parent
  | .settled (.archived mark) => s₀.Archived s mutation mark ∧ ∀ child, ¬ s.Open mutation.agent child
  | .settled .rejected => mutation.parent = none
  | .settled _ => ∀ parent, mutation.parent = some parent → ¬ s.Open parent.id mutation.agent

theorem Archived.later {mark : ℕ} (harchived : s₀.Archived s mutation mark) :
    s₀.Archived s' mutation mark := by
  obtain ⟨hmark, record, hrecord, harchivedAt, hparent⟩ := harchived
  obtain ⟨record', hrecord', hfollows⟩ := h.records mutation.agent record hrecord
  refine ⟨hmark.trans_le h.clock, record', hrecord', hfollows.archived harchivedAt, ?_⟩
  intro parent hlabel
  obtain ⟨hkept, hopen₀⟩ := hparent parent hlabel
  refine ⟨?_, hopen₀⟩
  rcases hfollows.parent with heq | ⟨-, hopen⟩
  · rw [heq, hkept]
  · rw [hopen] at harchivedAt
    contradiction

theorem Covers.later {except : Option ι} {rest : List (Record ι)} (hcovers : s.Covers agent except rest) :
    s'.Covers agent except rest :=
  fun child hopen => hcovers child (h.open_of_open hopen)

theorem After.later {mark : ℕ} (hmark : mark < s.clock) (hafter : s.After child mark) :
    s'.After child mark := by
  intro mutation hmutation hagent later hlater
  rcases h.marks mutation hmutation later hlater with hnew | ⟨before, hbefore, hsame, hold⟩
  · omega
  · exact hafter before hbefore (hsame.trans hagent) later hold

/-- What a mutation knows of its agent before the marking depends on the record, which nobody else
writes meanwhile. -/
theorem Knows.later (hsame : mutation.stage = .detaching ∨ (∃ closes, mutation.stage = .marking closes) →
      s'.get mutation.agent = s.get mutation.agent) (hknows : s₀.Knows s mutation) :
    s₀.Knows s' mutation := by
  unfold Knows at hknows ⊢
  split at hknows
  case h_1 => trivial
  case h_2 => trivial
  case h_3 hstage =>
    rw [Fresh, hsame (Or.inl hstage)]
    exact hknows
  case h_4 closes hstage =>
    rw [Fresh, hsame (Or.inr ⟨closes, hstage⟩)]
    exact hknows
  case h_5 => exact hknows.later h
  case h_6 => exact hknows.later h
  case h_7 => exact ⟨hknows.1.later h, hknows.2.1, hknows.2.2.later h⟩
  case h_8 => exact ⟨hknows.1.later h, hknows.2.1, hknows.2.2.later h⟩
  case h_9 =>
    obtain ⟨harchived, hparent, hcovers, hafter, hhad⟩ := hknows
    exact ⟨harchived.later h, hparent, hcovers.later h, hafter.later h harchived.1, hhad⟩
  case h_10 =>
    obtain ⟨harchived, hparent, hcovers, hafter, other, hother, hagent, hlisted⟩ := hknows
    obtain ⟨other', hother', hagent', hparent', -⟩ := h.kept _ other hother
    exact ⟨harchived.later h, hparent, hcovers.later h, hafter.later h harchived.1, other', hother',
      hagent'.trans hagent, hparent'.trans hlisted⟩
  case h_11 => exact ⟨hknows.1.later h, fun child hopen => hknows.2 child (h.open_of_open hopen)⟩
  case h_12 => exact hknows
  case h_13 => exact fun parent hparent hopen => hknows parent hparent (h.open_of_open hopen)

end

end State

end Orqara.Archiving
