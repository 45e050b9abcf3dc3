import Orqara.Archiving.CascadeInvariants

/-!
# Runs of the cascade

Each step keeps what the mutations know, and where each of them comes from: a call, or a mutation of
the parent that was marked before.
-/

namespace Orqara.Archiving.State

open List Option

variable {ι : Type*} [DecidableEq ι] {s₀ s s' : State ι} {i j : ℕ} {mutation other : Mutation ι}
  {agent child : ι} {stage : Stage ι} {change : Record ι → Record ι}

/-! ## The invariant -/

/-- What was queued for a child: it had the label, and a mutation of the parent was marked before. -/
structure Origin (s₀ s : State ι) (mutation : Mutation ι) (parent : Record ι) : Prop where
  label : s₀.Had mutation.agent parent.id
  marked : ∃ before ∈ s.mutations, before.agent = parent.id ∧ ∃ mark, before.mark = some mark ∧
    ∀ later, mutation.mark = some later → mark < later

structure Inv (s₀ s : State ι) : Prop where
  follows : ∀ agent record₀, s₀.get agent = some record₀ →
    ∃ record, s.get agent = some record ∧ record.Follows record₀
  stored : ∀ agent, s₀.get agent = none → s.get agent = none
  live : ∀ agent, s.live agent → (s.get agent).isSome
  lane : ∀ (i j : ℕ) (first second : Mutation ι), i < j → s.mutations[i]? = some first →
    s.mutations[j]? = some second → first.agent = second.agent → second.stage ≠ .queued →
    first.stage.isSettled
  knows : ∀ mutation ∈ s.mutations, s₀.Knows s mutation
  origin : ∀ mutation ∈ s.mutations, ∀ parent, mutation.parent = some parent →
    Origin s₀ s mutation parent
  archived : ∀ agent record₀ record, s₀.get agent = some record₀ → s.get agent = some record →
    record.archivedAt.isSome → record₀.archivedAt.isSome ∨
      ∃ mutation ∈ s.mutations, mutation.agent = agent ∧ mutation.mark.isSome
  detached : ∀ agent record₀ record, s₀.get agent = some record₀ → s.get agent = some record →
    record.parent ≠ record₀.parent →
      ∃ mutation ∈ s.mutations, mutation.agent = agent ∧ mutation.parent.isSome

theorem inv_start (h : s.Start) : Inv s s where
  follows _ record hrecord := ⟨record, hrecord, .refl record⟩
  stored _ hnone := hnone
  live := h.live
  lane := by simp [h.mutations]
  knows := by simp [h.mutations]
  origin := by simp [h.mutations]
  archived := by
    intro agent record₀ record hrecord₀ hrecord harchived
    rw [hrecord₀] at hrecord
    exact Or.inl (some.inj hrecord ▸ harchived)
  detached := by
    intro agent record₀ record hrecord₀ hrecord hne
    rw [hrecord₀] at hrecord
    exact absurd (congrArg Record.parent (some.inj hrecord)).symm hne

theorem Knows.archived (h : s₀.Knows s mutation) {mark : ℕ} (hmark : mutation.mark = some mark) :
    s₀.Archived s mutation mark := by
  rw [Mutation.mark] at hmark
  unfold Knows at h
  split at h <;> simp_all [Stage.mark]

section

variable (h : Inv s₀ s)
include h

theorem Inv.mark_lt (hmem : mutation ∈ s.mutations) {mark : ℕ}
    (hmark : mutation.mark = some mark) : mark < s.clock :=
  ((h.knows mutation hmem).archived hmark).1

theorem Inv.laneFree (hm : s.mutations[i]? = some mutation)
    (hbegun : mutation.stage ≠ .queued) : s.LaneFree i mutation.agent := by
  intro first hfirst hagent
  obtain ⟨j, hj⟩ := mem_iff_getElem?.mp hfirst
  rw [getElem?_take] at hj
  split_ifs at hj with hlt
  exact h.lane j i first mutation hlt hj hm hagent hbegun

theorem Inv.follows_get {record : Record ι} (hrecord : s.get agent = some record) :
    ∃ record₀, s₀.get agent = some record₀ ∧ record.Follows record₀ := by
  cases hrecord₀ : s₀.get agent with
  | none =>
    rw [h.stored agent hrecord₀] at hrecord
    contradiction
  | some record₀ =>
    obtain ⟨record', hrecord', hfollows⟩ := h.follows agent record₀ hrecord₀
    rw [hrecord] at hrecord'
    exact ⟨record₀, rfl, some.inj hrecord' ▸ hfollows⟩

/-- A child that is open was so at first. -/
theorem Inv.open_start (hopen : s.Open agent child) : s₀.Open agent child := by
  obtain ⟨record, hrecord, hlabel, hunarchived⟩ := hopen
  obtain ⟨record₀, hrecord₀, hfollows⟩ := h.follows_get hrecord
  refine ⟨record₀, hrecord₀, ?_, ?_⟩
  · rcases hfollows.parent with hsame | ⟨hnone, -⟩
    · rw [← hsame, hlabel]
    · rw [hnone] at hlabel
      contradiction
  · by_contra harchived
    have := hfollows.archived (isSome_iff_ne_none.mpr harchived)
    rw [hunarchived] at this
    contradiction

end

theorem Open.had (h : s.Open agent child) : s.Had child agent := by
  obtain ⟨record, hrecord, hlabel, -⟩ := h
  exact ⟨record, hrecord, hlabel⟩

/-! ## Going on -/

/-- What the step of a mutation does: it may change the record of its agent, and mark it. -/
structure Advance (s s' : State ι) (i : ℕ) (mutation : Mutation ι) (stage : Stage ι)
    (change : Record ι → Record ι) : Prop where
  found : s.mutations[i]? = some mutation
  unsettled : mutation.stage.isSettled = false
  free : s.LaneFree i mutation.agent
  mutations : s'.mutations = (s.goOn i stage).mutations
  get : ∀ other, s'.get other =
    if other = mutation.agent then (s.get mutation.agent).map change else s.get other
  clock : s.clock ≤ s'.clock
  live : ∀ other, s'.live other → s.live other
  follows : ∀ record, s.get mutation.agent = some record → (change record).Follows record
  mark : stage.mark = mutation.mark ∨ mutation.mark = none ∧ stage.mark = some s.clock

section

variable (h : Advance s s' i mutation stage change)
include h

theorem Advance.getElem? (j : ℕ) : s'.mutations[j]? =
      if j = i then some { mutation with stage } else s.mutations[j]? := by
  rw [h.mutations, getElem?_goOn]
  by_cases hj : j = i
  · rw [hj, h.found, map_some, if_pos rfl, if_pos rfl]
  · have hne : ¬ i = j := fun heq => hj heq.symm
    simp only [if_neg hne, if_neg hj, Option.map_id']

theorem Advance.mem (hother : other ∈ s'.mutations) :
    other = { mutation with stage } ∨ ∃ j ≠ i, s.mutations[j]? = some other := by
  obtain ⟨j, hj⟩ := mem_iff_getElem?.mp hother
  rw [h.getElem?] at hj
  split_ifs at hj with hji
  · exact Or.inl (some.inj hj).symm
  · exact Or.inr ⟨j, hji, hj⟩

theorem Advance.later : Later s s' where
  records := by
    intro agent record hrecord
    rw [h.get]
    split_ifs with hsame
    · rw [hsame] at hrecord
      rw [hrecord]
      exact ⟨change record, rfl, h.follows record hrecord⟩
    · exact ⟨record, hrecord, .refl record⟩
  stored := by
    intro agent hnone
    rw [h.get]
    split_ifs with hsame
    · rw [← hsame, hnone]
      rfl
    · exact hnone
  clock := h.clock
  kept := by
    intro j other hother
    rw [h.getElem?]
    split_ifs with hji
    · rw [hji, h.found] at hother
      have heq := some.inj hother
      rw [← heq]
      refine ⟨_, rfl, rfl, rfl, ?_⟩
      intro mark hmark
      rcases h.mark with hsame | ⟨hnone, -⟩
      · exact hsame.trans hmark
      · rw [hnone] at hmark
        contradiction
    · exact ⟨other, hother, rfl, rfl, fun mark hmark => hmark⟩
  marks := by
    intro other hother mark hmark
    rcases h.mem hother with rfl | ⟨j, -, hj⟩
    · rcases h.mark with hsame | ⟨-, hnew⟩
      · exact Or.inr ⟨mutation, mem_of_getElem? h.found, rfl, hsame.symm.trans hmark⟩
      · left
        have heq : some s.clock = some mark := hnew.symm.trans hmark
        exact (some.inj heq).le
    · exact Or.inr ⟨other, mem_of_getElem? hj, rfl, hmark⟩

/-- No other mutation of the agent is under way. -/
theorem Advance.alone (hinv : Inv s₀ s) (hj : s.mutations[j]? = some other) (hne : j ≠ i)
    (hbegun : other.stage ≠ .queued) (hunsettled : other.stage.isSettled = false) :
    other.agent ≠ mutation.agent := by
  intro hagent
  rcases lt_or_gt_of_ne hne with hlt | hlt
  · have hmem : other ∈ s.mutations.take i := by
      apply mem_of_getElem? (i := j)
      rw [getElem?_take, if_pos hlt, hj]
    rw [h.free other hmem hagent] at hunsettled
    contradiction
  · have hsettled := hinv.lane i j mutation other hlt h.found hj hagent.symm hbegun
    rw [h.unsettled] at hsettled
    contradiction

end

theorem Inv.advance (hinv : Inv s₀ s) (h : Advance s s' i mutation stage change)
    (hknows : s₀.Knows s' { mutation with stage })
    (harchived : ∀ record, s.get mutation.agent = some record →
      (change record).archivedAt.isSome → record.archivedAt.isSome ∨ stage.mark.isSome)
    (hparent : ∀ record, s.get mutation.agent = some record →
      (change record).parent ≠ record.parent → mutation.parent.isSome) : Inv s₀ s' := by
  have hlater := h.later
  have hmem : { mutation with stage } ∈ s'.mutations := by
    apply mem_of_getElem? (i := i)
    rw [h.getElem?, if_pos rfl]
  have hkept : ∀ other ∈ s.mutations, ∃ other' ∈ s'.mutations, other'.agent = other.agent ∧
      other'.parent = other.parent ∧ ∀ mark, other.mark = some mark → other'.mark = some mark := by
    intro other hother
    obtain ⟨j, hj⟩ := mem_iff_getElem?.mp hother
    obtain ⟨other', hj', hsame⟩ := hlater.kept j other hj
    exact ⟨other', mem_of_getElem? hj', hsame⟩
  refine ⟨?_, ?_, ?_, ?_, ?_, ?_, ?_, ?_⟩
  · intro agent record₀ hrecord₀
    obtain ⟨record, hrecord, hfollows⟩ := hinv.follows agent record₀ hrecord₀
    obtain ⟨record', hrecord', hfollows'⟩ := hlater.records agent record hrecord
    exact ⟨record', hrecord', hfollows'.trans hfollows⟩
  · intro agent hnone
    exact hlater.stored agent (hinv.stored agent hnone)
  · intro agent hlive
    obtain ⟨record, hrecord⟩ := isSome_iff_exists.mp (hinv.live agent (h.live agent hlive))
    obtain ⟨record', hrecord', -⟩ := hlater.records agent record hrecord
    rw [hrecord']
    rfl
  · intro first last m m' hlt hfirst hlast hagent hbegun
    rw [h.getElem?] at hfirst hlast
    split_ifs at hfirst hlast with heq hbefore hbefore'
    · omega
    · -- the one that goes on was not settled, so nothing behind it has begun
      rw [← some.inj hfirst] at hagent
      have hsettled := hinv.lane first last mutation m' hlt (heq ▸ h.found) hlast hagent hbegun
      rw [h.unsettled] at hsettled
      contradiction
    · rw [← some.inj hlast] at hagent
      apply h.free m _ hagent
      apply mem_of_getElem? (i := first)
      rw [getElem?_take, if_pos (hbefore' ▸ hlt), hfirst]
    · exact hinv.lane first last m m' hlt hfirst hlast hagent hbegun
  · intro other hother
    rcases h.mem hother with rfl | ⟨j, hne, hj⟩
    · exact hknows
    · refine (hinv.knows other (mem_of_getElem? hj)).later hlater fun hstage => ?_
      have halone : other.agent ≠ mutation.agent := by
        apply h.alone hinv hj hne
        · rcases hstage with hstage | ⟨closes, hstage⟩ <;> rw [hstage] <;> nofun
        · rcases hstage with hstage | ⟨closes, hstage⟩ <;> rw [hstage] <;> rfl
      rw [h.get, if_neg halone]
  · intro other hother parent hlabel
    rcases h.mem hother with rfl | ⟨j, -, hj⟩
    · have horigin := hinv.origin mutation (mem_of_getElem? h.found) parent hlabel
      obtain ⟨before, hbefore, hagent, mark, hmark, hearlier⟩ := horigin.marked
      obtain ⟨before', hbefore', hagent', -, hmark'⟩ := hkept before hbefore
      refine ⟨horigin.label, before', hbefore', hagent'.trans hagent, mark, hmark' mark hmark, ?_⟩
      intro later hlast
      rcases h.mark with hsame | ⟨-, hnew⟩
      · exact hearlier later (hsame.symm.trans hlast)
      · have heq : some s.clock = some later := hnew.symm.trans hlast
        rw [← some.inj heq]
        exact hinv.mark_lt hbefore hmark
    · have horigin := hinv.origin other (mem_of_getElem? hj) parent hlabel
      obtain ⟨before, hbefore, hagent, mark, hmark, hearlier⟩ := horigin.marked
      obtain ⟨before', hbefore', hagent', -, hmark'⟩ := hkept before hbefore
      exact ⟨horigin.label, before', hbefore', hagent'.trans hagent, mark, hmark' mark hmark, hearlier⟩
  · intro agent record₀ record hrecord₀ hrecord hsome
    rw [h.get] at hrecord
    have hold : ∀ before, s.get agent = some before → before.archivedAt.isSome →
        record₀.archivedAt.isSome ∨ ∃ other ∈ s'.mutations, other.agent = agent ∧ other.mark.isSome := by
      intro before hbefore hbeforeSome
      rcases hinv.archived agent record₀ before hrecord₀ hbefore hbeforeSome with hinitial | hmarked
      · exact Or.inl hinitial
      · obtain ⟨other, hother, hagent, hmark⟩ := hmarked
        obtain ⟨mark, hmark⟩ := isSome_iff_exists.mp hmark
        obtain ⟨other', hother', hagent', -, hmark'⟩ := hkept other hother
        exact Or.inr ⟨other', hother', hagent'.trans hagent,
          isSome_iff_exists.mpr ⟨mark, hmark' mark hmark⟩⟩
    split_ifs at hrecord with hsame
    · obtain ⟨before, hbefore, rfl⟩ := map_eq_some_iff.mp hrecord
      rcases harchived before hbefore hsome with hbeforeSome | hmark
      · exact hold before (hsame ▸ hbefore) hbeforeSome
      · exact Or.inr ⟨_, hmem, hsame.symm, hmark⟩
    · exact hold record hrecord hsome
  · intro agent record₀ record hrecord₀ hrecord hne
    rw [h.get] at hrecord
    have hold : ∀ before, s.get agent = some before → before.parent ≠ record₀.parent →
        ∃ other ∈ s'.mutations, other.agent = agent ∧ other.parent.isSome := by
      intro before hbefore hbeforeNe
      obtain ⟨other, hother, hagent, hlabel⟩ :=
        hinv.detached agent record₀ before hrecord₀ hbefore hbeforeNe
      obtain ⟨other', hother', hagent', hparent', -⟩ := hkept other hother
      exact ⟨other', hother', hagent'.trans hagent, by rw [hparent']; exact hlabel⟩
    split_ifs at hrecord with hsame
    · obtain ⟨before, hbefore, rfl⟩ := map_eq_some_iff.mp hrecord
      by_cases hchanged : (change before).parent = before.parent
      · exact hold before (hsame ▸ hbefore) fun heq => hne (hchanged.trans heq)
      · exact ⟨_, hmem, hsame.symm, hparent before hbefore hchanged⟩
    · exact hold record hrecord hne

/-! ## Steps that change no record -/

theorem advance_goOn (hm : s.mutations[i]? = some mutation)
    (hunsettled : mutation.stage.isSettled = false) (hfree : s.LaneFree i mutation.agent)
    (hmark : stage.mark = mutation.mark) :
    Advance s (s.goOn i stage) i mutation stage id where
  found := hm
  unsettled := hunsettled
  free := hfree
  mutations := rfl
  get := by
    intro other
    rw [Option.map_id]
    split_ifs with hsame
    · rw [hsame]
      rfl
    · rfl
  clock := le_rfl
  live _ hlive := hlive
  follows record _ := .refl record
  mark := Or.inl hmark

theorem Inv.goOn (hinv : Inv s₀ s) (hm : s.mutations[i]? = some mutation)
    (hunsettled : mutation.stage.isSettled = false) (hfree : s.LaneFree i mutation.agent)
    (hmark : stage.mark = mutation.mark) (hknows : s₀.Knows s { mutation with stage }) :
    Inv s₀ (s.goOn i stage) := by
  have hadvance := advance_goOn hm hunsettled hfree hmark
  apply hinv.advance hadvance (hknows.later hadvance.later fun _ => rfl)
  · exact fun _ _ hsome => Or.inl hsome
  · exact fun _ _ hne => absurd rfl hne

/-- What is true of a mutation that is under way. -/
structure Underway (s₀ s : State ι) (i : ℕ) (mutation : Mutation ι) : Prop where
  inv : Inv s₀ s
  found : s.mutations[i]? = some mutation
  unsettled : mutation.stage.isSettled = false
  free : s.LaneFree i mutation.agent

namespace Underway

variable (h : Underway s₀ s i mutation) {mark : ℕ} {rest : List (Record ι)}

include h

theorem mem : mutation ∈ s.mutations := List.mem_of_getElem? h.found

theorem goOn {stage : Stage ι} (hmark : stage.mark = mutation.mark)
    (hknows : s₀.Knows s { mutation with stage }) : Inv s₀ (s.goOn i stage) :=
  h.inv.goOn h.found h.unsettled h.free hmark hknows

theorem inv_begin (hstage : mutation.stage = .queued) : Inv s₀ (s.begin i mutation) := by
  have hmark : mutation.mark = none := by rw [Mutation.mark, hstage]; rfl
  unfold State.begin
  cases hparent : mutation.parent with
  | some parent =>
    dsimp only
    exact h.goOn hmark.symm trivial
  | none =>
    have hfresh : s.Fresh { mutation with stage := .marking true } := by
      intro parent hlabel
      exact absurd (hparent.symm.trans hlabel) nofun
    dsimp only
    split_ifs with hlive
    · exact h.goOn hmark.symm ⟨h.inv.live _ hlive, hfresh⟩
    · exact h.goOn hmark.symm hparent

theorem inv_classify (hstage : mutation.stage = .reading) : Inv s₀ (s.classify i mutation) := by
  have hmark : mutation.mark = none := by rw [Mutation.mark, hstage]; rfl
  unfold classify
  split
  · rename_i record parent hrecord hparent
    have hlisted : ∀ listed, mutation.parent = some listed → listed = parent := by
      intro listed hlabel
      rw [hparent] at hlabel
      exact (some.inj hlabel).symm
    split_ifs with hskip hdetach
    · refine h.goOn hmark.symm ?_
      rintro listed hlabel ⟨record', hrecord', hopen, hunarchived⟩
      have hsame : record' = record := by
        rw [hrecord] at hrecord'
        exact (some.inj hrecord').symm
      rw [hsame] at hopen hunarchived
      rw [hlisted listed hlabel] at hopen
      simp [hopen, hunarchived] at hskip
    all_goals
      have hopen : record.archivedAt = none ∧ record.parent = some parent.id := by
        simpa using hskip
      have hfresh : ∀ listed, mutation.parent = some listed → ∃ record, s.get mutation.agent =
          some record ∧ record.archivedAt = none ∧ record.parent = some listed.id := by
        intro listed hlabel
        rw [hlisted listed hlabel]
        exact ⟨record, hrecord, hopen⟩
    · exact h.goOn hmark.symm ⟨by rw [hparent]; rfl, hfresh⟩
    · exact h.goOn hmark.symm ⟨by rw [hrecord]; rfl, hfresh⟩
  · rename_i hmissing
    refine h.goOn hmark.symm ?_
    rintro listed hlabel ⟨record, hrecord, -, -⟩
    exact hmissing record listed hrecord hlabel

theorem inv_list (hstage : mutation.stage = .listing mark) :
    Inv s₀ (s.list i mutation mark) := by
  have hknows := h.inv.knows mutation h.mem
  simp only [Knows, hstage] at hknows
  unfold list
  cases hparent : s.get mutation.agent with
  | none =>
    obtain ⟨-, record, hrecord, -, -⟩ := hknows
    rw [hparent] at hrecord
    contradiction
  | some parent =>
    refine h.goOn (by rw [Mutation.mark, hstage]; rfl) ⟨hknows, ?_, ?_⟩
    · simpa using find?_some hparent
    · rintro child ⟨record, hrecord, hopen, hunarchived⟩
      refine Or.inr ⟨record, mem_of_find?_eq_some hrecord, ?_, hunarchived, hopen⟩
      simpa using find?_some hrecord

theorem inv_nextChild {parent : Record ι} (hstage : mutation.stage = .cascading mark parent rest) :
    Inv s₀ (s.nextChild i mutation mark parent rest) := by
  have hknows := h.inv.knows mutation h.mem
  simp only [Knows, hstage] at hknows
  obtain ⟨harchived, hparent, hcovers⟩ := hknows
  have hmark : mutation.mark = some mark := by rw [Mutation.mark, hstage]; rfl
  cases rest with
  | nil =>
    refine h.goOn hmark.symm ⟨harchived, fun child hopen => ?_⟩
    rcases hcovers child hopen with hnone | ⟨record, hrecord, -⟩ <;> contradiction
  | cons record rest =>
    rw [nextChild]
    split_ifs with hskip
    · refine h.goOn hmark.symm ⟨harchived, hparent, fun child hopen => ?_⟩
      rcases hcovers child hopen with hnone | ⟨record', hrecord', hid, hunarchived, hlabel⟩
      · contradiction
      · rcases mem_cons.mp hrecord' with rfl | hrest
        · simp [hunarchived, hlabel] at hskip
        · exact Or.inr ⟨record', hrest, hid, hunarchived, hlabel⟩
    · refine h.goOn hmark.symm ⟨harchived, hparent, fun child hopen => ?_⟩
      rcases hcovers child hopen with hnone | ⟨record', hrecord', hid, hopen'⟩
      · contradiction
      · rcases mem_cons.mp hrecord' with rfl | hrest
        · exact Or.inl (congrArg some hid.symm)
        · exact Or.inr ⟨record', hrest, hid, hopen'⟩

theorem inv_getChild {parent : Record ι} (hstage : mutation.stage = .getting mark parent child rest) :
    Inv s₀ (s.getChild i mutation mark parent child rest) := by
  have hknows := h.inv.knows mutation h.mem
  simp only [Knows, hstage] at hknows
  obtain ⟨harchived, hparent, hcovers⟩ := hknows
  have hmark : mutation.mark = some mark := by rw [Mutation.mark, hstage]; rfl
  have hread : s.Open mutation.agent child ↔ ((s.get child).any fun record =>
      record.archivedAt.isNone && record.parent == some mutation.agent) = true := by
    cases hrecord : s.get child with
    | none => simp [Open, hrecord]
    | some record => simp [Open, hrecord, and_comm]
  unfold getChild
  split_ifs with hopen
  · refine h.goOn hmark.symm ⟨harchived, hparent, hcovers, ?_, (h.inv.open_start (hread.mpr hopen)).had⟩
    -- a mutation of the child that was marked would have archived it
    intro other hother hagent later hlater
    obtain ⟨-, record, hrecord, hsome, -⟩ := (h.inv.knows other hother).archived hlater
    obtain ⟨record', hrecord', -, hunarchived⟩ := hread.mpr hopen
    rw [hagent, hrecord'] at hrecord
    rw [← some.inj hrecord, hunarchived] at hsome
    contradiction
  · refine h.goOn hmark.symm ⟨harchived, hparent, fun other hother => ?_⟩
    rcases hcovers other hother with hexcept | hrest
    · rw [some.inj hexcept] at hother
      exact absurd (hread.mp hother) hopen
    · exact Or.inr hrest

theorem inv_close {closes : Bool} (hstage : mutation.stage = .marked mark closes) :
    Inv s₀ (s.close i mutation mark closes) := by
  have hknows := h.inv.knows mutation h.mem
  simp only [Knows, hstage] at hknows
  have hmark : (Stage.listing mark : Stage ι).mark = mutation.mark := by rw [Mutation.mark, hstage]; rfl
  have hgo := advance_goOn h.found h.unsettled h.free hmark
  have hadvance : Advance s (s.close i mutation mark closes) i mutation (.listing mark) id := by
    refine { hgo with live := ?_ }
    intro other hlive
    cases closes with
    | false => exact hlive
    | true =>
      have hupdate : Function.update s.live mutation.agent false other = true := hlive
      rw [Function.update_apply] at hupdate
      split_ifs at hupdate
      exact hupdate
  have hlisting : s₀.Knows s { mutation with stage := .listing mark } := hknows
  apply h.inv.advance hadvance (hlisting.later hadvance.later fun _ => rfl)
  · exact fun _ _ hsome => Or.inl hsome
  · exact fun _ _ hne => absurd rfl hne

/-! ## Steps that write the record -/

theorem inv_detachAgentUnlocked (hstage : mutation.stage = .detaching) :
    Inv s₀ (s.detachAgentUnlocked i mutation) := by
  have hknows := h.inv.knows mutation h.mem
  simp only [Knows, hstage] at hknows
  obtain ⟨hsome, hfresh⟩ := hknows
  obtain ⟨parent, hparent⟩ := isSome_iff_exists.mp hsome
  obtain ⟨record, hrecord, hunarchived, hlabel⟩ := hfresh parent hparent
  have hadvance : Advance s (s.detachAgentUnlocked i mutation) i mutation (.settled .detached)
      Record.detach := by
    refine ⟨h.found, h.unsettled, h.free, rfl, get_update _ fun _ => rfl, le_rfl,
      fun _ hlive => hlive, ?_, Or.inl ?_⟩
    · intro record' hrecord'
      rw [hrecord] at hrecord'
      rw [← some.inj hrecord']
      exact ⟨Or.inr ⟨rfl, hunarchived⟩, fun harchived => harchived⟩
    · rw [Mutation.mark, hstage]
      rfl
  apply h.inv.advance hadvance
  · rintro listed - ⟨record', hrecord', hopen, -⟩
    have hget := hadvance.get mutation.agent
    rw [if_pos rfl, hrecord] at hget
    have heq : some record' = some record.detach := hrecord'.symm.trans hget
    rw [some.inj heq] at hopen
    contradiction
  · exact fun _ _ harchived => Or.inl harchived
  · exact fun _ _ _ => hsome

theorem inv_markRecordArchived {closes : Bool} (hstage : mutation.stage = .marking closes) :
    Inv s₀ (s.markRecordArchived i mutation closes) := by
  have hknows := h.inv.knows mutation h.mem
  simp only [Knows, hstage] at hknows
  obtain ⟨hstored, hfresh⟩ := hknows
  obtain ⟨record, hrecord⟩ := isSome_iff_exists.mp hstored
  have hmarked : s.markRecordArchived i mutation closes =
      { (s.update mutation.agent (Record.archive s.clock)).goOn i (.marked s.clock closes) with
        clock := s.clock + 1 } := by
    rw [markRecordArchived, hrecord]
  have hadvance : Advance s (s.markRecordArchived i mutation closes) i mutation
      (.marked s.clock closes) (Record.archive s.clock) := by
    rw [hmarked]
    refine ⟨h.found, h.unsettled, h.free, rfl, get_update _ fun _ => rfl, Nat.le_succ _,
      fun _ hlive => hlive, fun _ _ => ⟨Or.inl rfl, fun _ => rfl⟩, Or.inr ⟨?_, rfl⟩⟩
    rw [Mutation.mark, hstage]
    rfl
  apply h.inv.advance hadvance
  · have hclock : (s.markRecordArchived i mutation closes).clock = s.clock + 1 := by rw [hmarked]
    have hget := hadvance.get mutation.agent
    rw [if_pos rfl, hrecord] at hget
    refine ⟨by rw [hclock]; exact Nat.lt_succ_self _, _, hget, rfl, ?_⟩
    intro parent hparent
    obtain ⟨record', hrecord', hunarchived, hlabel⟩ := hfresh parent hparent
    refine ⟨?_, h.inv.open_start ⟨record', hrecord', hlabel, hunarchived⟩⟩
    rw [hrecord] at hrecord'
    rw [some.inj hrecord']
    exact hlabel
  · exact fun _ _ _ => Or.inr rfl
  · exact fun _ _ hne => absurd rfl hne

end Underway

/-! ## Steps that involve another mutation -/

theorem modify_append {α : Type*} {l : List α} (hlt : i < l.length) (l' : List α) (f : α → α) :
    (l ++ l').modify i f = l.modify i f ++ l' := by
  ext1 j
  rw [getElem?_modify, getElem?_append, getElem?_append, length_modify,
    getElem?_modify]
  split_ifs with hj hlast
  · rfl
  · omega
  · rfl
  · exact Option.map_id'

theorem later_runLifecycleMutation (agent : ι) (parent : Option (Record ι)) :
    Later s (s.runLifecycleMutation agent parent) where
  records _ record hrecord := ⟨record, hrecord, .refl record⟩
  stored _ hnone := hnone
  clock := le_rfl
  kept := by
    intro j other hother
    refine ⟨other, ?_, rfl, rfl, fun mark hmark => hmark⟩
    rw [runLifecycleMutation, getElem?_append_left (List.getElem?_eq_some_iff.mp hother).1]
    exact hother
  marks := by
    intro other hother mark hmark
    rcases mem_append.mp hother with hother | hother
    · exact Or.inr ⟨other, hother, rfl, hmark⟩
    · rw [mem_singleton.mp hother] at hmark
      contradiction

theorem Inv.runLifecycleMutation (hinv : Inv s₀ s) {parent : Option (Record ι)}
    (horigin : ∀ listed, parent = some listed →
      s₀.Had agent listed.id ∧
        ∃ before ∈ s.mutations, before.agent = listed.id ∧ before.mark.isSome) :
    Inv s₀ (s.runLifecycleMutation agent parent) := by
  have hlater := later_runLifecycleMutation (s := s) agent parent
  have hmem : ∀ other ∈ s.mutations, other ∈ (s.runLifecycleMutation agent parent).mutations :=
    fun other hother => mem_append_left _ hother
  refine ⟨hinv.follows, hinv.stored, hinv.live, ?_, ?_, ?_, ?_, ?_⟩
  · intro first last m m' hlt hfirst hlast hagent hbegun
    rw [State.runLifecycleMutation, getElem?_append] at hfirst hlast
    split_ifs at hfirst hlast with hin hin'
    · exact hinv.lane first last m m' hlt hfirst hlast hagent hbegun
    · have hnew := mem_singleton.mp (mem_of_getElem? hlast)
      rw [hnew] at hbegun
      exact absurd rfl hbegun
    · omega
    · have hfirst' := (List.getElem?_eq_some_iff.mp hfirst).1
      have hlast' := (List.getElem?_eq_some_iff.mp hlast).1
      simp only [length_singleton] at hfirst' hlast'
      omega
  · intro other hother
    rcases mem_append.mp hother with hother | hother
    · exact (hinv.knows other hother).later hlater fun _ => rfl
    · rw [mem_singleton.mp hother]
      trivial
  · intro other hother listed hlabel
    rcases mem_append.mp hother with hother | hother
    · obtain ⟨hrecord, before, hbefore, hrest⟩ := hinv.origin other hother listed hlabel
      exact ⟨hrecord, before, hmem before hbefore, hrest⟩
    · rw [mem_singleton.mp hother] at hlabel ⊢
      obtain ⟨hrecord, before, hbefore, hagent, hmark⟩ := horigin listed hlabel
      obtain ⟨mark, hmark⟩ := isSome_iff_exists.mp hmark
      exact ⟨hrecord, before, hmem before hbefore, hagent, mark, hmark, nofun⟩
  · intro other record₀ record hrecord₀ hrecord hsome
    rcases hinv.archived other record₀ record hrecord₀ hrecord hsome with hold | ⟨m, hm, hrest⟩
    · exact Or.inl hold
    · exact Or.inr ⟨m, hmem m hm, hrest⟩
  · intro other record₀ record hrecord₀ hrecord hne
    obtain ⟨m, hm, hrest⟩ := hinv.detached other record₀ record hrecord₀ hrecord hne
    exact ⟨m, hmem m hm, hrest⟩

namespace Underway

variable (h : Underway s₀ s i mutation) {rest : List (Record ι)}

include h

theorem inv_queueChild {mark : ℕ} {parent : Record ι}
    (hstage : mutation.stage = .queueing mark parent child rest) :
    Inv s₀ (s.queueChild i mark parent child rest) := by
  have hknows := h.inv.knows mutation h.mem
  simp only [Knows, hstage] at hknows
  obtain ⟨harchived, hparent, hcovers, hafter, hlabel⟩ := hknows
  have hmark : mutation.mark = some mark := by rw [Mutation.mark, hstage]; rfl
  have hlt : i < s.mutations.length := (List.getElem?_eq_some_iff.mp h.found).1
  have hqueued : Inv s₀ (s.runLifecycleMutation child (some parent)) := by
    apply h.inv.runLifecycleMutation
    intro listed hlisted
    rw [← some.inj hlisted, hparent]
    exact ⟨hlabel, mutation, h.mem, rfl, by rw [hmark]; rfl⟩
  have hlater := later_runLifecycleMutation (s := s) child (some parent)
  have hfound : (s.runLifecycleMutation child (some parent)).mutations[i]? = some mutation := by
    rw [runLifecycleMutation, getElem?_append_left hlt]
    exact h.found
  have hfree : (s.runLifecycleMutation child (some parent)).LaneFree i mutation.agent := by
    intro other hother
    rw [runLifecycleMutation, take_append_of_le_length hlt.le] at hother
    exact h.free other hother
  have hswap : s.queueChild i mark parent child rest = (s.runLifecycleMutation child
      (some parent)).goOn i (.awaiting mark parent child s.mutations.length rest) := by
    simp only [queueChild, State.goOn, runLifecycleMutation, modify_append hlt]
  rw [hswap]
  refine hqueued.goOn hfound h.unsettled hfree hmark.symm ⟨harchived.later hlater, hparent,
    hcovers.later hlater, hafter.later hlater harchived.1, ⟨child, some parent, .queued⟩, ?_, rfl, rfl⟩
  rw [runLifecycleMutation, getElem?_append_right le_rfl, Nat.sub_self]
  rfl

/-- Behind a child's mutation, the child is no open child any more. -/
theorem inv_awaited {mark awaited : ℕ} {parent : Record ι}
    (hstage : mutation.stage = .awaiting mark parent child awaited rest) {outcome : Outcome}
    (hsettled : (s.mutations[awaited]?).map Mutation.stage = some (.settled outcome)) :
    outcome ≠ .rejected ∧ Inv s₀ (s.goOn i (.cascading mark parent rest)) := by
  have hknows := h.inv.knows mutation h.mem
  simp only [Knows, hstage] at hknows
  obtain ⟨harchived, hparent, hcovers, -, other, hother, hagent, hlisted⟩ := hknows
  rw [hother] at hsettled
  have hstage' : other.stage = .settled outcome := some.inj hsettled
  have hother' := h.inv.knows other (mem_of_getElem? hother)
  simp only [Knows, hstage'] at hother'
  have hclosed : outcome ≠ .rejected ∧ ¬ s.Open parent.id other.agent := by
    cases outcome with
    | archived later =>
      refine ⟨nofun, ?_⟩
      rintro ⟨record, hrecord, -, hunarchived⟩
      obtain ⟨-, record', hrecord', hsome, -⟩ := hother'.1
      rw [hrecord] at hrecord'
      rw [← some.inj hrecord', hunarchived] at hsome
      contradiction
    | detached | skipped => exact ⟨nofun, hother' parent hlisted⟩
    | rejected =>
      rw [hlisted] at hother'
      contradiction
  rw [hagent, hparent] at hclosed
  refine ⟨hclosed.1, h.goOn (by rw [Mutation.mark, hstage]; rfl) ⟨harchived, hparent, ?_⟩⟩
  intro open' hopen
  rcases hcovers open' hopen with hexcept | hrest
  · rw [some.inj hexcept] at hopen
    exact absurd hopen hclosed.2
  · exact Or.inr hrest

end Underway

/-! ## Every step -/

theorem inv_advanceMutation (hinv : Inv s₀ s) (hm : s.mutations[i]? = some mutation)
    (hstep : s.advanceMutation i mutation = some s') : Inv s₀ s' := by
  have hunderway : mutation.stage.isSettled = false → mutation.stage ≠ .queued →
      Underway s₀ s i mutation := fun hunsettled hbegun => ⟨hinv, hm, hunsettled, hinv.laneFree hm hbegun⟩
  unfold advanceMutation at hstep
  split at hstep
  case h_1 hstage =>
    split_ifs at hstep with hfree
    have h : Underway s₀ s i mutation := ⟨hinv, hm, by rw [hstage]; rfl, hfree⟩
    exact some.inj hstep ▸ h.inv_begin hstage
  case h_11 => contradiction
  all_goals
    rename_i hstage
    have h : Underway s₀ s i mutation :=
      hunderway (by rw [hstage]; rfl) (by rw [hstage]; nofun)
  case h_2 => exact some.inj hstep ▸ h.inv_classify hstage
  case h_3 => exact some.inj hstep ▸ h.inv_detachAgentUnlocked hstage
  case h_4 => exact some.inj hstep ▸ h.inv_markRecordArchived hstage
  case h_5 => exact some.inj hstep ▸ h.inv_close hstage
  case h_6 => exact some.inj hstep ▸ h.inv_list hstage
  case h_7 => exact some.inj hstep ▸ h.inv_nextChild hstage
  case h_8 => exact some.inj hstep ▸ h.inv_getChild hstage
  case h_9 => exact some.inj hstep ▸ h.inv_queueChild hstage
  case h_10 =>
    split at hstep
    case h_1 hsettled => exact absurd rfl (h.inv_awaited hstage hsettled).1
    case h_2 outcome _ hsettled => exact some.inj hstep ▸ (h.inv_awaited hstage hsettled).2
    case h_3 => contradiction

end Orqara.Archiving.State
