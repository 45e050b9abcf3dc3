import Orqara.Archiving.CascadeRuns

/-!
# All calls settle

Each marking of a child uses up a record that was not archived, so a run without further calls is
finite. It cannot get stuck before: a mutation waits for one of a child that was not archived when it
looked, so whatever holds the child's lane was marked later.
-/

namespace Orqara.Archiving

open List Option

variable {ι : Type*}

/-! ## What is left to do -/

/-- The steps of a cascade over a number of records, with what it queues. -/
def cascadeCost (records : ℕ) : ℕ := 8 * records + 3

/-- A call may mark a record that is archived already. -/
def Mutation.budget (records : ℕ) (mutation : Mutation ι) : ℕ :=
  if mutation.parent.isNone then cascadeCost records else 0

def Mutation.weight (records : ℕ) (mutation : Mutation ι) : ℕ :=
  match mutation.stage with
  | .queued => 3 + mutation.budget records
  | .reading => 2
  | .detaching => 1
  | .marking _ => 1 + mutation.budget records
  | .marked _ _ => 8 * records + 3
  | .listing _ => 8 * records + 2
  | .cascading _ _ rest => 8 * rest.length + 1
  | .getting _ _ _ rest => 8 * rest.length + 8
  | .queueing _ _ _ rest => 8 * rest.length + 7
  | .awaiting _ _ _ _ rest => 8 * rest.length + 2
  | .settled _ => 0

def Record.isOpen (record : Record ι) : Bool := record.archivedAt.isNone

namespace State

variable [DecidableEq ι] {s₀ s s' : State ι} {i : ℕ} {mutation : Mutation ι}

/-- How many steps are left. -/
def weight (s : State ι) : ℕ :=
  (s.mutations.map (Mutation.weight s.records.length)).sum +
    cascadeCost s.records.length * s.records.countP Record.isOpen

theorem sum_modify {α : Type*} (w : α → ℕ) (f : α → α) {l : List α} {i : ℕ} {a : α}
    (hi : l[i]? = some a) : ((l.modify i f).map w).sum + w a = (l.map w).sum + w (f a) := by
  induction l generalizing i with
  | nil => contradiction
  | cons b l ih =>
    cases i with
    | zero =>
      rw [← some.inj hi, modify_zero_cons, map_cons, map_cons, sum_cons,
        sum_cons]
      omega
    | succ i =>
      have htail := ih hi
      rw [modify_succ_cons, map_cons, map_cons, sum_cons, sum_cons]
      omega

section

variable (hm : s.mutations[i]? = some mutation)
include hm

theorem weight_goOn (stage : Stage ι) :
    (s.goOn i stage).weight + mutation.weight s.records.length =
      s.weight + ({ mutation with stage } : Mutation ι).weight s.records.length := by
  have hsum := sum_modify (Mutation.weight s.records.length)
    (fun mutation => { mutation with stage }) hm
  simp only [weight, goOn] at hsum ⊢
  omega

theorem weight_goOn_lt {stage : Stage ι}
    (hlt : ({ mutation with stage } : Mutation ι).weight s.records.length <
      mutation.weight s.records.length) : (s.goOn i stage).weight < s.weight := by
  have hsum := weight_goOn hm stage
  omega

/-! ## Records that are not archived -/

omit hm in
theorem countP_update (s : State ι) (agent : ι) (change : Record ι → Record ι)
    (hopen : ∀ record, (change record).isOpen → record.isOpen) :
    (s.update agent change).records.countP Record.isOpen ≤ s.records.countP Record.isOpen := by
  rw [update, countP_map]
  apply countP_mono_left
  intro record _ hrecord
  dsimp only [Function.comp_apply] at hrecord
  split_ifs at hrecord
  · exact hopen record hrecord
  · exact hrecord

omit hm in
theorem countP_lt {α : Type*} {p q : α → Bool} {l : List α} (hle : ∀ a, p a → q a) {a : α}
    (ha : a ∈ l) (hp : p a = false) (hq : q a) : l.countP p < l.countP q := by
  induction l with
  | nil => contradiction
  | cons b l ih =>
    have hmono : l.countP p ≤ l.countP q := countP_mono_left fun a _ => hle a
    rcases mem_cons.mp ha with rfl | hmem
    · rw [countP_cons_of_neg (by rw [hp]; nofun), countP_cons_of_pos hq]
      omega
    · have hlt := ih hmem
      rw [countP_cons, countP_cons]
      by_cases hb : p b
      · rw [if_pos hb, if_pos (hle b hb)]
        omega
      · rw [if_neg hb]
        omega

omit hm in
/-- Marking uses up a record. -/
theorem countP_archive {record : Record ι} {agent : ι} (hrecord : s.get agent = some record)
    (hopen : record.archivedAt = none) (mark : ℕ) :
    (s.update agent (Record.archive mark)).records.countP Record.isOpen <
      s.records.countP Record.isOpen := by
  rw [update, countP_map]
  have hid : record.id = agent := by simpa using find?_some hrecord
  apply countP_lt _ (mem_of_find?_eq_some hrecord)
  · dsimp only [Function.comp_apply]
    rw [if_pos hid]
    rfl
  · rw [Record.isOpen, hopen]
    rfl
  · intro other hother
    dsimp only [Function.comp_apply] at hother
    split_ifs at hother
    · contradiction
    · exact hother

/-! ## Every step -/

theorem weight_write (change : Record ι → Record ι) (stage : Stage ι) (clock : ℕ) :
    ({ (s.update mutation.agent change).goOn i stage with clock } : State ι).weight +
        mutation.weight s.records.length +
        cascadeCost s.records.length * s.records.countP Record.isOpen =
      s.weight + ({ mutation with stage } : Mutation ι).weight s.records.length +
        cascadeCost s.records.length *
          (s.update mutation.agent change).records.countP Record.isOpen := by
  have hsum := sum_modify (Mutation.weight s.records.length)
    (fun mutation => { mutation with stage }) hm
  have hlength : (s.update mutation.agent change).records.length = s.records.length := by
    rw [update, length_map]
  have hsame : (s.update mutation.agent change).mutations = s.mutations := rfl
  simp only [weight, goOn, hlength, hsame] at hsum ⊢
  omega

omit hm in
theorem weight_markRecordArchived (h : Underway s₀ s i mutation) {closes : Bool}
    (hstage : mutation.stage = .marking closes) :
    (s.markRecordArchived i mutation closes).weight < s.weight := by
  have hknows := h.inv.knows mutation h.mem
  simp only [Knows, hstage] at hknows
  obtain ⟨record, hrecord⟩ := isSome_iff_exists.mp hknows.1
  rw [markRecordArchived, hrecord]
  have hwrite := weight_write h.found (Record.archive s.clock) (.marked s.clock closes) (s.clock + 1)
  simp only [Mutation.weight, hstage] at hwrite
  cases hparent : mutation.parent with
  | none =>
    have hle := countP_update s mutation.agent (Record.archive s.clock)
      fun _ hopen => absurd hopen Bool.false_ne_true
    have hmul := Nat.mul_le_mul_left (cascadeCost s.records.length) hle
    rw [Mutation.budget, hparent] at hwrite
    simp only [isNone_none, if_true, cascadeCost] at hwrite hmul ⊢
    omega
  | some parent =>
    obtain ⟨record', hrecord', hopen, -⟩ := hknows.2 parent hparent
    have hlt := countP_archive hrecord' hopen s.clock
    have hmul := Nat.mul_le_mul_left (cascadeCost s.records.length) hlt
    rw [Nat.mul_succ] at hmul
    rw [Mutation.budget, hparent] at hwrite
    simp only [isNone_some, Bool.false_eq_true, if_false, cascadeCost] at hwrite hmul ⊢
    omega

theorem weight_detachAgentUnlocked (hstage : mutation.stage = .detaching) :
    (s.detachAgentUnlocked i mutation).weight < s.weight := by
  have hwrite : (s.detachAgentUnlocked i mutation).weight + mutation.weight s.records.length + _ = _ :=
    weight_write hm Record.detach (.settled .detached) s.clock
  have hle := countP_update s mutation.agent Record.detach (fun _ hopen => hopen)
  have hmul := Nat.mul_le_mul_left (cascadeCost s.records.length) hle
  simp only [Mutation.weight, hstage] at hwrite
  omega

theorem weight_queueChild {mark : ℕ} {parent : Record ι} {child : ι} {rest : List (Record ι)}
    (hstage : mutation.stage = .queueing mark parent child rest) :
    (s.queueChild i mark parent child rest).weight < s.weight := by
  have hgo := weight_goOn hm (.awaiting mark parent child s.mutations.length rest)
  have hqueued : (s.queueChild i mark parent child rest).weight =
      (s.goOn i (.awaiting mark parent child s.mutations.length rest)).weight + 3 := by
    simp only [weight, queueChild, runLifecycleMutation, goOn, map_append, sum_append,
      map_cons, map_nil, sum_cons, sum_nil, Mutation.weight, Mutation.budget,
      isNone_some, Bool.false_eq_true, if_false]
    omega
  simp only [Mutation.weight, hstage] at hgo
  omega

end

theorem weight_advanceMutation (hinv : Inv s₀ s) (hm : s.mutations[i]? = some mutation)
    (hstep : s.advanceMutation i mutation = some s') : s'.weight < s.weight := by
  unfold advanceMutation at hstep
  split at hstep
  case h_1 hstage =>
    split_ifs at hstep
    rw [← some.inj hstep, begin]
    have hbudget : mutation.weight s.records.length = 3 + mutation.budget s.records.length := by
      rw [Mutation.weight, hstage]
    cases hparent : mutation.parent with
    | none =>
      refine weight_goOn_lt hm ?_
      rw [hbudget]
      split_ifs <;> simp [Mutation.weight, Mutation.budget, hparent]
    | some parent => exact weight_goOn_lt hm (by rw [hbudget]; simp [Mutation.weight]; omega)
  case h_2 hstage =>
    rw [← some.inj hstep, classify]
    have hreading : mutation.weight s.records.length = 2 := by rw [Mutation.weight, hstage]
    split
    · rename_i hparent
      split_ifs <;> refine weight_goOn_lt hm ?_ <;> rw [hreading] <;>
        simp [Mutation.weight, Mutation.budget, hparent]
    · exact weight_goOn_lt hm (by rw [hreading]; simp [Mutation.weight])
  case h_3 hstage => exact some.inj hstep ▸ weight_detachAgentUnlocked hm hstage
  case h_4 closes hstage =>
    have h : Underway s₀ s i mutation :=
      ⟨hinv, hm, by rw [hstage]; rfl, hinv.laneFree hm (by rw [hstage]; nofun)⟩
    exact some.inj hstep ▸ weight_markRecordArchived h hstage
  case h_5 mark closes hstage =>
    rw [← some.inj hstep]
    have hlt := weight_goOn hm (.listing mark)
    simp only [Mutation.weight, hstage] at hlt
    change (s.goOn i (.listing mark)).weight < s.weight
    omega
  case h_6 mark hstage =>
    rw [← some.inj hstep, list]
    cases s.get mutation.agent with
    | none => exact weight_goOn_lt hm (by simp [Mutation.weight, hstage])
    | some parent => exact weight_goOn_lt hm (by simp [Mutation.weight, hstage])
  case h_7 mark parent rest hstage =>
    rw [← some.inj hstep]
    cases rest with
    | nil => exact weight_goOn_lt hm (by simp [Mutation.weight, hstage])
    | cons record rest =>
      rw [nextChild]
      split_ifs
      · exact weight_goOn_lt hm (by simp [Mutation.weight, hstage])
      · exact weight_goOn_lt hm (by simp [Mutation.weight, hstage]; omega)
  case h_8 mark parent child rest hstage =>
    rw [← some.inj hstep, getChild]
    split_ifs <;> exact weight_goOn_lt hm (by simp [Mutation.weight, hstage])
  case h_9 hstage => exact some.inj hstep ▸ weight_queueChild hm hstage
  case h_10 mark parent child awaited rest hstage =>
    split at hstep
    case h_1 =>
      rw [← some.inj hstep]
      exact weight_goOn_lt hm (by simp [Mutation.weight, hstage])
    case h_2 =>
      rw [← some.inj hstep]
      exact weight_goOn_lt hm (by simp [Mutation.weight, hstage])
    case h_3 => contradiction
  case h_11 => contradiction

/-! ## Nothing gets stuck -/

/-- The first mutation of an agent that is not settled may begin. -/
theorem exists_first {first : Mutation ι} (hm : first ∈ s.mutations)
    (hunsettled : first.stage.isSettled = false) : ∃ (i : ℕ) (mutation : Mutation ι),
      s.mutations[i]? = some mutation ∧ mutation.agent = first.agent ∧
        mutation.stage.isSettled = false ∧ s.LaneFree i first.agent := by
  classical
  have hexists : ∃ (i : ℕ) (mutation : Mutation ι), s.mutations[i]? = some mutation ∧
      mutation.agent = first.agent ∧ mutation.stage.isSettled = false := by
    obtain ⟨i, hi⟩ := mem_iff_getElem?.mp hm
    exact ⟨i, first, hi, rfl, hunsettled⟩
  obtain ⟨mutation, hfound, hagent, hstage⟩ := Nat.find_spec hexists
  refine ⟨Nat.find hexists, mutation, hfound, hagent, hstage, ?_⟩
  intro before hbefore hsame
  obtain ⟨j, hj⟩ := mem_iff_getElem?.mp hbefore
  rw [getElem?_take] at hj
  split_ifs at hj with hlt
  by_contra hopen
  exact Nat.find_min hexists hlt ⟨before, hj, hsame, by simpa using hopen⟩

/-- Where nothing can go on, the lane of an agent is held by a mutation that waits for a child. -/
theorem exists_awaiting (hstuck : ∀ i, s.advance i = none) {first : Mutation ι}
    (hm : first ∈ s.mutations) (hunsettled : first.stage.isSettled = false) :
    ∃ mutation ∈ s.mutations, mutation.agent = first.agent ∧ ∃ mark parent child awaited rest,
      mutation.stage = .awaiting mark parent child awaited rest := by
  obtain ⟨i, mutation, hfound, hagent, hopen, hfree⟩ := exists_first hm hunsettled
  have hnone : s.advanceMutation i mutation = none := by
    have hstuck' := hstuck i
    rw [advance, hfound] at hstuck'
    exact hstuck'
  refine ⟨mutation, mem_of_getElem? hfound, hagent, ?_⟩
  cases hstage : mutation.stage with
  | awaiting mark parent child awaited rest => exact ⟨mark, parent, child, awaited, rest, rfl⟩
  | queued =>
    rw [advanceMutation, hstage, hagent] at hnone
    dsimp only at hnone
    rw [if_pos hfree] at hnone
    contradiction
  | settled outcome =>
    rw [hstage] at hopen
    contradiction
  | _ =>
    rw [advanceMutation, hstage] at hnone
    contradiction

/-- A state in which nothing can go on is one in which everything has settled. -/
theorem settled_of_stuck (hinv : Inv s₀ s) (hstuck : ∀ i, s.advance i = none) :
    ∀ mutation ∈ s.mutations, mutation.stage.isSettled := by
  by_contra hnot
  push Not at hnot
  obtain ⟨first, hfirst, hunsettled⟩ := hnot
  -- whoever waits, waits for one that was marked later and waits as well
  have hascend : ∀ k, ∃ mutation ∈ s.mutations, ∃ mark parent child awaited rest,
      mutation.stage = .awaiting mark parent child awaited rest ∧ k ≤ mark := by
    intro k
    induction k with
    | zero =>
      obtain ⟨mutation, hmem, -, mark, parent, child, awaited, rest, hstage⟩ :=
        exists_awaiting hstuck hfirst (by simpa using hunsettled)
      exact ⟨mutation, hmem, mark, parent, child, awaited, rest, hstage, Nat.zero_le mark⟩
    | succ k ih =>
      obtain ⟨mutation, hmem, mark, parent, child, awaited, rest, hstage, hle⟩ := ih
      have hknows := hinv.knows mutation hmem
      simp only [Knows, hstage] at hknows
      obtain ⟨-, -, -, hafter, other, hother, hagent, -⟩ := hknows
      obtain ⟨i, hi⟩ := mem_iff_getElem?.mp hmem
      have hopen : other.stage.isSettled = false := by
        cases hcase : other.stage with
        | settled outcome =>
          have hadvance := hstuck i
          rw [advance, hi, bind_some, advanceMutation, hstage] at hadvance
          dsimp only at hadvance
          rw [hother, map_some, hcase] at hadvance
          cases outcome <;> contradiction
        | _ => rfl
      obtain ⟨holder, hholder, hsame, mark', parent', child', awaited', rest', hstage'⟩ :=
        exists_awaiting hstuck (mem_of_getElem? hother) hopen
      have hlater : mark < mark' := by
        apply hafter holder hholder (hsame.trans hagent)
        rw [Mutation.mark, hstage']
        rfl
      exact ⟨holder, hholder, mark', parent', child', awaited', rest', hstage', by omega⟩
  obtain ⟨mutation, hmem, mark, parent, child, awaited, rest, hstage, hle⟩ := hascend s.clock
  have hmark : mutation.mark = some mark := by rw [Mutation.mark, hstage]; rfl
  have hlt := hinv.mark_lt hmem hmark
  omega

end State

end Orqara.Archiving
