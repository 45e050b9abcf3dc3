import Orqara.Diff.CheckoutDiffManager

/-!
# What the subscribers of a diff have seen

As long as a diff of a call's own does not replace a different one, every subscriber has what the
latest fingerprint says, and that is of a diff that read the repository after the last change notice,
or a refresh is on its way.
-/

namespace Orqara.Diff

open WatchTarget List Option

variable {α : Type}

theorem mem_modify {f : α → α} {l : List α} {n : ℕ} {a : α} (h : a ∈ l.modify n f) :
    a ∈ l ∨ ∃ b, l[n]? = some b ∧ a = f b := by
  obtain ⟨i, hi⟩ := mem_iff_getElem?.mp h
  rw [getElem?_modify] at hi
  obtain ⟨b, hb, hab⟩ := map_eq_some_iff.mp hi
  split_ifs at hab with hn
  · exact Or.inr ⟨b, hn ▸ hb, hab.symm⟩
  · exact Or.inl (hab ▸ mem_of_getElem? hb)

theorem any_modify {f : α → α} {test : α → Bool} (hf : ∀ a, test (f a) = test a) (l : List α) (n : ℕ) :
    (l.modify n f).any test = l.any test := by
  induction l generalizing n with
  | nil => rw [modify_nil]
  | cons a l ih =>
    cases n with
    | zero => rw [modify_zero_cons, any_cons, any_cons, hf]
    | succ n => rw [modify_succ_cons, any_cons, any_cons, ih]

theorem modify_concat (f : α → α) (l : List α) (a : α) :
    (l ++ [a]).modify l.length f = l ++ [f a] := by
  induction l with
  | nil => rfl
  | cons b l ih => rw [cons_append, length_cons, modify_succ_cons, ih, cons_append]

namespace WatchTarget

variable {π φ File : Type} {stringify : π → φ} {t t' : WatchTarget π φ} {n : ℕ} {p : π}

/-- A refresh is scheduled or under way. -/
def Busy (t : WatchTarget π φ) : Prop := t.debounceTimer = true ∨ t.refreshPromise.isSome = true

/-- What the listeners of a registered target have been told. -/
structure Told (stringify : π → φ) (t : WatchTarget π φ) : Prop where
  latest : t.latestFingerprint = t.latestPayload.map stringify
  given : ∀ call ∈ t.subscriptions, call.listening = true → ∀ p, call.given = some p →
    t.latestFingerprint = some (stringify p)
  fresh : ∀ fingerprint, t.latestFingerprint = some fingerprint → fingerprint ∈ t.fresh ∨ t.Busy
  initial : t.latestFingerprint = none → ∀ call ∈ t.subscriptions, ∀ p,
    call.phase = .computing (some p) → stringify p ∈ t.fresh ∨ t.Busy
  refresh : ∀ r p, t.refreshPromise = some r → r.read = some p →
    stringify p ∈ t.fresh ∨ t.debounceTimer = true ∨ t.refreshQueued = true

structure Inv (stringify : π → φ) (t : WatchTarget π φ) : Prop where
  listeners : t.hasListeners = t.registered
  held : t.watching = (t.registered && t.openPromise == some .fulfilled)
  told : t.registered = true → Told stringify t

/-! ## What is told -/

section

variable (h : Told stringify t)
include h

/-- A change notice is answered by the refresh that it schedules. -/
theorem Told.scheduleTargetRefresh (force : Bool) :
    Told stringify (t.scheduleTargetRefresh force) :=
  ⟨h.latest, h.given, fun _ _ => Or.inr (Or.inl rfl), fun _ _ _ _ _ => Or.inr (Or.inl rfl),
    fun _ _ _ _ => Or.inr (Or.inl rfl)⟩

theorem Told.rememberWorkspaceSnapshot (snapshot : WorkspaceSnapshot) :
    Told stringify (t.rememberWorkspaceSnapshot snapshot) := by
  have hremembered : Told stringify { t with latestWorkspace := some snapshot } :=
    ⟨h.latest, h.given, h.fresh, h.initial, h.refresh⟩
  unfold WatchTarget.rememberWorkspaceSnapshot
  cases t.latestWorkspace with
  | none => exact hremembered
  | some previous =>
    dsimp only
    split_ifs
    · exact hremembered.scheduleTargetRefresh false
    · exact hremembered

/-- Calls that listen no more than before, and have no diff that they had not. -/
theorem Told.calls {calls : List (DiffSubscription π)}
    (hcalls : ∀ call ∈ calls, ∃ old ∈ t.subscriptions, (call.listening = true → old.listening = true) ∧
      call.given = old.given ∧ ∀ p, call.phase = .computing (some p) → old.phase = .computing (some p)) :
    Told stringify { t with subscriptions := calls } := by
  refine ⟨h.latest, ?_, h.fresh, ?_, h.refresh⟩
  · intro call hcall hlistening p hgiven
    obtain ⟨old, hold, hlisten, hsame, -⟩ := hcalls call hcall
    exact h.given old hold (hlisten hlistening) p (hsame ▸ hgiven)
  · intro hnone call hcall p hphase
    obtain ⟨old, hold, -, -, hread⟩ := hcalls call hcall
    exact h.initial hnone old hold p (hread p hphase)

theorem Told.modify (n : ℕ) {f : DiffSubscription π → DiffSubscription π}
    (hf : ∀ call, ((f call).listening = true → call.listening = true) ∧ (f call).given = call.given ∧
      ∀ p, (f call).phase = .computing (some p) → call.phase = .computing (some p)) :
    Told stringify { t with subscriptions := t.subscriptions.modify n f } := by
  apply h.calls
  intro call hcall
  rcases mem_modify hcall with hold | ⟨old, hold, rfl⟩
  · exact ⟨call, hold, id, rfl, fun _ => id⟩
  · exact ⟨old, mem_of_getElem? hold, hf old⟩

/-- An answer that is the first diff, or one like the latest. -/
theorem Told.answer (n : ℕ) (hsame : ∀ fingerprint,
    t.latestFingerprint = some fingerprint → fingerprint = stringify p)
    (hfirst : t.latestFingerprint = none → stringify p ∈ t.fresh ∨ t.Busy) :
    Told stringify (t.answer stringify n p) := by
  refine ⟨rfl, ?_, ?_, nofun, h.refresh⟩
  · intro call hcall hlistening q hgiven
    rcases mem_modify hcall with hold | ⟨old, -, rfl⟩
    · rw [hsame _ (h.given call hold hlistening q hgiven)]
      rfl
    · rw [← some.inj hgiven]
      rfl
  · intro fingerprint hlatest
    rw [← some.inj hlatest]
    cases hbefore : t.latestFingerprint with
    | none => exact hfirst hbefore
    | some before => exact hsame before hbefore ▸ h.fresh before hbefore

/-- A diff reads the repository. -/
theorem Told.read (p : π) :
    Told stringify { t with fresh := t.fresh ++ [stringify p] } := by
  have hmore : ∀ {fingerprint}, fingerprint ∈ t.fresh → fingerprint ∈ t.fresh ++ [stringify p] :=
    fun hmem => mem_append_left _ hmem
  refine ⟨h.latest, h.given, ?_, ?_, ?_⟩
  · exact fun fingerprint hlatest => (h.fresh fingerprint hlatest).imp_left hmore
  · exact fun hnone call hcall q hphase => (h.initial hnone call hcall q hphase).imp_left hmore
  · exact fun r q hr hq => (h.refresh r q hr hq).imp_left hmore

theorem Told.initialRead (n : ℕ) (p : π) :
    Told stringify { t with
      subscriptions := t.subscriptions.modify n fun call => { call with phase := .computing (some p) }
      fresh := t.fresh ++ [stringify p] } := by
  have hread := h.read p
  refine ⟨hread.latest, ?_, hread.fresh, ?_, hread.refresh⟩
  · intro call hcall hlistening q hgiven
    rcases mem_modify hcall with hold | ⟨old, hold, rfl⟩
    · exact h.given call hold hlistening q hgiven
    · exact h.given old (mem_of_getElem? hold) hlistening q hgiven
  · intro hnone call hcall q hphase
    rcases mem_modify hcall with hold | ⟨old, -, rfl⟩
    · exact hread.initial hnone call hold q hphase
    · have hq : p = q := by simpa using hphase
      exact Or.inl (mem_append_right _ (by rw [hq]; exact mem_singleton.mpr rfl))

theorem Told.refreshRead (force : Bool) (p : π) :
    Told stringify { t with
      refreshPromise := some ⟨force, some p⟩, fresh := t.fresh ++ [stringify p] } := by
  refine ⟨h.latest, h.given, fun _ _ => Or.inr (Or.inr rfl), fun _ _ _ _ _ => Or.inr (Or.inr rfl), ?_⟩
  intro r q hr hq
  rw [← some.inj hr] at hq
  rw [← some.inj hq]
  exact Or.inl (mem_append_right _ (mem_singleton.mpr rfl))

theorem Told.debounceFired : Told stringify t.debounceFired := by
  unfold WatchTarget.debounceFired refreshTarget
  cases hrefresh : t.refreshPromise with
  | some running =>
    rw [if_pos (by rfl)]
    refine ⟨h.latest, h.given, fun _ _ => Or.inr (Or.inr rfl), fun _ _ _ _ _ => Or.inr (Or.inr rfl), ?_⟩
    exact fun _ _ _ _ => Or.inr (Or.inr rfl)
  | none =>
    rw [if_neg (by exact Bool.false_ne_true)]
    refine ⟨h.latest, h.given, fun _ _ => Or.inr (Or.inr rfl), fun _ _ _ _ _ => Or.inr (Or.inr rfl), ?_⟩
    intro r q hr hq
    rw [← some.inj hr] at hq
    contradiction

theorem Told.storeRefreshed [DecidableEq φ] (hbusy : t.Busy) (p : π) :
    Told stringify (t.storeRefreshed stringify p) := by
  unfold WatchTarget.storeRefreshed
  split_ifs with hnew
  · refine ⟨rfl, ?_, fun _ _ => Or.inr hbusy, nofun, h.refresh⟩
    intro call hcall hlistening q hgiven
    obtain ⟨old, hold, rfl⟩ := List.mem_map.mp hcall
    split_ifs at hlistening hgiven with hlistens
    · rw [← some.inj hgiven]
    · exact absurd hlistening hlistens
  · have hsame : some (stringify p) = t.latestFingerprint := by simpa using hnew
    exact ⟨hsame.symm, h.given, h.fresh, h.initial, h.refresh⟩

omit h in
theorem latestFingerprint_storeRefreshed [DecidableEq φ] (t : WatchTarget π φ) (p : π) :
    (t.storeRefreshed stringify p).latestFingerprint = some (stringify p) := by
  unfold storeRefreshed
  split_ifs with hnew
  · rfl
  · have hsame : some (stringify p) = t.latestFingerprint := by simpa using hnew
    exact hsame.symm

/-- The diff of a refresh is fresh, unless another refresh follows. -/
theorem Told.nextRefresh (hlatest : t.latestFingerprint = some (stringify p))
    (hfresh : stringify p ∈ t.fresh ∨ t.debounceTimer = true ∨ t.refreshQueued = true) :
    Told stringify t.nextRefresh := by
  unfold WatchTarget.nextRefresh
  split_ifs with hqueued
  · refine ⟨h.latest, h.given, fun _ _ => Or.inr (Or.inr rfl), fun _ _ _ _ _ => Or.inr (Or.inr rfl), ?_⟩
    intro r q hr hq
    rw [← some.inj hr] at hq
    contradiction
  · refine ⟨h.latest, h.given, ?_, ?_, nofun⟩
    · intro fingerprint hother
      rw [← some.inj (hlatest.symm.trans hother)]
      rcases hfresh with hfresh | htimer | hother
      · exact Or.inl hfresh
      · exact Or.inr (Or.inl htimer)
      · exact absurd hother hqueued
    · intro hnone
      rw [hlatest] at hnone
      contradiction

end

/-! ## Steps of one target -/

section

variable (h : Inv stringify t)
include h

/-- A step that adds and removes no listener. -/
theorem Inv.keep (hregistered : t'.registered = t.registered)
    (hlisteners : t'.hasListeners = t.hasListeners) (hwatching : t'.watching = t.watching)
    (hopen : (t'.openPromise == some .fulfilled) = (t.openPromise == some .fulfilled))
    (htold : Told stringify t → Told stringify t') : Inv stringify t' where
  listeners := by rw [hlisteners, hregistered, h.listeners]
  held := by rw [hwatching, hregistered, hopen, h.held]
  told hopen' := htold (h.told (hregistered ▸ hopen'))

omit h in
theorem hasListeners_modify (t : WatchTarget π φ) (n : ℕ) {f : DiffSubscription π → DiffSubscription π}
    (hf : ∀ call, (f call).listening = call.listening) :
    { t with subscriptions := t.subscriptions.modify n f }.hasListeners = t.hasListeners :=
  any_modify hf t.subscriptions n

theorem Inv.scheduleTargetRefresh (force : Bool) :
    Inv stringify (t.scheduleTargetRefresh force) :=
  h.keep rfl rfl rfl rfl fun htold => htold.scheduleTargetRefresh force

omit h in
theorem rememberWorkspaceSnapshot_same (t : WatchTarget π φ) (snapshot : WorkspaceSnapshot) :
    (t.rememberWorkspaceSnapshot snapshot).registered = t.registered ∧
      (t.rememberWorkspaceSnapshot snapshot).subscriptions = t.subscriptions ∧
        (t.rememberWorkspaceSnapshot snapshot).watching = t.watching ∧
          (t.rememberWorkspaceSnapshot snapshot).openPromise = t.openPromise := by
  unfold rememberWorkspaceSnapshot
  cases t.latestWorkspace with
  | none => exact ⟨rfl, rfl, rfl, rfl⟩
  | some previous =>
    dsimp only
    split_ifs <;> exact ⟨rfl, rfl, rfl, rfl⟩

theorem Inv.rememberWorkspaceSnapshot (snapshot : WorkspaceSnapshot) :
    Inv stringify (t.rememberWorkspaceSnapshot snapshot) := by
  obtain ⟨hregistered, hcalls, hwatching, hopen⟩ := rememberWorkspaceSnapshot_same t snapshot
  refine h.keep hregistered ?_ hwatching (by rw [hopen]) fun htold => htold.rememberWorkspaceSnapshot snapshot
  rw [hasListeners, hcalls, hasListeners]

omit h in
/-- A target that nobody listens to is given up. -/
theorem inv_closed (hregistered : t.registered = false) (hlisteners : t.hasListeners = false)
    (hwatching : t.watching = false) : Inv stringify t where
  listeners := by rw [hlisteners, hregistered]
  held := by rw [hwatching, hregistered, Bool.false_and]
  told hopen := absurd hopen (by rw [hregistered]; exact Bool.false_ne_true)

omit h in
theorem inv_closeTarget (t : WatchTarget π φ) : Inv stringify { t.closeTarget with registered := false } := by
  apply inv_closed rfl _ rfl
  simp [hasListeners, closeTarget]

theorem Inv.removeListener (n : ℕ) : Inv stringify (t.removeListener n) := by
  unfold WatchTarget.removeListener
  dsimp only
  split_ifs with hmore
  · -- who listens still did so before
    have hbefore : t.hasListeners = true := by
      obtain ⟨call, hcall, hlistening⟩ := List.any_eq_true.mp hmore
      rcases mem_modify hcall with hold | ⟨old, -, rfl⟩
      · exact List.any_eq_true.mpr ⟨call, hold, hlistening⟩
      · contradiction
    refine h.keep rfl (hmore.trans hbefore.symm) rfl rfl fun htold => ?_
    exact htold.modify n fun call => ⟨nofun, rfl, fun _ => id⟩
  · exact inv_closeTarget _

theorem Inv.unsubscribe (n : ℕ) : Inv stringify (t.unsubscribe n) := by
  unfold WatchTarget.unsubscribe
  split_ifs
  · exact h
  · apply Inv.removeListener
    refine h.keep rfl (hasListeners_modify t n fun _ => rfl) rfl rfl fun htold => ?_
    exact htold.modify n fun call => ⟨id, rfl, fun _ => id⟩

theorem Inv.resume (n : ℕ) (hresume : t.resume stringify n = some t') :
    Inv stringify t' := by
  unfold WatchTarget.resume at hresume
  split at hresume
  · contradiction
  · contradiction
  · split at hresume
    · rename_i latest hlatest
      rw [← some.inj hresume]
      refine h.keep rfl (hasListeners_modify _ n fun _ => rfl) rfl rfl fun htold => ?_
      have hfingerprint : t.latestFingerprint = some (stringify latest) := by
        rw [htold.latest, hlatest]
        rfl
      apply htold.answer n
      · intro fingerprint hother
        exact some.inj (hother.symm.trans hfingerprint)
      · intro hnone
        rw [hfingerprint] at hnone
        contradiction
    · rw [← some.inj hresume]
      refine h.keep rfl (hasListeners_modify t n fun _ => rfl) rfl rfl fun htold => ?_
      exact htold.modify n fun call => ⟨id, rfl, nofun⟩
  · rw [← some.inj hresume]
    apply Inv.unsubscribe
    refine h.keep rfl (hasListeners_modify t n fun _ => rfl) rfl rfl fun htold => ?_
    exact htold.modify n fun call => ⟨id, rfl, nofun⟩

section

variable (hpending : t.openPromise = some .pending)
include hpending

/-- The watch is held from then on, if somebody listens. -/
theorem Inv.located (repoRoot : Option String) :
    Inv stringify (if !t.registered || !t.hasListeners then t.locate repoRoot
      else { t.locate repoRoot with watching := true }) := by
  have hfree : t.watching = false := by
    rw [h.held, hpending, Bool.and_eq_false_iff]
    exact Or.inr rfl
  have htold : Told stringify t → Told stringify (t.locate repoRoot) :=
    fun htold => ⟨htold.latest, htold.given, htold.fresh, htold.initial, htold.refresh⟩
  split_ifs with hgone
  · have hregistered : t.registered = false := by
      have hlisteners := h.listeners
      rcases hreg : t.registered with _ | _
      · rfl
      · rw [hreg] at hlisteners
        rw [hreg, hlisteners] at hgone
        contradiction
    exact inv_closed hregistered (h.listeners.trans hregistered) hfree
  · rw [Bool.or_eq_true, not_or] at hgone
    have hregistered : t.registered = true := by simpa using hgone.1
    refine ⟨h.listeners, ?_, fun _ => ?_⟩
    · change true = (t.registered && true)
      rw [hregistered]
      rfl
    · have htold' := htold (h.told hregistered)
      exact ⟨htold'.latest, htold'.given, htold'.fresh, htold'.initial, htold'.refresh⟩

theorem Inv.watchOpened (repoRoot : Option String) :
    Inv stringify (t.watchOpened repoRoot) :=
  h.located hpending repoRoot

omit h hpending in
theorem rememberWorkspaceSnapshot_watching (t : WatchTarget π φ) (snapshot : WorkspaceSnapshot) :
    { t with watching := true }.rememberWorkspaceSnapshot snapshot =
      { t.rememberWorkspaceSnapshot snapshot with watching := true } := by
  unfold rememberWorkspaceSnapshot
  cases t.latestWorkspace with
  | none => rfl
  | some previous =>
    dsimp only
    split_ifs <;> rfl

theorem Inv.snapshotOpened (snapshot : WorkspaceSnapshot) :
    Inv stringify (t.snapshotOpened snapshot) := by
  have hlocated := h.located hpending snapshot.repoRoot
  unfold WatchTarget.snapshotOpened
  split_ifs with hgone
  · rw [if_pos hgone] at hlocated
    exact hlocated
  · rw [if_neg hgone] at hlocated
    have hremembered := hlocated.rememberWorkspaceSnapshot snapshot
    rw [rememberWorkspaceSnapshot_watching] at hremembered
    exact hremembered

end

theorem Inv.debounceFired : Inv stringify t.debounceFired := by
  have hsame : t.debounceFired.registered = t.registered ∧
      t.debounceFired.subscriptions = t.subscriptions ∧ t.debounceFired.watching = t.watching ∧
        t.debounceFired.openPromise = t.openPromise := by
    unfold WatchTarget.debounceFired refreshTarget
    split_ifs <;> exact ⟨rfl, rfl, rfl, rfl⟩
  obtain ⟨hregistered, hcalls, hwatching, hopen⟩ := hsame
  refine h.keep hregistered ?_ hwatching (by rw [hopen]) Told.debounceFired
  rw [hasListeners, hcalls, hasListeners]

/-- A refresh that has its diff. -/
theorem Inv.refreshSettled [DecidableEq φ] {force : Bool}
    (hrefresh : t.refreshPromise = some ⟨force, some p⟩) :
    Inv stringify (t.storeRefreshed stringify p).nextRefresh := by
  have hstored : (t.storeRefreshed stringify p).fresh = t.fresh ∧
      (t.storeRefreshed stringify p).debounceTimer = t.debounceTimer ∧
        (t.storeRefreshed stringify p).refreshQueued = t.refreshQueued := by
    unfold storeRefreshed
    split_ifs <;> exact ⟨rfl, rfl, rfl⟩
  have hlisteners : (t.storeRefreshed stringify p).hasListeners = t.hasListeners := by
    unfold storeRefreshed
    split_ifs
    · rw [hasListeners, List.any_map, hasListeners]
      congr 1
      funext call
      rw [Function.comp_apply]
      split_ifs <;> rfl
    · rfl
  have hsame : (t.storeRefreshed stringify p).nextRefresh.registered = t.registered ∧
      (t.storeRefreshed stringify p).nextRefresh.subscriptions = (t.storeRefreshed stringify p).subscriptions ∧
        (t.storeRefreshed stringify p).nextRefresh.watching = t.watching ∧
          (t.storeRefreshed stringify p).nextRefresh.openPromise = t.openPromise := by
    unfold nextRefresh storeRefreshed
    split_ifs <;> exact ⟨rfl, rfl, rfl, rfl⟩
  obtain ⟨hregistered, hcalls, hwatching, hopen⟩ := hsame
  refine h.keep hregistered ?_ hwatching (by rw [hopen]) fun htold => ?_
  · rw [hasListeners, hcalls, ← hlisteners, hasListeners]
  · have hbusy : t.Busy := Or.inr (by rw [hrefresh]; rfl)
    apply (htold.storeRefreshed hbusy p).nextRefresh (latestFingerprint_storeRefreshed t p)
    rw [hstored.1, hstored.2.1, hstored.2.2]
    exact htold.refresh _ p hrefresh rfl

end

/-- The diff that a call has computed for itself. -/
def ownDiff : SubscribePhase π → Option π
  | .computing read => read
  | _ => none

/-- A diff of a call's own may not replace a different one. -/
def Careful [DecidableEq φ] (stringify : π → φ) (t : WatchTarget π φ) : TargetEvent File → Bool
  | .initialSettled n => (t.subscriptions[n]?).all fun call =>
    (ownDiff call.phase).all fun own => t.latestFingerprint.all (· == stringify own)
  | _ => true

section Steps

variable {Err Path : Type} [LE Path] [DecidableLE Path] [DecidableEq φ]
variable {o : DiffTools File Err Path φ} {t t' : WatchTarget (DiffSnapshot File Err) φ}

theorem inv_step {event : TargetEvent File} (h : Inv o.stringify t)
    (hcareful : t.Careful o.stringify event) (hstep : t.step o event = some t') : Inv o.stringify t' := by
  cases event with
  | watchOpened repoRoot =>
    rw [step] at hstep
    split_ifs at hstep with hpending
    exact some.inj hstep ▸ h.watchOpened hpending.1 repoRoot
  | snapshotOpened snapshot =>
    rw [step] at hstep
    split_ifs at hstep with hpending
    exact some.inj hstep ▸ h.snapshotOpened hpending.1 snapshot
  | openFailed =>
    rw [step] at hstep
    split_ifs at hstep with hpending
    rw [← some.inj hstep]
    refine h.keep rfl rfl rfl (by rw [hpending]; rfl) fun htold => ?_
    exact ⟨htold.latest, htold.given, htold.fresh, htold.initial, htold.refresh⟩
  | resumed n =>
    rw [step] at hstep
    split at hstep
    · split_ifs at hstep
      exact h.resume n hstep
    · contradiction
  | initialRead n result =>
    rw [step] at hstep
    split at hstep
    · split_ifs at hstep
      rw [← some.inj hstep]
      refine h.keep rfl (hasListeners_modify t n fun _ => rfl) rfl rfl fun htold => ?_
      exact htold.initialRead n _
    · contradiction
  | initialSettled n =>
    rw [step] at hstep
    split at hstep
    · rename_i call hcall
      split at hstep
      · rename_i snapshot hphase
        rw [← some.inj hstep]
        refine h.keep rfl (hasListeners_modify _ n fun _ => rfl) rfl rfl fun htold => ?_
        have hlatest : t.latestFingerprint.all (· == o.stringify snapshot) = true := by
          simpa [Careful, ownDiff, hcall, hphase] using hcareful
        apply htold.answer n
        · intro fingerprint hother
          rw [hother] at hlatest
          exact beq_iff_eq.mp hlatest
        · exact fun hnone => htold.initial hnone call (mem_of_getElem? hcall) snapshot hphase
      · contradiction
    · contradiction
  | unsubscribe n => exact some.inj hstep ▸ h.unsubscribe n
  | workingTreeChanged => exact some.inj hstep ▸ h.scheduleTargetRefresh true
  | workspaceSnapshot snapshot => exact some.inj hstep ▸ h.rememberWorkspaceSnapshot snapshot
  | debounceFired =>
    rw [step] at hstep
    split_ifs at hstep
    exact some.inj hstep ▸ h.debounceFired
  | refreshRead result =>
    rw [step] at hstep
    split at hstep
    · rw [← some.inj hstep]
      exact h.keep rfl rfl rfl rfl fun htold => htold.refreshRead _ _
    · contradiction
  | refreshSettled =>
    rw [step] at hstep
    split at hstep
    · rename_i hrefresh
      exact some.inj hstep ▸ h.refreshSettled hrefresh
    · contradiction

end Steps

/-- Nothing is on its way for a target. -/
structure Quiet (t : WatchTarget π φ) : Prop where
  debounce : t.debounceTimer = false
  refresh : t.refreshPromise = none
  calls : ∀ call ∈ t.subscriptions, ∀ read, call.phase ≠ .computing read

/-- What every listener was given last is like a diff that has read the repository since the last
change notice, and an opened target is watched as long as it has listeners. -/
structure Converges (stringify : π → φ) (t : WatchTarget π φ) : Prop where
  fresh : t.Quiet → ∀ call ∈ t.subscriptions, call.listening = true → ∀ p, call.given = some p →
    stringify p ∈ t.fresh
  watched : t.watching = (t.hasListeners && t.openPromise == some .fulfilled)

theorem Inv.converges (h : Inv stringify t) : Converges stringify t where
  fresh hquiet call hcall hlistening p hgiven := by
    have hregistered : t.registered = true := by
      rw [← h.listeners]
      exact List.any_eq_true.mpr ⟨call, hcall, hlistening⟩
    have htold := h.told hregistered
    rcases htold.fresh _ (htold.given call hcall hlistening p hgiven) with hfresh | htimer | hrefresh
    · exact hfresh
    · rw [hquiet.debounce] at htimer
      contradiction
    · rw [hquiet.refresh] at hrefresh
      contradiction
  watched := by rw [h.held, h.listeners]

end WatchTarget

namespace DiffManager

open WatchTarget

variable {π φ File Err Path : Type} {stringify : π → φ}

def Inv (stringify : π → φ) (s : DiffManager π φ) : Prop := ∀ t ∈ s, WatchTarget.Inv stringify t

/-- A target that is registered, to which a listener is added. -/
theorem inv_addListener {t : WatchTarget π φ} (hregistered : t.registered = true)
    (htold : Told stringify t) (hheld : t.watching = (t.openPromise == some .fulfilled))
    (peeked : Option WorkspaceSnapshot) (aborted : Bool) :
    WatchTarget.Inv stringify (addListener t peeked aborted) := by
  let added : WatchTarget π φ := { t with subscriptions := t.subscriptions ++ [⟨true, true, .opening, none⟩] }
  have hadded : WatchTarget.Inv stringify added := by
    refine ⟨?_, ?_, fun _ => ⟨htold.latest, ?_, htold.fresh, ?_, htold.refresh⟩⟩
    · change added.hasListeners = t.registered
      rw [hregistered, hasListeners, any_append]
      exact Bool.or_true _
    · change t.watching = (t.registered && _)
      rw [hregistered, hheld]
      rfl
    · intro call hcall hlistening p hgiven
      rcases mem_append.mp hcall with hold | hnew
      · exact htold.given call hold hlistening p hgiven
      · rw [mem_singleton.mp hnew] at hgiven
        contradiction
    · intro hnone call hcall p hphase
      rcases mem_append.mp hcall with hold | hnew
      · exact htold.initial hnone call hold p hphase
      · rw [mem_singleton.mp hnew] at hphase
        contradiction
  have hopening : WatchTarget.Inv stringify (if added.openPromise.isNone then openTarget added peeked
      else added) := by
    split_ifs with hnew
    · have hpending : WatchTarget.Inv stringify { added with openPromise := some .pending } := by
        refine hadded.keep rfl rfl rfl ?_ fun htold => ?_
        · rw [isNone_iff_eq_none.mp hnew]
          rfl
        · exact ⟨htold.latest, htold.given, htold.fresh, htold.initial, htold.refresh⟩
      unfold openTarget
      dsimp only
      split
      · exact hpending.snapshotOpened rfl _
      · exact hpending
    · exact hadded
  cases aborted with
  | true => exact hopening.unsubscribe t.subscriptions.length
  | false => exact hopening

theorem told_newTarget (cwd : String) (compare : Compare) :
    Told stringify (newTarget cwd compare : WatchTarget π φ) :=
  ⟨rfl, nofun, nofun, nofun, nofun⟩

theorem inv_subscribe {s : DiffManager π φ} (h : Inv stringify s) (cwd : String) (compare : Compare)
    (peeked : Option WorkspaceSnapshot) (aborted : Bool) :
    Inv stringify (s.subscribe cwd compare peeked aborted) := by
  unfold subscribe ensureTarget
  split
  · rename_i hfound
    split at hfound
    · rename_i index hindex
      rw [Prod.mk.injEq] at hfound
      intro t ht
      rw [← hfound.1, ← hfound.2] at ht
      rcases mem_modify ht with hold | ⟨old, hold, rfl⟩
      · exact h t hold
      · have hkey := of_findIdx?_eq_some hindex
        rw [hold] at hkey
        have hregistered : old.registered = true := by
          simp only [Bool.and_eq_true] at hkey
          exact hkey.1.1
        have hinv := h old (mem_of_getElem? hold)
        apply inv_addListener hregistered (hinv.told hregistered)
        rw [hinv.held, hregistered, Bool.true_and]
    · rw [Prod.mk.injEq] at hfound
      intro t ht
      rw [← hfound.1, ← hfound.2, modify_concat] at ht
      rcases mem_append.mp ht with hold | hnew
      · exact h t hold
      · rw [mem_singleton.mp hnew]
        exact inv_addListener rfl (told_newTarget cwd _) rfl peeked aborted

theorem inv_scheduleRefreshForCwd {s : DiffManager π φ} (h : Inv stringify s) (cwd : String) :
    Inv stringify (s.scheduleRefreshForCwd cwd) := by
  intro t ht
  obtain ⟨old, hold, rfl⟩ := List.mem_map.mp ht
  split_ifs
  · exact (h old hold).scheduleTargetRefresh true
  · exact h old hold

theorem inv_dispose {s : DiffManager π φ} (h : Inv stringify s) : Inv stringify s.dispose := by
  intro t ht
  obtain ⟨old, hold, rfl⟩ := List.mem_map.mp ht
  split_ifs
  · exact inv_closeTarget old
  · exact h old hold

variable [LE Path] [DecidableLE Path] [DecidableEq φ]
variable {o : DiffTools File Err Path φ} {s s' : DiffManager (DiffSnapshot File Err) φ}

/-- No diff of a call's own replaces a different one. -/
def Careful (o : DiffTools File Err Path φ) (s : DiffManager (DiffSnapshot File Err) φ) :
    DiffEvent File → Bool
  | .target index event => (s[index]?).all fun t => t.Careful o.stringify event
  | _ => true

def CarefulAlong (o : DiffTools File Err Path φ) (s : DiffManager (DiffSnapshot File Err) φ) :
    List (DiffEvent File) → Bool
  | [] => true
  | event :: events => s.Careful o event && (s.step o event).all fun s' => s'.CarefulAlong o events

theorem inv_step {event : DiffEvent File} (h : Inv o.stringify s) (hcareful : s.Careful o event)
    (hstep : s.step o event = some s') : Inv o.stringify s' := by
  cases event with
  | subscribe cwd compare peeked aborted =>
    exact some.inj hstep ▸ inv_subscribe h cwd compare peeked aborted
  | scheduleRefreshForCwd cwd => exact some.inj hstep ▸ inv_scheduleRefreshForCwd h _
  | dispose => exact some.inj hstep ▸ inv_dispose h
  | target index event =>
    rw [step] at hstep
    split at hstep
    · rename_i t ht
      obtain ⟨t', htarget, hs'⟩ := map_eq_some_iff.mp hstep
      rw [Careful, ht, all_some] at hcareful
      have hinv := WatchTarget.inv_step (h t (mem_of_getElem? ht)) hcareful htarget
      intro other hother
      rw [← hs'] at hother
      rcases mem_or_eq_of_mem_set hother with hold | hnew
      · exact h other hold
      · exact hnew ▸ hinv
    · contradiction

theorem inv_run (events : List (DiffEvent File)) (h : Inv o.stringify s)
    (hcareful : s.CarefulAlong o events) (hrun : s.run o events = some s') : Inv o.stringify s' := by
  induction events generalizing s with
  | nil => exact some.inj hrun ▸ h
  | cons event events ih =>
    obtain ⟨mid, hstep, hrest⟩ := bind_eq_some_iff.mp hrun
    rw [CarefulAlong, Bool.and_eq_true, hstep] at hcareful
    exact ih (inv_step h hcareful.1 hstep) hcareful.2 hrest

theorem subscribers_converge (events : List (DiffEvent File)) (hcareful : CarefulAlong o [] events)
    (hrun : DiffManager.run o [] events = some s) : ∀ t ∈ s, t.Converges o.stringify :=
  fun t ht => (inv_run events (fun _ hmem => absurd hmem List.not_mem_nil) hcareful hrun t ht).converges

/-- Files are their paths, and a diff is written out as its paths and its error. -/
def plainTools : DiffTools ℕ String ℕ (List ℕ × Option String) where
  path := id
  toCheckoutError := id
  stringify snapshot := (snapshot.files, snapshot.error)
  expandTilde := id

/-- Two calls for one target, of which the second comes while the diff of the first is computed. -/
def twoCalls : List (DiffEvent ℕ) :=
  [.subscribe "/repo" ⟨.uncommitted, false⟩ none false, .target 0 (.watchOpened none),
    .target 0 (.resumed 0), .target 0 (.initialRead 0 (.structured [2, 1])),
    .subscribe "/repo" ⟨.uncommitted, false⟩ none false, .target 0 (.initialSettled 0),
    .target 0 (.resumed 1), .target 0 .workingTreeChanged, .target 0 .debounceFired,
    .target 0 (.refreshRead (.structured [3])), .target 0 .workingTreeChanged,
    .target 0 .refreshSettled, .target 0 .debounceFired, .target 0 (.refreshRead .diffTooLarge),
    .target 0 .refreshSettled, .target 0 (.unsubscribe 0)]

theorem twoCalls_converge : ∃ s, DiffManager.run plainTools [] twoCalls = some s ∧
    ∀ t ∈ s, t.Converges plainTools.stringify := by
  obtain ⟨s, hrun⟩ : ∃ s, DiffManager.run plainTools [] twoCalls = some s :=
    Option.isSome_iff_exists.mp (by decide +kernel)
  exact ⟨s, hrun, subscribers_converge twoCalls (by decide +kernel) hrun⟩

/-- The diff of the call has read the repository before the change, and replaces that of the refresh. -/
theorem lateAnswer_stays : ∃ s, DiffManager.run plainTools []
      [.subscribe "/repo" ⟨.uncommitted, false⟩ none false, .target 0 (.watchOpened none),
        .target 0 (.resumed 0), .target 0 (.initialRead 0 (.structured [1])),
        .target 0 .workingTreeChanged, .target 0 .debounceFired,
        .target 0 (.refreshRead (.structured [2])), .target 0 .refreshSettled,
        .target 0 (.initialSettled 0)] = some s ∧
    ∃ t ∈ s, ¬ t.Converges plainTools.stringify := by
  refine ⟨_, rfl, _, List.mem_singleton.mpr rfl, fun h => ?_⟩
  have hcalls : ∀ call ∈ [(⟨true, true, .answered, some ⟨"/repo", [1], false, none⟩⟩ :
      DiffSubscription (DiffSnapshot ℕ String))], ∀ read, call.phase ≠ .computing read := by
    intro call hcall read
    rw [List.mem_singleton.mp hcall]
    nofun
  have hfresh := h.fresh ⟨rfl, rfl, hcalls⟩ _ (List.mem_singleton.mpr rfl) rfl ⟨"/repo", [1], false, none⟩ rfl
  exact absurd hfresh (by decide)

end DiffManager

end Orqara.Diff
