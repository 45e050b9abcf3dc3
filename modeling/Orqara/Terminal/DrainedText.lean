import Orqara.Terminal.OutputDrain

/-!
# What a drain has written

What was called and done since the last restore or clear is read off the history. Each reset, write
and resolved flush is right at its place there, in every run: only the reset of a restore that leaves
nothing to write is never paid.
-/

namespace Orqara.Terminal

open JsonParse List Option

/-- What a history says about the time since the last restore or clear. -/
structure Since where
  restored : Bool := false
  given : Units := []
  written : Units := []
  resets : ℕ := 0
  inFlight : Bool := false
  disposed : Bool := false
  deriving DecidableEq, Repr

namespace Since

def add (t : Since) : DrainEntry → Since
  | .enqueueText text => { t with given := t.given ++ text }
  | .restoreText text => { t with restored := true, given := text, written := [], resets := 0 }
  | .clear => { t with restored := false, given := [], written := [], resets := 0 }
  | .dispose => { t with disposed := true }
  | .reset => { t with resets := t.resets + 1 }
  | .write chunk => { t with written := t.written ++ chunk, inFlight := true }
  | .written => { t with inFlight := false }
  | .flush _ | .parse _ _ | .resolved _ => t

/-- The terminal has been reset for the last restore, and the text is written. -/
def Restored (t : Since) : Prop := t.resets = 1 ∧ t.written = t.given

/-- What has to hold before an entry. -/
def Allows (t : Since) : DrainEntry → Prop
  | .reset => t.inFlight = false ∧ t.restored = true ∧ t.resets = 0 ∧ t.written = []
  | .write chunk => t.inFlight = false ∧ t.written ++ chunk <+: t.given ∧
      t.resets = if t.restored then 1 else 0
  | .resolved _ => t.disposed = false →
      t.written = t.given ∧ (t.restored = true → (t.Restored ↔ t.given ≠ []))
  | _ => True

/-- Each entry stands where it is allowed. -/
def Sound (t : Since) : List DrainEntry → Prop
  | [] => True
  | entry :: entries => t.Allows entry ∧ (t.add entry).Sound entries

theorem sound_append (t : Since) (before after : List DrainEntry) :
    t.Sound (before ++ after) ↔ t.Sound before ∧ (before.foldl add t).Sound after := by
  induction before generalizing t with
  | nil => exact (true_and _).symm ▸ Iff.rfl
  | cons entry before ih => simp only [cons_append, Sound, ih, foldl_cons, and_assoc]

theorem sound_resolved {t : Since} (hallows : ∀ n, t.Allows (.resolved n)) (flushes : List ℕ) :
    t.Sound (flushes.map .resolved) := by
  induction flushes with
  | nil => trivial
  | cons n flushes ih => exact ⟨hallows n, ih⟩

theorem foldl_resolved (t : Since) (flushes : List ℕ) :
    (flushes.map DrainEntry.resolved).foldl add t = t := by
  induction flushes with
  | nil => rfl
  | cons n flushes ih => exact ih

/-- Where the reset of the last restore stands. -/
inductive Owes (t : Since) : Bool → Prop where
  | owed (restored : t.restored = true) (resets : t.resets = 0) (written : t.written = []) : Owes t true
  | paid (restored : t.restored = true) (resets : t.resets = 1) (given : t.given ≠ []) : Owes t false
  | nothing (restored : t.restored = false) (resets : t.resets = 0) : Owes t false

/-- What the state of a drain has to do with its history, whether a write is in flight or not. -/
structure Fits (t : Since) (disposed : Bool) (pendingText : Units) (resetBeforeNextWrite : Bool) :
    Prop where
  known : t.disposed = disposed
  text : disposed = false → t.written ++ pendingText = t.given
  cleared : disposed = true → pendingText = []
  owes : disposed = false → Owes t resetBeforeNextWrite

variable {t : Since} {disposed resetBeforeNextWrite : Bool} {pendingText text : Units}

theorem Fits.inFlight (h : Fits t disposed pendingText resetBeforeNextWrite) (inFlight : Bool) :
    Fits { t with inFlight } disposed pendingText resetBeforeNextWrite := by
  refine ⟨h.known, h.text, h.cleared, fun hopen => ?_⟩
  rcases h.owes hopen with ⟨hrestored, hresets, hwritten⟩ | ⟨hrestored, hresets, hgiven⟩ | ⟨hrestored, hresets⟩
  · exact .owed hrestored hresets hwritten
  · exact .paid hrestored hresets hgiven
  · exact .nothing hrestored hresets

/-- Nothing is left to write. -/
theorem Fits.allows_resolved (h : Fits t disposed [] resetBeforeNextWrite) (n : ℕ) :
    t.Allows (.resolved n) := by
  intro hopen
  rw [h.known] at hopen
  have hwritten : t.written = t.given := by
    rw [← h.text hopen, append_nil]
  refine ⟨hwritten, fun hrestored => ?_⟩
  rcases h.owes hopen with ⟨-, hresets, hnone⟩ | ⟨-, hresets, hgiven⟩ | ⟨hother, -⟩
  · rw [Restored, hresets, ← hwritten, hnone]
    simp
  · exact iff_of_true ⟨hresets, hwritten⟩ hgiven
  · rw [hother] at hrestored
    contradiction

theorem Fits.enqueueText (h : Fits t false pendingText resetBeforeNextWrite) (text : Units) :
    Fits (t.add (.enqueueText text)) false (pendingText ++ text) resetBeforeNextWrite := by
  refine ⟨h.known, fun _ => ?_, nofun, fun _ => ?_⟩
  · change t.written ++ (pendingText ++ text) = t.given ++ text
    rw [← append_assoc, h.text rfl]
  · rcases h.owes rfl with ⟨hrestored, hresets, hwritten⟩ | ⟨hrestored, hresets, hgiven⟩ | ⟨hrestored, hresets⟩
    · exact .owed hrestored hresets hwritten
    · exact .paid hrestored hresets (append_ne_nil_of_left_ne_nil hgiven text)
    · exact .nothing hrestored hresets

theorem Fits.restoreText (h : Fits t false pendingText resetBeforeNextWrite) (text : Units) :
    Fits (t.add (.restoreText text)) false text true :=
  ⟨h.known, fun _ => rfl, nofun, fun _ => .owed rfl rfl rfl⟩

theorem Fits.clear (h : Fits t disposed pendingText resetBeforeNextWrite) :
    Fits (t.add .clear) disposed [] false :=
  ⟨h.known, fun _ => rfl, fun _ => rfl, fun _ => .nothing rfl rfl⟩

/-- A disposed drain takes no more text. -/
theorem Fits.closed (h : t.disposed = true) : Fits t true [] resetBeforeNextWrite :=
  ⟨h, nofun, fun _ => rfl, nofun⟩

theorem Fits.reset (h : Fits t false pendingText true) (htext : pendingText ≠ []) :
    Fits (t.add .reset) false pendingText false := by
  refine ⟨h.known, h.text, nofun, fun _ => ?_⟩
  rcases h.owes rfl with ⟨hrestored, hresets, hwritten⟩
  refine .paid hrestored ?_ ?_
  · change t.resets + 1 = 1
    rw [hresets]
  · have hgiven := h.text rfl
    rw [hwritten, nil_append] at hgiven
    exact hgiven ▸ htext

theorem Fits.write (h : Fits t false pendingText false) (n : ℕ) :
    Fits (t.add (.write (pendingText.take n))) false (pendingText.drop (pendingText.take n).length)
      false := by
  refine ⟨h.known, fun _ => ?_, nofun, fun _ => ?_⟩
  · change t.written ++ pendingText.take n ++ _ = _
    rw [append_assoc, prefix_iff_eq_append.mp (List.take_prefix n pendingText)]
    exact h.text rfl
  · rcases h.owes rfl with _ | ⟨hrestored, hresets, hgiven⟩ | ⟨hrestored, hresets⟩
    · exact .paid hrestored hresets hgiven
    · exact .nothing hrestored hresets

end Since

namespace OutputDrain

variable {Snapshot : Type} {s s' : OutputDrain} {o : DrainOptions Snapshot}

def since (s : OutputDrain) : Since := s.history.foldl Since.add {}

/-- What holds also while `drainPending` runs. -/
structure Core (s : OutputDrain) : Prop where
  sound : Since.Sound {} s.history
  fits : s.since.Fits s.disposed s.pendingText s.resetBeforeNextWrite

structure Inv (s : OutputDrain) : Prop extends Core s where
  inFlight : s.since.inFlight = s.draining.isSome

theorem inv_init : Inv {} where
  sound := trivial
  fits := ⟨rfl, fun _ => rfl, nofun, fun _ => .nothing rfl rfl⟩
  inFlight := rfl

/-! ## The history -/

@[simp] theorem since_record (s : OutputDrain) (entry : DrainEntry) :
    (s.record entry).since = s.since.add entry := by
  rw [since, record, foldl_append]
  rfl

theorem Core.sound_record {entry : DrainEntry} (h : Core s) (hallows : s.since.Allows entry) :
    Since.Sound {} (s.record entry).history := by
  rw [record, Since.sound_append]
  exact ⟨h.sound, hallows, trivial⟩

/-! ## Flushes and schedules -/

theorem since_resolveIdle (s : OutputDrain) : s.resolveIdle.since = s.since := by
  rw [since, resolveIdle, foldl_append, Since.foldl_resolved, since]

theorem Inv.allows_resolved (h : Inv s) (hidle : s.pendingText = []) (n : ℕ) :
    s.since.Allows (.resolved n) := by
  have hfits := h.fits
  rw [hidle] at hfits
  exact hfits.allows_resolved n

theorem Inv.resolveIdle (h : Inv s) (hidle : s.pendingText = []) : Inv s.resolveIdle := by
  refine ⟨⟨?_, ?_⟩, ?_⟩
  · rw [OutputDrain.resolveIdle, Since.sound_append]
    exact ⟨h.sound, Since.sound_resolved (h.allows_resolved hidle) s.idleWaiters⟩
  · rw [since_resolveIdle]
    exact h.fits
  · rw [since_resolveIdle]
    exact h.inFlight

theorem Inv.resolveIdleIfReady (h : Inv s) : Inv s.resolveIdleIfReady := by
  unfold OutputDrain.resolveIdleIfReady
  split_ifs with hbusy
  · exact h
  · have hidle : (s.drainScheduled = false ∧ s.draining = none) ∧ s.pendingText = [] := by
      simpa using hbusy
    exact h.resolveIdle hidle.2

theorem Inv.scheduleDrain (h : Inv s) : Inv s.scheduleDrain := by
  unfold OutputDrain.scheduleDrain
  split_ifs
  · exact h
  · exact ⟨⟨h.sound, h.fits⟩, h.inFlight⟩

/-! ## Drains -/

theorem Core.finishDrain (h : Core s) (hwritten : s.since.inFlight = false) : Inv s.finishDrain := by
  have hfinished : Inv { s with draining := none } := ⟨⟨h.sound, h.fits⟩, hwritten⟩
  unfold OutputDrain.finishDrain
  dsimp only
  split_ifs
  · exact hfinished.scheduleDrain.resolveIdleIfReady
  · exact hfinished.resolveIdleIfReady

/-- A reset that is owed is paid. -/
theorem Core.resetIfOwed (h : Core s) (hwritten : s.since.inFlight = false)
    (hopen : s.disposed = false) (htext : s.pendingText ≠ []) :
    Core s.resetIfOwed ∧ s.resetIfOwed.since.inFlight = false ∧
      s.resetIfOwed.resetBeforeNextWrite = false ∧ s.resetIfOwed.disposed = false ∧
        s.resetIfOwed.pendingText = s.pendingText := by
  have hfits := h.fits
  rw [hopen] at hfits
  unfold OutputDrain.resetIfOwed
  split_ifs with howes
  · rw [howes] at hfits
    have hallows : s.since.Allows .reset := by
      rcases hfits.owes rfl with ⟨hrestored, hresets, hnone⟩
      exact ⟨hwritten, hrestored, hresets, hnone⟩
    have hsince := since_record s .reset
    refine ⟨⟨h.sound_record hallows, ?_⟩, ?_, rfl, hopen, rfl⟩
    · change (s.record .reset).since.Fits s.disposed s.pendingText false
      rw [hsince, hopen]
      exact hfits.reset htext
    · change (s.record .reset).since.inFlight = false
      rw [hsince]
      exact hwritten
  · exact ⟨h, hwritten, by simpa using howes, hopen, rfl⟩

theorem Core.writeChunk (h : Core s) (hwritten : s.since.inFlight = false) (hopen : s.disposed = false)
    (howes : s.resetBeforeNextWrite = false) (chunkChars activeGeneration parsedChunks : ℕ) :
    Inv (s.writeChunk chunkChars activeGeneration parsedChunks) := by
  have hfits := h.fits
  rw [hopen, howes] at hfits
  have hallows : s.since.Allows (.write (s.pendingText.take chunkChars)) := by
    refine ⟨hwritten, ?_, ?_⟩
    · rw [← hfits.text rfl]
      exact (prefix_append_right_inj _).mpr (List.take_prefix _ _)
    · rcases hfits.owes rfl with _ | ⟨hrestored, hresets, -⟩ | ⟨hrestored, hresets⟩
      · rw [hrestored, hresets, if_pos rfl]
      · rw [hrestored, hresets, if_neg Bool.false_ne_true]
  have hsince := since_record s (.write (s.pendingText.take chunkChars))
  refine ⟨⟨h.sound_record hallows, ?_⟩, ?_⟩
  · change (s.record _).since.Fits s.disposed _ s.resetBeforeNextWrite
    rw [hsince, hopen, howes]
    exact hfits.write chunkChars
  · change (s.record _).since.inFlight = true
    rw [hsince]
    rfl

theorem Core.drainLoop (h : Core s) (hwritten : s.since.inFlight = false)
    (activeGeneration parsedChunks : ℕ) : Inv (s.drainLoop o activeGeneration parsedChunks) := by
  unfold OutputDrain.drainLoop
  split_ifs with hmore hstale
  · exact h.finishDrain hwritten
  · rw [Bool.or_eq_true, not_or, Bool.not_eq_true] at hstale
    rw [Bool.and_eq_true, decide_eq_true_eq, length_pos_iff] at hmore
    obtain ⟨hcore, hfree, howes, hopen, -⟩ := h.resetIfOwed hwritten hstale.1 hmore.1
    exact hcore.writeChunk hfree hopen howes _ _ _
  · exact h.finishDrain hwritten

section

variable (h : Inv s)
include h

theorem Inv.drainPending : Inv (s.drainPending o) := by
  unfold OutputDrain.drainPending
  split_ifs with hbusy
  · exact h
  · have hcore : Core { s with drainScheduled := false } := ⟨h.sound, h.fits⟩
    apply hcore.drainLoop
    rw [Bool.or_eq_true, not_or, Bool.not_eq_true, Bool.not_eq_true] at hbusy
    exact h.inFlight.trans hbusy.2

theorem Inv.afterWrite (active : ActiveDrain) : Inv ((s.record .written).afterWrite o active) := by
  have hwritten : (s.record .written).since = { s.since with inFlight := false } := since_record s .written
  have hcore : Core (s.record .written) := by
    refine ⟨h.sound_record trivial, ?_⟩
    rw [hwritten]
    exact h.fits.inFlight false
  have hfree : (s.record .written).since.inFlight = false := by rw [hwritten]
  unfold OutputDrain.afterWrite
  split_ifs
  · exact hcore.finishDrain hfree
  · generalize s.record .written = s at hcore hfree
    have hparse : ∀ m n, Core (s.record (.parse m n)).requestPaint ∧
        (s.record (.parse m n)).requestPaint.since.inFlight = false := by
      intro m n
      have hsame : (s.record (.parse m n)).since = s.since := since_record s (.parse m n)
      have hcore' : Core (s.record (.parse m n)) := by
        refine ⟨hcore.sound_record trivial, ?_⟩
        rw [hsame]
        exact hcore.fits
      unfold requestPaint
      split_ifs
      · exact ⟨hcore', hsame ▸ hfree⟩
      · exact ⟨⟨hcore'.sound, hcore'.fits⟩, hsame ▸ hfree⟩
    exact (hparse _ _).1.drainLoop (hparse _ _).2 _ _

/-! ## Calls -/

/-- A call that is recorded, with what it changes. -/
theorem Inv.called {entry : DrainEntry} (hhistory : s'.history = (s.record entry).history)
    (hallows : s.since.Allows entry)
    (hfits : (s.since.add entry).Fits s'.disposed s'.pendingText s'.resetBeforeNextWrite)
    (hinFlight : (s.since.add entry).inFlight = s.since.inFlight) (hdraining : s'.draining = s.draining) :
    Inv s' := by
  have hsince : s'.since = s.since.add entry := by
    rw [← since_record, since, hhistory, since]
  refine ⟨⟨?_, ?_⟩, ?_⟩
  · rw [hhistory]
    exact h.sound_record hallows
  · rw [hsince]
    exact hfits
  · rw [hsince, hinFlight, hdraining]
    exact h.inFlight

theorem Inv.enqueueText (text : Units) : Inv (s.enqueueText text) := by
  have hfits := h.fits
  unfold OutputDrain.enqueueText
  dsimp only
  cases hdisposed : s.disposed with
  | true =>
    rw [if_pos (by simp [record, hdisposed])]
    rw [hdisposed] at hfits
    refine h.called rfl trivial ?_ rfl rfl
    change Since.Fits _ s.disposed s.pendingText _
    rw [hdisposed, hfits.cleared rfl]
    exact Since.Fits.closed hfits.known
  | false =>
    rw [hdisposed] at hfits
    split_ifs with hempty
    · refine h.called rfl trivial ?_ rfl rfl
      have htext : text = [] := by simpa [record, hdisposed] using hempty
      have hnew := hfits.enqueueText text
      rw [htext, append_nil] at hnew
      change Since.Fits _ s.disposed s.pendingText s.resetBeforeNextWrite
      rw [hdisposed, htext]
      exact hnew
    · apply Inv.scheduleDrain
      have hallows : s.since.Allows (.enqueueText text) := trivial
      refine h.called rfl hallows ?_ rfl rfl
      change Since.Fits _ s.disposed _ s.resetBeforeNextWrite
      rw [hdisposed]
      exact hfits.enqueueText text

theorem Inv.restoreText (text : Units) : Inv (s.restoreText text) := by
  have hfits := h.fits
  unfold OutputDrain.restoreText
  dsimp only
  cases hdisposed : s.disposed with
  | true =>
    rw [if_pos (by simp [record, hdisposed])]
    rw [hdisposed] at hfits
    refine h.called rfl trivial ?_ rfl rfl
    change Since.Fits _ s.disposed s.pendingText _
    rw [hdisposed, hfits.cleared rfl]
    exact Since.Fits.closed hfits.known
  | false =>
    rw [if_neg (by simp [record, hdisposed])]
    rw [hdisposed] at hfits
    apply Inv.resolveIdleIfReady
    apply Inv.scheduleDrain
    refine h.called rfl trivial ?_ rfl rfl
    change Since.Fits _ s.disposed text true
    rw [hdisposed]
    exact hfits.restoreText text

theorem Inv.clear : Inv s.clear := by
  apply Inv.resolveIdleIfReady
  refine h.called rfl trivial ?_ rfl rfl
  exact h.fits.clear

theorem Inv.flush : Inv s.flush := by
  unfold OutputDrain.flush
  dsimp only
  have hflush : Inv { s.record (.flush s.flushes) with flushes := s.flushes + 1 } :=
    h.called rfl trivial h.fits rfl rfl
  split_ifs with hidle
  · have htext : s.pendingText = [] := by
      rw [Bool.and_eq_true] at hidle
      simpa [record] using hidle.2
    exact hflush.called rfl (hflush.allows_resolved htext _) hflush.fits rfl rfl
  · have hscheduled := hflush.scheduleDrain
    exact ⟨⟨hscheduled.sound, hscheduled.fits⟩, hscheduled.inFlight⟩

theorem Inv.dispose : Inv s.dispose := by
  apply Inv.resolveIdle
  · refine h.called rfl trivial ?_ rfl rfl
    exact Since.Fits.closed rfl
  · rfl

theorem inv_step {event : DrainEvent Snapshot} (hstep : s.step o event = some s') : Inv s' := by
  cases event with
  | enqueueText text => exact some.inj hstep ▸ h.enqueueText text
  | restoreText text => exact some.inj hstep ▸ h.restoreText text
  | restoreSnapshot snapshot => exact some.inj hstep ▸ h.restoreText (o.renderSnapshot snapshot)
  | clear => exact some.inj hstep ▸ h.clear
  | flush => exact some.inj hstep ▸ h.flush
  | dispose => exact some.inj hstep ▸ h.dispose
  | scheduledWork =>
    rw [step] at hstep
    split_ifs at hstep
    rw [← some.inj hstep]
    exact Inv.drainPending ⟨⟨h.sound, h.fits⟩, h.inFlight⟩
  | writeCompleted =>
    rw [step] at hstep
    split at hstep
    · exact some.inj hstep ▸ h.afterWrite _
    · contradiction
  | frame =>
    rw [step] at hstep
    split_ifs at hstep
    rw [← some.inj hstep]
    exact ⟨⟨h.sound, h.fits⟩, h.inFlight⟩

end

theorem inv_run (events : List (DrainEvent Snapshot)) (h : Inv s) (hrun : s.run o events = some s') :
    Inv s' := by
  induction events generalizing s with
  | nil => exact some.inj hrun ▸ h
  | cons event events ih =>
    obtain ⟨mid, hstep, hrest⟩ := bind_eq_some_iff.mp hrun
    exact ih (inv_step h hstep) hrest

/-! ## The drain writes once -/

/-- Every entry is in its place, and what is written is a beginning of what was given. -/
structure WritesOnce (s : OutputDrain) : Prop where
  sound : Since.Sound {} s.history
  prefix' : s.disposed = false → s.since.written <+: s.since.given

theorem writesOnce (events : List (DrainEvent Snapshot)) (hrun : OutputDrain.run o {} events = some s) :
    WritesOnce s where
  sound := (inv_run events inv_init hrun).sound
  prefix' hopen := ⟨s.pendingText, (inv_run events inv_init hrun).fits.text hopen⟩

/-- A restore over text of which a chunk is being written, and more text behind it. -/
def restoredBetween : List (DrainEvent Unit) :=
  [.enqueueText [1, 2, 3], .scheduledWork, .restoreSnapshot (), .flush, .writeCompleted,
    .scheduledWork, .enqueueText [7], .writeCompleted, .writeCompleted]

def smallChunks : DrainOptions Unit := ⟨fun _ => [4, 5, 6], 2, 3⟩

theorem restoredBetween_writesOnce :
    ∃ s, OutputDrain.run smallChunks {} restoredBetween = some s ∧ WritesOnce s := by
  obtain ⟨s, hrun⟩ : ∃ s, OutputDrain.run smallChunks {} restoredBetween = some s :=
    Option.isSome_iff_exists.mp (by decide +kernel)
  exact ⟨s, hrun, writesOnce restoredBetween hrun⟩

/-- A flush resolves, but the terminal still shows what was there before an empty restore. -/
theorem emptyRestore_keeps : ∃ s, OutputDrain.run smallChunks {}
      [.enqueueText [1], .scheduledWork, .writeCompleted, .restoreText [], .flush, .scheduledWork] =
        some s ∧
    s.history.getLast? = some (.resolved 0) ∧ s.since.restored = true ∧ ¬ s.since.Restored :=
  ⟨_, rfl, by decide +kernel, by decide +kernel, fun h => absurd h.1 (by decide +kernel)⟩

end OutputDrain

end Orqara.Terminal
