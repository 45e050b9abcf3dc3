import Orqara.Terminal.InputMode

/-!
# Feeding output in pieces

The matches of the tracker's regular expression are the sequences of a scan that
carries over what may still be completed. The tracker carries over the same, except
for an ESC alone. So the pieces of a text lead to the modes of the whole text
unless a sequence is cut behind its ESC.
-/

namespace Orqara.Terminal

open JsNumber

/-! ## The expression as a scan -/

/-- A sequence, a beginning of one, or neither. -/
def readSequence (text : Text) : Reading ℕ InputModeSequence :=
  match matchSequence text with
  | some (sequence, rest) => .complete sequence rest
  | none => if text = [27] ∨ isIncomplete text then .incomplete else .mismatch

variable {text : Text} {sequence : InputModeSequence} {body : Text} {tracker : TerminalInputModeTracker}
  {chunks : List Text}

theorem readSequence_complete {rest : Text} :
    readSequence text = .complete sequence rest ↔ matchSequence text = some (sequence, rest) := by
  unfold readSequence
  split
  · rename_i found remaining hmatch
    simp [hmatch]
  · rename_i hmatch
    split <;> simp [hmatch]

theorem readSequence_incomplete (h : matchSequence text = none) :
    readSequence text = .incomplete ↔ text = [27] ∨ isIncomplete text = true := by
  unfold readSequence
  rw [h]
  dsimp only
  split <;> simp_all

theorem readSequence_mismatch :
    readSequence text = .mismatch ↔
      matchSequence text = none ∧ text ≠ [27] ∧ isIncomplete text = false := by
  unfold readSequence
  split
  · simp_all
  · rename_i hmatch
    split
    · rename_i hbegins
      simp only [reduceCtorEq, false_iff, not_and, hmatch, true_and]
      intro hesc
      simpa [hesc] using hbegins
    · rename_i hbegins
      simpa [hmatch, not_or] using hbegins

/-- How a text behind `ESC [` goes on: it ends, or a character decides. -/
theorem takeMarker_append (ne : body ≠ []) (more : Text) :
    takeMarker (body ++ more) = ((takeMarker body).1, (takeMarker body).2 ++ more) := by
  cases body with
  | nil => exact absurd rfl ne
  | cons c body =>
    rw [List.cons_append, takeMarker, takeMarker]
    split <;> rfl

theorem isIncomplete_iff :
    isIncomplete (27 :: 91 :: body) = true ↔ (takeMarker body).2.dropWhile isParam = [] := by
  rw [isIncomplete, List.all_eq_true, List.dropWhile_eq_nil_iff]

/-- What decides about a text behind `ESC [` stays the same with more text behind it. -/
theorem decided_append {final : ℕ} {rest : Text}
    (h : (takeMarker body).2.dropWhile isParam = final :: rest) (more : Text) :
    (takeMarker (body ++ more)).1 = (takeMarker body).1 ∧
      (takeMarker (body ++ more)).2.takeWhile isParam = (takeMarker body).2.takeWhile isParam ∧
      (takeMarker (body ++ more)).2.dropWhile isParam = final :: (rest ++ more) := by
  have hne : body ≠ [] := by
    intro hnil
    rw [hnil] at h
    cases h
  rw [takeMarker_append hne]
  refine ⟨rfl, ?_, ?_⟩
  · rw [List.takeWhile_append, if_neg]
    intro hlen
    have hsplit := congrArg List.length (List.takeWhile_append_dropWhile
      (p := isParam) (l := (takeMarker body).2))
    rw [List.length_append, h, List.length_cons] at hsplit
    omega
  · rw [List.dropWhile_append, h]
    rfl

theorem matchSequence_append {rest : Text} (h : matchSequence text = some (sequence, rest)) (more : Text) :
    matchSequence (text ++ more) = some (sequence, rest ++ more) := by
  unfold matchSequence at h
  split at h
  · rename_i body
    dsimp only at h
    split at h
    · cases h
    · rename_i final remaining hdrop
      obtain ⟨hmarker, hparams, hrest⟩ := decided_append hdrop more
      rw [List.cons_append, List.cons_append, matchSequence]
      dsimp only
      rw [hmarker, hparams, hrest]
      dsimp only
      split at h
      · rename_i hfinal
        cases h
        rw [if_pos hfinal]
      · rename_i hfinal
        split at h
        · rename_i hprivate
          cases h
          rw [if_neg hfinal, if_pos hprivate]
        · cases h
  · cases h

theorem matchSequence_suffix {rest : Text} (h : matchSequence text = some (sequence, rest)) :
    rest <:+ text ∧ rest.length < text.length := by
  unfold matchSequence at h
  split at h
  · rename_i body
    dsimp only at h
    split at h
    · cases h
    · rename_i final remaining hdrop
      have hrest : rest = remaining := by
        split at h
        · cases h; rfl
        · split at h
          · cases h; rfl
          · cases h
      have hmarker : (takeMarker body).2 <:+ body := by
        cases body with
        | nil => exact List.suffix_rfl
        | cons c body =>
          rw [takeMarker]
          split
          · exact List.suffix_cons c body
          · exact List.suffix_rfl
      have hsuffix : final :: remaining <:+ body :=
        (hdrop ▸ List.dropWhile_suffix isParam).trans hmarker
      have hbody : remaining <:+ body := (List.suffix_cons final remaining).trans hsuffix
      have hlen := hsuffix.length_le
      rw [List.length_cons] at hlen
      refine ⟨?_, ?_⟩
      · rw [hrest]
        exact hbody.trans ((List.suffix_cons 91 body).trans (List.suffix_cons 27 _))
      · rw [hrest, List.length_cons, List.length_cons]
        omega
  · cases h

/-- A text that is neither a sequence nor the beginning of one does not become one. -/
theorem mismatch_append (ne : text ≠ []) (h : readSequence text = .mismatch) (more : Text) :
    readSequence (text ++ more) = .mismatch := by
  obtain ⟨hmatch, hesc, hincomplete⟩ := readSequence_mismatch.mp h
  apply readSequence_mismatch.mpr
  match text, ne, hesc with
  | [c], _, hesc =>
    have hc : c ≠ 27 := fun heq => hesc (by rw [heq])
    refine ⟨?_, by simp [hc], ?_⟩
    · rw [List.cons_append, matchSequence]
      rintro body heq
      cases heq
      exact hc rfl
    · rw [List.cons_append, isIncomplete]
      rintro body heq
      cases heq
      exact hc rfl
  | c :: d :: body, _, _ =>
    by_cases hopening : c = 27 ∧ d = 91
    · obtain ⟨rfl, rfl⟩ := hopening
      cases hdrop : (takeMarker body).2.dropWhile isParam with
      | nil =>
        rw [isIncomplete_iff.mpr hdrop] at hincomplete
        cases hincomplete
      | cons final rest =>
        obtain ⟨hmarker, hparams, hrest⟩ := decided_append hdrop more
        refine ⟨?_, by simp, ?_⟩
        · rw [matchSequence] at hmatch
          dsimp only at hmatch
          rw [hdrop] at hmatch
          rw [List.cons_append, List.cons_append, matchSequence]
          dsimp only
          rw [hmarker, hparams, hrest]
          dsimp only at hmatch ⊢
          split at hmatch
          · cases hmatch
          · rename_i hfinal
            split at hmatch
            · cases hmatch
            · rename_i hprivate
              rw [if_neg hfinal, if_neg hprivate]
        · rw [List.cons_append, List.cons_append, Bool.eq_false_iff, Ne, isIncomplete_iff, hrest]
          exact List.cons_ne_nil _ _
    · refine ⟨?_, by simp, ?_⟩
      · rw [List.cons_append, List.cons_append, matchSequence]
        rintro rest heq
        cases heq
        exact hopening ⟨rfl, rfl⟩
      · rw [List.cons_append, List.cons_append, isIncomplete]
        rintro rest heq
        cases heq
        exact hopening ⟨rfl, rfl⟩

theorem stable_readSequence : Stable readSequence where
  complete h more := readSequence_complete.mpr (matchSequence_append (readSequence_complete.mp h) more)
  mismatch ne h more := mismatch_append ne h more
  shorter h := (matchSequence_suffix (readSequence_complete.mp h)).2

/-! ## The matches of the tracker -/

theorem not_esc_of_isParam {c : ℕ} (h : isParam c = true) : c ≠ 27 := by
  rintro rfl
  cases h

/-- Nothing begins in a text without an ESC. -/
theorem readSequence_no_esc {c : ℕ} (h : c ≠ 27) (text : Text) :
    readSequence (c :: text) = .mismatch := by
  apply readSequence_mismatch.mpr
  refine ⟨?_, by simp [h], ?_⟩
  · rw [matchSequence]
    rintro body heq
    cases heq
    exact h rfl
  · rw [isIncomplete]
    rintro body heq
    cases heq
    exact h rfl

section

variable (h : ∀ c ∈ text, c ≠ 27)
include h

theorem scan_no_esc (more : Text) :
    scan readSequence (text ++ more) = scan readSequence more := by
  induction text with
  | nil => rfl
  | cons c text ih =>
    rw [List.cons_append, scan_mismatch (readSequence_no_esc (h c (by simp)) _)]
    exact ih fun d hd => h d (List.mem_cons_of_mem _ hd)

theorem exec_no_esc : exec text = none := by
  induction text with
  | nil => rfl
  | cons c text ih =>
    have hnone := (readSequence_mismatch.mp (readSequence_no_esc (h c (by simp)) text)).1
    rw [exec, hnone, Option.none_or]
    exact ih fun d hd => h d (List.mem_cons_of_mem _ hd)

theorem fromLastOpening_no_esc :
    fromLastOpening text = none := by
  induction text with
  | nil => rfl
  | cons c text ih =>
    rw [fromLastOpening, ih fun d hd => h d (List.mem_cons_of_mem _ hd), Option.none_or]
    exact if_neg fun hopening => h c (by simp) hopening.1

end

/-- A text that may still be completed has no second ESC. -/
theorem incomplete_tail (h : isIncomplete (27 :: 91 :: body) = true) :
    ∀ c ∈ 91 :: body, c ≠ 27 := by
  intro c hc
  rcases List.mem_cons.mp hc with rfl | hc
  · omega
  · rw [isIncomplete, List.all_eq_true] at h
    cases body with
    | nil => cases hc
    | cons d body =>
      rw [takeMarker] at h
      split at h
      · rename_i hmarker
        rcases List.mem_cons.mp hc with rfl | hc
        · rintro rfl
          cases hmarker
        · exact not_esc_of_isParam (h c hc)
      · exact not_esc_of_isParam (h c hc)

theorem isIncomplete_cases (h : isIncomplete text = true) :
    ∃ body, text = 27 :: 91 :: body := by
  unfold isIncomplete at h
  split at h
  · exact ⟨_, rfl⟩
  · cases h

/-- What the tracker keeps of a carry. -/
def withoutEsc (carry : Text) : Text := if carry = [27] then [] else carry

/-- Where the expression finds nothing, the tracker keeps what the scan carries over. -/
theorem scan_of_exec_none (h : exec text = none) :
    (scan readSequence text).1 = [] ∧ pendingOf text = withoutEsc (scan readSequence text).2 := by
  induction text with
  | nil => exact ⟨rfl, rfl⟩
  | cons c text ih =>
    rw [exec] at h
    obtain ⟨hmatch, hrest⟩ := Option.or_eq_none_iff.mp h
    cases hread : readSequence (c :: text) with
    | complete sequence rest =>
      rw [readSequence_complete.mp hread] at hmatch
      cases hmatch
    | incomplete =>
      rw [scan_incomplete hread]
      refine ⟨rfl, ?_⟩
      rcases (readSequence_incomplete hmatch).mp hread with hesc | hincomplete
      · rw [hesc]
        rfl
      · obtain ⟨body, heq⟩ := isIncomplete_cases hincomplete
        cases heq
        have hnone := fromLastOpening_no_esc (incomplete_tail hincomplete)
        rw [pendingOf, fromLastOpening, hnone]
        simp [hincomplete, withoutEsc]
    | mismatch =>
      rw [scan_mismatch hread]
      obtain ⟨hsequences, hpending⟩ := ih hrest
      refine ⟨hsequences, ?_⟩
      rw [← hpending, pendingOf, pendingOf, fromLastOpening]
      cases hlast : fromLastOpening text with
      | some pending => rfl
      | none =>
        -- the opening at the start, if there is one, leads nowhere
        rw [Option.none_or]
        split
        · rfl
        · rename_i pending hpending
          split at hpending
          · cases hpending
            rw [(readSequence_mismatch.mp hread).2.2]
            rfl
          · cases hpending

theorem scan_of_exec_some {rest : Text} (h : exec text = some (sequence, rest)) :
    scan readSequence text =
        (sequence :: (scan readSequence rest).1, (scan readSequence rest).2) ∧
      rest.length < text.length := by
  induction text with
  | nil => cases h
  | cons c text ih =>
    rw [exec] at h
    rcases Option.or_eq_some_iff.mp h with hmatch | ⟨hmatch, hrest⟩
    · exact ⟨scan_complete stable_readSequence (readSequence_complete.mpr hmatch),
        (matchSequence_suffix hmatch).2⟩
    · cases hread : readSequence (c :: text) with
      | complete other remaining =>
        rw [readSequence_complete.mp hread] at hmatch
        cases hmatch
      | incomplete =>
        -- nothing is found behind a beginning that goes on to the end
        rcases (readSequence_incomplete hmatch).mp hread with hesc | hincomplete
        · cases hesc
          cases hrest
        · obtain ⟨body, heq⟩ := isIncomplete_cases hincomplete
          cases heq
          rw [exec_no_esc (incomplete_tail hincomplete)] at hrest
          cases hrest
      | mismatch =>
        rw [scan_mismatch hread]
        obtain ⟨hscan, hlen⟩ := ih hrest
        exact ⟨hscan, hlen.trans_le (by simp)⟩

theorem matchesWithin_scan {fuel : ℕ} (h : text.length ≤ fuel) :
    (matchesWithin fuel text).1 = (scan readSequence text).1 ∧
      pendingOf (matchesWithin fuel text).2 = withoutEsc (scan readSequence text).2 := by
  induction fuel generalizing text with
  | zero =>
    obtain rfl : text = [] := List.length_eq_zero_iff.mp (by omega)
    exact ⟨rfl, rfl⟩
  | succ fuel ih =>
    rw [matchesWithin]
    cases hexec : exec text with
    | none =>
      obtain ⟨hsequences, hpending⟩ := scan_of_exec_none hexec
      exact ⟨hsequences.symm, hpending⟩
    | some found =>
      obtain ⟨sequence, rest⟩ := found
      obtain ⟨hscan, hlen⟩ := scan_of_exec_some hexec
      obtain ⟨hsequences, hpending⟩ := ih (show rest.length ≤ fuel by omega)
      rw [hscan]
      exact ⟨by dsimp only; rw [hsequences], hpending⟩

/-- The tracker reads the sequences of the scan and keeps its carry, but no ESC alone. -/
theorem allMatches_scan (text : Text) :
    (allMatches text).1 = (scan readSequence text).1 ∧
      pendingOf (allMatches text).2 = withoutEsc (scan readSequence text).2 :=
  matchesWithin_scan le_rfl

/-! ## Applying sequences -/

namespace TerminalInputModeTracker

/-- The tracker without the text it keeps. -/
def modes (tracker : TerminalInputModeTracker) : TerminalInputModeTracker :=
  { tracker with pending := [] }

variable {result : TerminalInputModeFeedResult}

theorem applySequence_pending {tracker next : TerminalInputModeTracker} {sequence : InputModeSequence}
    (h : tracker.applySequence sequence = some (next, result)) : next.pending = tracker.pending := by
  cases sequence with
  | privateMode params final =>
    cases h
    rfl
  | kitty marker params =>
    unfold applySequence applyKittyKeyboardSequence at h
    dsimp only at h
    split at h
    · cases h
      rfl
    · cases h
      rfl
    · split at h
      · cases h
      · split at h
        · cases h
        · cases h
          rfl
    · cases h
      rfl
    · cases h
      rfl

theorem applySequences_cons (tracker : TerminalInputModeTracker) (sequence : InputModeSequence)
    (sequences : List InputModeSequence) :
    tracker.applySequences (sequence :: sequences) =
      (tracker.applySequence sequence).bind fun (next, result) =>
        (next.applySequences sequences).map fun (final, results) =>
          (final, { changed := result.changed || results.changed
                    responses := result.responses ++ results.responses }) := by
  rw [applySequences]
  cases tracker.applySequence sequence with
  | none => rfl
  | some applied => cases h : applied.1.applySequences sequences <;> simp [h]

theorem applySequences_pending {tracker next : TerminalInputModeTracker}
    {sequences : List InputModeSequence} (h : tracker.applySequences sequences = some (next, result)) :
    next.pending = tracker.pending := by
  induction sequences generalizing tracker next result with
  | nil =>
    cases h
    rfl
  | cons sequence sequences ih =>
    rw [applySequences_cons] at h
    obtain ⟨⟨first, firstResult⟩, hfirst, hrest⟩ := Option.bind_eq_some_iff.mp h
    obtain ⟨⟨last, lastResult⟩, hlast, heq⟩ := Option.map_eq_some_iff.mp hrest
    cases heq
    rw [ih hlast, applySequence_pending hfirst]

theorem applySequences_append (tracker : TerminalInputModeTracker)
    (sequences more : List InputModeSequence) :
    tracker.applySequences (sequences ++ more) =
      (tracker.applySequences sequences).bind fun (next, result) =>
        (next.applySequences more).map fun (final, results) =>
          (final, { changed := result.changed || results.changed
                    responses := result.responses ++ results.responses }) := by
  induction sequences generalizing tracker with
  | nil => cases h : tracker.applySequences more <;> simp [applySequences, h]
  | cons sequence sequences ih =>
    rw [List.cons_append, applySequences_cons, applySequences_cons]
    cases tracker.applySequence sequence with
    | none => rfl
    | some applied =>
      obtain ⟨next, result⟩ := applied
      simp only [Option.bind_some]
      rw [ih next]
      cases next.applySequences sequences with
      | none => rfl
      | some middle =>
        simp only [Option.bind_some, Option.map_some, Option.map_map]
        congr 1
        funext applied
        simp [Bool.or_assoc]

/-- What the sequences of a text lead to: the modes, and the responses in order. -/
def afterSequences (tracker : TerminalInputModeTracker) (sequences : List InputModeSequence) :
    Option (TerminalInputModeTracker × List Text) :=
  (tracker.modes.applySequences sequences).map fun (next, result) => (next, result.responses)

end TerminalInputModeTracker

open TerminalInputModeTracker

/-! ## Pieces -/

/-- A kept text is the beginning of a sequence, `ESC [` at least. -/
def PendingOk (tracker : TerminalInputModeTracker) : Prop :=
  tracker.pending = [] ∨ isIncomplete tracker.pending = true

theorem withoutEsc_ok :
    withoutEsc (scan readSequence text).2 = [] ∨
      isIncomplete (withoutEsc (scan readSequence text).2) = true := by
  unfold withoutEsc
  split
  · exact .inl rfl
  · rename_i hne
    rcases scan_carry stable_readSequence text with hnil | hread
    · exact .inl hnil
    · right
      cases hmatch : matchSequence (scan readSequence text).2 with
      | some found =>
        rw [readSequence_complete.mpr hmatch] at hread
        cases hread
      | none => exact ((readSequence_incomplete hmatch).mp hread).resolve_left hne

/-- A kept text does not end with an ESC. -/
theorem getLast?_incomplete (h : isIncomplete text = true) :
    text.getLast? ≠ some 27 := by
  obtain ⟨body, rfl⟩ := isIncomplete_cases h
  intro hlast
  rw [List.getLast?_cons_cons] at hlast
  exact incomplete_tail h 27 (List.mem_of_getLast? hlast) rfl

/-- No sequence is cut behind its ESC. -/
def UncutAfter (pending : Text) (chunks : List Text) : Prop :=
  ∀ before after, chunks = before ++ after → (pending ++ before.flatten).getLast? = some 27 →
    matchSequence (27 :: after.flatten) = none

/-- An ESC that begins nothing may be forgotten. -/
theorem scan_forget_esc (h : matchSequence (27 :: text) = none) :
    (scan readSequence (27 :: text)).1 = (scan readSequence text).1 := by
  cases hread : readSequence (27 :: text) with
  | complete sequence rest =>
    rw [readSequence_complete.mp hread] at h
    cases h
  | mismatch => rw [scan_mismatch hread]
  | incomplete =>
    rw [scan_incomplete hread]
    rcases (readSequence_incomplete h).mp hread with hesc | hincomplete
    · cases hesc
      rfl
    · obtain ⟨body, heq⟩ := isIncomplete_cases hincomplete
      cases heq
      have hskip := scan_no_esc (incomplete_tail hincomplete) []
      rw [List.append_nil] at hskip
      rw [hskip]
      rfl

theorem scan_withoutEsc {carry : Text} (h : carry = [27] → matchSequence (27 :: text) = none) :
    (scan readSequence (withoutEsc carry ++ text)).1 = (scan readSequence (carry ++ text)).1 := by
  unfold withoutEsc
  split
  · rename_i hesc
    rw [hesc]
    exact (scan_forget_esc (h hesc)).symm
  · rfl

/-- One piece: its sequences are applied, and the rest of the scan is kept. -/
theorem feed_eq (tracker : TerminalInputModeTracker) {data : Text} (ne : data ≠ []) :
    tracker.feed data =
      (tracker.modes.applySequences (scan readSequence (tracker.pending ++ data)).1).map
        fun (next, result) =>
          ({ next with pending := withoutEsc (scan readSequence (tracker.pending ++ data)).2 },
            result) := by
  obtain ⟨hsequences, hpending⟩ := allMatches_scan (tracker.pending ++ data)
  rw [feed, if_neg ne, ← hsequences, ← hpending]
  rfl

theorem scan_pending (h : PendingOk tracker) :
    (scan readSequence tracker.pending).1 = [] := by
  rcases h with hnil | hincomplete
  · rw [hnil]
    rfl
  · obtain ⟨body, heq⟩ := isIncomplete_cases hincomplete
    rw [heq] at hincomplete ⊢
    have hskip := exec_no_esc (incomplete_tail hincomplete)
    apply (scan_of_exec_none _).1
    rw [exec, hskip, Option.or_none, matchSequence]
    dsimp only
    rw [isIncomplete_iff.mp hincomplete]

/-- After a piece no sequence of the rest is cut behind its ESC either. -/
theorem UncutAfter.rest {pending data : Text} (h : UncutAfter pending (data :: chunks)) :
    UncutAfter (withoutEsc (scan readSequence (pending ++ data)).2) chunks := by
  intro before after heq hlast
  apply h (data :: before) after (by rw [heq]; rfl)
  cases hbefore : before.flatten with
  | nil =>
    rw [hbefore, List.append_nil] at hlast
    rcases @withoutEsc_ok (pending ++ data) with hnil | hincomplete
    · rw [hnil] at hlast
      cases hlast
    · exact absurd hlast (getLast?_incomplete hincomplete)
  | cons c text =>
    rw [hbefore, List.getLast?_append_of_ne_nil _ (List.cons_ne_nil c text)] at hlast
    rw [List.flatten_cons, hbefore, ← List.append_assoc,
      List.getLast?_append_of_ne_nil _ (List.cons_ne_nil c text)]
    exact hlast

theorem UncutAfter.esc {pending data : Text} (h : UncutAfter pending (data :: chunks))
    (hcarry : (scan readSequence (pending ++ data)).2 = [27]) :
    matchSequence (27 :: chunks.flatten) = none := by
  apply h [data] chunks rfl
  have hsuffix := scan_carry_suffix stable_readSequence
    (fun hread => (matchSequence_suffix (readSequence_complete.mp hread)).1) (pending ++ data)
  rw [hcarry] at hsuffix
  obtain ⟨init, heq⟩ := hsuffix
  rw [List.flatten_cons, List.flatten_nil, List.append_nil, ← heq]
  simp

/-- The pieces of a text, from any tracker, lead where its sequences lead. -/
theorem feedAll_eq (ok : PendingOk tracker) (uncut : UncutAfter tracker.pending chunks) :
    (tracker.feedAll chunks).map (fun (next, responses) => (next.modes, responses)) =
      tracker.afterSequences (scan readSequence (tracker.pending ++ chunks.flatten)).1 := by
  induction chunks generalizing tracker with
  | nil =>
    rw [List.flatten_nil, List.append_nil, scan_pending ok]
    rfl
  | cons data chunks ih =>
    by_cases hdata : data = []
    · have huncut : UncutAfter tracker.pending chunks := by
        intro before after heq hlast
        exact uncut (data :: before) after (by rw [heq]; rfl) (by rw [hdata]; exact hlast)
      rw [feedAll, feed, if_pos hdata, hdata, List.flatten_cons, List.nil_append, ← ih ok huncut]
      cases h : tracker.feedAll chunks <;> simp [h]
    · rw [List.flatten_cons, ← List.append_assoc, scan_append stable_readSequence,
        ← scan_withoutEsc uncut.esc, afterSequences, applySequences_append, feedAll, feed_eq _ hdata]
      cases happlied : tracker.modes.applySequences
          (scan readSequence (tracker.pending ++ data)).1 with
      | none => rfl
      | some applied =>
        obtain ⟨next, result⟩ := applied
        have hnext : next.pending = [] := applySequences_pending happlied
        let kept : TerminalInputModeTracker :=
          { next with pending := withoutEsc (scan readSequence (tracker.pending ++ data)).2 }
        have hmodes : next = kept.modes := by
          unfold modes
          rw [← hnext]
        have hrest := ih (show PendingOk kept from withoutEsc_ok) uncut.rest
        rw [afterSequences, ← hmodes] at hrest
        change Option.map _ ((kept.feedAll chunks).bind _) = Option.map _ (Option.map _
          (next.applySequences (scan readSequence (kept.pending ++ chunks.flatten)).1))
        cases hfeed : kept.feedAll chunks with
        | none =>
          rw [hfeed, Option.map_none, eq_comm, Option.map_eq_none_iff] at hrest
          rw [hrest]
          rfl
        | some fed =>
          rw [hfeed, Option.map_some, eq_comm, Option.map_eq_some_iff] at hrest
          obtain ⟨⟨last, lastResult⟩, hlast, heq⟩ := hrest
          rw [Prod.mk.injEq] at heq
          rw [hlast]
          simp [heq.1, heq.2]

end Orqara.Terminal
