import Orqara.Terminal.ChunkedFeed

/-!
# Replaying the input modes

The preamble of a tracker is read by a fresh one into the same modes as long as the
Kitty flags are written in digits, which they are below `1e21`.
-/

namespace Orqara.Terminal

open JsNumber TerminalInputModeTracker List Option

/-! ## Numbers of the tracker -/

/-- The flags of a tracker are doubles. -/
structure NumbersRead (tracker : TerminalInputModeTracker) : Prop where
  flags : tracker.kittyKeyboardFlags.IsRead
  stack : ∀ flags ∈ tracker.kittyKeyboardStack, flags.IsRead

theorem isRead_zero : (finite 0).IsRead := ⟨0, by decide +kernel⟩

theorem isRead_one : (finite 1).IsRead := ⟨1, by decide +kernel⟩

theorem isRead_param {params : List Text} {i : ℕ} {value : JsNumber}
    (h : params[i]?.bind parseParam = some value) : value.IsRead := by
  obtain ⟨param, -, hparam⟩ := bind_eq_some_iff.mp h
  unfold parseParam at hparam
  split at hparam
  · exact ⟨digitsValue param, some.inj hparam⟩
  · cases hparam

variable {params : Text}

theorem isRead_first {default : JsNumber} (h : default.IsRead) :
    ((parseFirstParam params).getD default).IsRead := by
  cases hfirst : parseFirstParam params with
  | none => exact h
  | some value => exact isRead_param hfirst

theorem isRead_popFlags (count : ℕ) {current : JsNumber × List JsNumber}
    (hflags : current.1.IsRead) (hstack : ∀ flags ∈ current.2, flags.IsRead) :
    (popFlags count current).1.IsRead ∧ ∀ flags ∈ (popFlags count current).2, flags.IsRead := by
  induction count generalizing current with
  | zero => exact ⟨hflags, hstack⟩
  | succ count ih =>
    obtain ⟨flags, stack⟩ := current
    cases stack with
    | nil => exact ih isRead_zero hstack
    | cons top stack =>
      exact ih (hstack top mem_cons_self) fun other h => hstack other (mem_cons_of_mem _ h)

variable {tracker : TerminalInputModeTracker} {sequences : List InputModeSequence}
  {next : TerminalInputModeTracker} {sequence : InputModeSequence} {result : TerminalInputModeFeedResult}
  {chunks : List Text}

section

variable (h : NumbersRead tracker)
include h

theorem numbersRead_applySequence
    (happly : tracker.applySequence sequence = some (next, result)) : NumbersRead next := by
  cases sequence with
  | privateMode params final =>
    cases happly
    exact ⟨h.flags, h.stack⟩
  | kitty marker params =>
    unfold applySequence applyKittyKeyboardSequence at happly
    dsimp only at happly
    split at happly
    · -- pushed
      cases happly
      refine ⟨isRead_first isRead_one, ?_⟩
      intro flags hflags
      rcases mem_cons.mp hflags with rfl | hold
      · exact h.flags
      · exact h.stack flags hold
    · -- set
      cases happly
      refine ⟨?_, h.stack⟩
      dsimp only
      split
      · exact isRead_zero
      · exact isRead_first isRead_zero
    · -- popped
      split at happly
      · cases happly
      · split at happly
        · cases happly
        · cases happly
          have hpopped := fun count => @isRead_popFlags count
            (tracker.kittyKeyboardFlags, tracker.kittyKeyboardStack) h.flags h.stack
          exact ⟨(hpopped _).1, (hpopped _).2⟩
    · cases happly
      exact h
    · cases happly
      exact h

theorem numbersRead_applySequences
    (happly : tracker.applySequences sequences = some (next, result)) : NumbersRead next := by
  induction sequences generalizing tracker next result with
  | nil =>
    cases happly
    exact h
  | cons sequence sequences ih =>
    rw [applySequences_cons] at happly
    obtain ⟨⟨first, firstResult⟩, hfirst, hrest⟩ := bind_eq_some_iff.mp happly
    obtain ⟨⟨last, lastResult⟩, hlast, heq⟩ := map_eq_some_iff.mp hrest
    cases heq
    exact ih (numbersRead_applySequence h hfirst) hlast

theorem numbersRead_feedAll {responses : List Text}
    (hfeed : tracker.feedAll chunks = some (next, responses)) :
    NumbersRead next := by
  induction chunks generalizing tracker responses with
  | nil =>
    cases hfeed
    exact h
  | cons data chunks ih =>
    rw [feedAll] at hfeed
    obtain ⟨⟨middle, result⟩, hmiddle, hrest⟩ := bind_eq_some_iff.mp hfeed
    obtain ⟨⟨last, lastResponses⟩, hlast, heq⟩ := bind_eq_some_iff.mp hrest
    cases heq
    apply ih _ hlast
    by_cases hdata : data = []
    · rw [feed, if_pos hdata] at hmiddle
      cases hmiddle
      exact h
    · rw [feed_eq _ hdata] at hmiddle
      obtain ⟨⟨applied, appliedResult⟩, happlied, heq⟩ := map_eq_some_iff.mp hmiddle
      cases heq
      have hmodes : NumbersRead tracker.modes := ⟨h.flags, h.stack⟩
      have hnext := numbersRead_applySequences hmodes happlied
      exact ⟨hnext.flags, hnext.stack⟩

end

/-- A tracker that some output leads to; `reset` leads back to a new one. -/
def Reached (tracker : TerminalInputModeTracker) : Prop :=
  ∃ chunks responses, newTracker.feedAll chunks = some (tracker, responses)

theorem Reached.numbersRead (h : Reached tracker) :
    NumbersRead tracker := by
  obtain ⟨chunks, responses, hfeed⟩ := h
  exact numbersRead_feedAll ⟨isRead_zero, by simp [newTracker]⟩ hfeed

/-! ## The preamble -/

/-- The sequence that switches a mode on, if it is on. -/
def modeSequence (on : Bool) (params : Text) : List InputModeSequence :=
  if on then [.privateMode params 104] else []

/-- The sequences for the modes other than the Kitty flags. -/
def privateSequences (tracker : TerminalInputModeTracker) : List InputModeSequence :=
  modeSequence tracker.win32InputMode [57, 48, 48, 49] ++
    (modeSequence tracker.applicationCursorKeys [49] ++
      modeSequence tracker.bracketedPaste [50, 48, 48, 52])

/-- The text of a sequence that switches a mode on. -/
def modeText (on : Bool) (params : Text) : Text :=
  if on then [27, 91, 63] ++ params ++ [104] else []

theorem matchSequence_mode (h : ∀ c ∈ params, isParam c = true) (more : Text) :
    matchSequence ([27, 91, 63] ++ params ++ [104] ++ more) =
      some (.privateMode params 104, more) := by
  have hparams : (params ++ (104 :: more)).takeWhile isParam = params ∧
      (params ++ (104 :: more)).dropWhile isParam = 104 :: more := by
    constructor
    · rw [takeWhile_append_of_pos h]
      simp [isParam, isDigit]
    · rw [dropWhile_append_of_pos h]
      simp [isParam, isDigit]
  rw [append_assoc, append_assoc, cons_append, cons_append, cons_append,
    nil_append, singleton_append, matchSequence]
  simp [takeMarker, isMarker, hparams]

theorem scan_modeText (on : Bool) (h : ∀ c ∈ params, isParam c = true) (more : Text) :
    (scan readSequence (modeText on params ++ more)).1 =
      modeSequence on params ++ (scan readSequence more).1 := by
  cases on with
  | false => rfl
  | true =>
    have hread := readSequence_complete.mpr (matchSequence_mode h more)
    rw [modeText, if_pos rfl, scan_complete stable_readSequence hread]
    rfl

theorem scan_privateTexts (tracker : TerminalInputModeTracker) :
    (scan readSequence (modeText tracker.win32InputMode [57, 48, 48, 49] ++
      (modeText tracker.applicationCursorKeys [49] ++
        (modeText tracker.bracketedPaste [50, 48, 48, 52] ++ [])))).1 =
      privateSequences tracker := by
  rw [scan_modeText _ (by decide), scan_modeText _ (by decide), scan_modeText _ (by decide)]
  simp [privateSequences]

/-- The private modes come back, and the flags stay. -/
theorem applySequences_private (tracker : TerminalInputModeTracker) (flags : JsNumber)
    (stack : List JsNumber) :
    ∃ result, TerminalInputModeTracker.applySequences
      { newTracker with kittyKeyboardFlags := flags, kittyKeyboardStack := stack }
      (privateSequences tracker) =
      some ({ tracker with kittyKeyboardFlags := flags, kittyKeyboardStack := stack, pending := [] },
        result) := by
  have hwin32 : parsePrivateModeParams [57, 48, 48, 49] = [finite 9001] := by decide +kernel
  have hcursor : parsePrivateModeParams [49] = [finite 1] := by decide +kernel
  have hpaste : parsePrivateModeParams [50, 48, 48, 52] = [finite 2004] := by decide +kernel
  unfold privateSequences modeSequence
  cases hw : tracker.win32InputMode <;> cases ha : tracker.applicationCursorKeys <;>
    cases hb : tracker.bracketedPaste <;>
    simp [applySequences_cons, applySequences, applySequence, applyPrivateModeSequence, hwin32,
      hcursor, hpaste, newTracker]

theorem preamble_eq (tracker : TerminalInputModeTracker) :
    tracker.getPreamble =
      (if tracker.kittyKeyboardFlags ≠ finite 0 then
        [27, 91, 61] ++ tracker.kittyKeyboardFlags.toText ++ [59, 49, 117] else []) ++
      (modeText tracker.win32InputMode [57, 48, 48, 49] ++
        (modeText tracker.applicationCursorKeys [49] ++
          (modeText tracker.bracketedPaste [50, 48, 48, 52] ++ []))) := by
  unfold getPreamble modeText
  simp

/-- The flags written in digits are read back. -/
theorem matchSequence_flags {digits : Text} (h : ∀ c ∈ digits, isDigit c = true) (more : Text) :
    matchSequence ([27, 91, 61] ++ digits ++ [59, 49, 117] ++ more) =
      some (.kitty [61] (digits ++ [59, 49]), more) := by
  have hall : ∀ c ∈ digits ++ [59, 49], isParam c = true := by
    intro c hc
    rcases mem_append.mp hc with hdigit | hrest
    · rw [isParam, h c hdigit, Bool.true_or]
    · simp only [mem_cons, not_mem_nil, or_false] at hrest
      rcases hrest with rfl | rfl <;> rfl
  have hparams : ((digits ++ [59, 49]) ++ (117 :: more)).takeWhile isParam = digits ++ [59, 49] ∧
      ((digits ++ [59, 49]) ++ (117 :: more)).dropWhile isParam = 117 :: more := by
    constructor
    · rw [takeWhile_append_of_pos hall]
      simp [isParam, isDigit]
    · rw [dropWhile_append_of_pos hall]
      simp [isParam, isDigit]
  rw [show [27, 91, 61] ++ digits ++ [59, 49, 117] ++ more =
    27 :: 91 :: 61 :: ((digits ++ [59, 49]) ++ (117 :: more)) by simp, matchSequence]
  simp only [takeMarker, isMarker, Nat.reduceLeDiff, decide_true, Bool.and_self, if_true]
  rw [hparams.1, hparams.2]
  simp

theorem splitParams_flags {digits : Text} (h : ∀ c ∈ digits, isDigit c = true) :
    splitParams (digits ++ [59, 49]) = [digits, [49]] := by
  unfold splitParams
  rw [splitOn_append_cons_self_of_not_mem]
  · rfl
  · intro hmem
    cases h 59 hmem

theorem applySequence_flags {n : ℕ} (read : (finite n).IsRead)
    (digits : (finite n).WrittenInDigits) :
    ∃ result, newTracker.applySequence (.kitty [61] ((finite n).toText ++ [59, 49])) =
      some ({ newTracker with kittyKeyboardFlags := finite n }, result) := by
  have htext : (finite n).toText = decimal (shortest n) := by
    have hsmall : shortest n < 10 ^ 21 := digits
    rw [toText, if_pos hsmall]
  have hall : ∀ c ∈ (finite n).toText, isDigit c = true := by
    rw [htext]
    exact isDigit_decimal _
  have hne : (finite n).toText ≠ [] := by
    rw [htext]
    exact decimal_ne_nil _
  have hfirst : parseFirstParam ((finite n).toText ++ [59, 49]) = some (finite n) := by
    rw [parseFirstParam, splitParams_flags hall]
    simp only [getElem?_cons_zero, bind_some, parseParam]
    rw [if_pos ⟨hne, List.all_eq_true.mpr hall⟩, ofDigits_toText read digits]
  have hsecond : parseSecondParam ((finite n).toText ++ [59, 49]) = some (finite 1) := by
    rw [parseSecondParam, splitParams_flags hall]
    exact show parseParam [49] = some (finite 1) by decide +kernel
  simp only [applySequence, applyKittyKeyboardSequence, hfirst, hsecond, getD_some]
  exact ⟨_, rfl⟩

/-- A preamble whose flags are not written in digits loses them. -/
theorem scan_unread_flags {flags : JsNumber} (h : ¬ flags.WrittenInDigits) (more : Text) :
    scan readSequence ([27, 91, 61] ++ flags.toText ++ [59, 49, 117] ++ more) =
      scan readSequence more := by
  obtain ⟨digits, c, rest, htext, hdigits, hc⟩ := toText_not_digits h
  have hparam : isParam c = false := by
    rcases hc with rfl | rfl | rfl <;> rfl
  have hall : ∀ d ∈ digits, isParam d = true := by
    intro d hd
    rw [isParam, hdigits d hd, Bool.true_or]
  have hdrop : (digits ++ c :: (rest ++ [59, 49, 117] ++ more)).dropWhile isParam =
      c :: (rest ++ [59, 49, 117] ++ more) := by
    rw [dropWhile_append_of_pos hall, dropWhile_cons_of_neg (by simp [hparam])]
  have hshape : [27, 91, 61] ++ flags.toText ++ [59, 49, 117] ++ more =
      27 :: 91 :: 61 :: (digits ++ c :: (rest ++ [59, 49, 117] ++ more)) := by
    rw [htext]
    simp
  have hread : readSequence (27 :: 91 :: 61 ::
      (digits ++ c :: (rest ++ [59, 49, 117] ++ more))) = .mismatch := by
    apply readSequence_mismatch.mpr
    refine ⟨?_, by simp, ?_⟩
    · rw [matchSequence]
      simp only [takeMarker, isMarker, Nat.reduceLeDiff, decide_true, Bool.and_self, if_true]
      rw [hdrop]
      dsimp only
      rw [if_neg (by rcases hc with rfl | rfl | rfl <;> omega), if_neg (by simp)]
    · rw [Bool.eq_false_iff, Ne, isIncomplete_iff]
      simp only [takeMarker, isMarker, Nat.reduceLeDiff, decide_true, Bool.and_self, if_true]
      rw [hdrop]
      exact cons_ne_nil _ _
  -- no ESC follows the first one
  have hquiet : ∀ d ∈ [91, 61] ++ flags.toText ++ [59, 49, 117], d ≠ 27 := by
    intro d hd
    simp only [mem_append, mem_cons, not_mem_nil, or_false] at hd
    rcases hd with (hd | hd) | hd
    · omega
    · have := printable_toText flags d hd
      omega
    · omega
  rw [hshape, scan_mismatch hread]
  have hskip := scan_no_esc hquiet more
  rw [← hskip]
  congr 1
  rw [htext]
  simp

/-- The preamble leads a new tracker to the same state. -/
def Replays (tracker : TerminalInputModeTracker) : Prop :=
  (newTracker.feed tracker.getPreamble).map (fun (next, _) => next.getState) =
    some tracker.getState

theorem feed_newTracker {text : Text} (h : (scan readSequence text).1 = sequences) :
    (newTracker.feed text).map (fun (next, _) => next.getState) =
      (newTracker.applySequences sequences).map fun (next, _) => next.getState := by
  by_cases htext : text = []
  · rw [htext] at h
    rw [feed, if_pos htext, ← h]
    rfl
  · rw [feed_eq _ htext, Option.map_map, ← h]
    rfl

theorem replays_iff (h : NumbersRead tracker) :
    Replays tracker ↔ tracker.kittyKeyboardFlags.WrittenInDigits := by
  unfold Replays
  rw [preamble_eq]
  by_cases hzero : tracker.kittyKeyboardFlags = finite 0
  · rw [if_neg (by simp [hzero]), nil_append, feed_newTracker (scan_privateTexts tracker)]
    obtain ⟨result, hresult⟩ := applySequences_private tracker (finite 0) []
    have happly : newTracker.applySequences (privateSequences tracker) = _ := hresult
    rw [happly, hzero]
    have hwritten : (finite 0).WrittenInDigits := show shortest 0 < 10 ^ 21 by decide +kernel
    simp [getState, hzero, hwritten]
  · rw [if_pos hzero]
    by_cases hwritten : tracker.kittyKeyboardFlags.WrittenInDigits
    · -- the flags are read first, then the other modes
      obtain ⟨n, hn⟩ : ∃ n, tracker.kittyKeyboardFlags = finite n := by
        cases hflags : tracker.kittyKeyboardFlags with
        | finite n => exact ⟨n, rfl⟩
        | infinity =>
          rw [hflags] at hwritten
          exact hwritten.elim
      rw [hn] at hwritten ⊢
      have hread : (finite n).IsRead := hn ▸ h.flags
      have hdigits : ∀ c ∈ (finite n).toText, isDigit c = true := by
        have hsmall : shortest n < 10 ^ 21 := hwritten
        rw [toText, if_pos hsmall]
        exact isDigit_decimal _
      have hsequences := scan_complete stable_readSequence
        (readSequence_complete.mpr (matchSequence_flags hdigits
          (modeText tracker.win32InputMode [57, 48, 48, 49] ++
            (modeText tracker.applicationCursorKeys [49] ++
              (modeText tracker.bracketedPaste [50, 48, 48, 52] ++ [])))))
      rw [feed_newTracker (congrArg Prod.fst hsequences)]
      obtain ⟨first, hfirst⟩ := applySequence_flags hread hwritten
      obtain ⟨result, hresult⟩ := applySequences_private tracker (finite n) []
      dsimp only
      rw [scan_privateTexts, applySequences_cons, hfirst]
      have happly : TerminalInputModeTracker.applySequences
          { newTracker with kittyKeyboardFlags := finite n } (privateSequences tracker) = _ := hresult
      simp only [bind_some]
      rw [happly]
      simp [getState, hn, hwritten]
    · have hsequences := scan_unread_flags hwritten
        (modeText tracker.win32InputMode [57, 48, 48, 49] ++
          (modeText tracker.applicationCursorKeys [49] ++
            (modeText tracker.bracketedPaste [50, 48, 48, 52] ++ [])))
      rw [feed_newTracker ((congrArg Prod.fst hsequences).trans (scan_privateTexts tracker))]
      obtain ⟨result, hresult⟩ := applySequences_private tracker (finite 0) []
      have happly : newTracker.applySequences (privateSequences tracker) = _ := hresult
      rw [happly]
      simp only [hwritten, iff_false, map_some, getState, Option.some.injEq,
        TerminalInputModeState.mk.injEq]
      exact fun heq => hzero heq.1.symm

/-! ## Pieces and replay -/

/-- No sequence of the text is cut between its ESC and its `[`. -/
def Uncut (chunks : List Text) : Prop :=
  ∀ before after, chunks = before ++ after → before.flatten.getLast? = some 27 →
    matchSequence (27 :: after.flatten) = none

/-- A sequence that pops more often than a loop over doubles can count. -/
def EndlessPop : InputModeSequence → Prop
  | .kitty [60] params => ∀ n, (parseFirstParam params).getD (finite 1) = finite n → 2 ^ 53 < n
  | _ => False

/-- The modes and responses that pieces of output lead to. -/
def outcome (chunks : List Text) : Option (TerminalInputModeTracker × List Text) :=
  (newTracker.feedAll chunks).map fun (tracker, responses) => (tracker.modes, responses)

theorem isSome_applySequence (tracker : TerminalInputModeTracker) (h : ¬ EndlessPop sequence) :
    (tracker.applySequence sequence).isSome := by
  cases sequence with
  | privateMode params final => rfl
  | kitty marker params =>
    unfold applySequence applyKittyKeyboardSequence
    dsimp only
    split
    · rfl
    · rfl
    · simp only [EndlessPop, not_forall] at h
      obtain ⟨n, hn, hsmall⟩ := h
      rw [hn]
      dsimp only
      rw [if_neg hsmall]
      rfl
    · rfl
    · rfl

theorem isSome_applySequences (tracker : TerminalInputModeTracker)
    (h : ∀ sequence ∈ sequences, ¬ EndlessPop sequence) :
    (tracker.applySequences sequences).isSome := by
  induction sequences generalizing tracker with
  | nil => rfl
  | cons sequence sequences ih =>
    obtain ⟨⟨next, result⟩, hnext⟩ := isSome_iff_exists.mp
      (isSome_applySequence tracker (h sequence mem_cons_self))
    have hrest := ih next fun other hother => h other (mem_cons_of_mem _ hother)
    rw [applySequences_cons, hnext]
    simpa using hrest

theorem uncutAfter_of_uncut (h : Uncut chunks) :
    UncutAfter newTracker.pending chunks := by
  intro before after heq hlast
  exact h before after heq hlast

theorem outcome_eq (h : Uncut chunks) :
    outcome chunks = newTracker.afterSequences (scan readSequence chunks.flatten).1 :=
  feedAll_eq (.inl rfl) (uncutAfter_of_uncut h)

/-- A text in one piece is cut nowhere. -/
theorem uncut_whole (text : Text) : Uncut [text] := by
  intro before after heq hlast
  cases before with
  | nil => cases hlast
  | cons data before =>
    obtain ⟨rfl, hrest⟩ := List.cons.inj heq
    obtain ⟨rfl, rfl⟩ := append_eq_nil_iff.mp hrest.symm
    rfl

/-- The pieces of a text lead to the modes and responses of the whole when no sequence
is cut behind its ESC; and the preamble brings back the modes of a tracker exactly if
the Kitty flags are written in digits. -/
theorem inputModes_pieces_and_preamble (chunks : List Text) (tracker : TerminalInputModeTracker) :
    (Uncut chunks → (∀ sequence ∈ (allMatches chunks.flatten).1, ¬ EndlessPop sequence) →
      ∃ result, outcome chunks = some result ∧ outcome [chunks.flatten] = some result) ∧
    (Reached tracker → (Replays tracker ↔ tracker.kittyKeyboardFlags.WrittenInDigits)) := by
  constructor
  · intro uncut ends
    rw [(allMatches_scan chunks.flatten).1] at ends
    have hwhole : outcome [chunks.flatten] = outcome chunks := by
      rw [outcome_eq uncut, outcome_eq (uncut_whole chunks.flatten), List.flatten_cons,
        List.flatten_nil, List.append_nil]
    rw [hwhole]
    have hsome := isSome_applySequences newTracker.modes ends
    obtain ⟨⟨next, result⟩, hnext⟩ := Option.isSome_iff_exists.mp hsome
    refine ⟨(next, result.responses), ?_, ?_⟩ <;>
    · rw [outcome_eq uncut, afterSequences, hnext]
      rfl
  · intro hreached
    exact replays_iff hreached.numbersRead

/-- `ESC [ > 7 u` cut behind the marker. -/
theorem inputModes_pieces_and_preamble_pushed :
    (∃ result, outcome [[27, 91, 62], [55, 117]] = some result ∧
      outcome [[27, 91, 62, 55, 117]] = some result) ∧
    ∃ tracker, Reached tracker ∧ tracker.kittyKeyboardFlags = finite 7 ∧ Replays tracker := by
  constructor
  · apply (inputModes_pieces_and_preamble [[27, 91, 62], [55, 117]] newTracker).1
    · intro before after heq hlast
      match before with
      | [] => cases hlast
      | [first] =>
        obtain ⟨rfl, -⟩ := List.cons.inj heq
        simp at hlast
      | [first, second] =>
        obtain ⟨rfl, hrest⟩ := List.cons.inj heq
        obtain ⟨rfl, -⟩ := List.cons.inj hrest
        simp at hlast
      | first :: second :: third :: before =>
        obtain ⟨-, hrest⟩ := List.cons.inj heq
        obtain ⟨-, hrest⟩ := List.cons.inj hrest
        cases hrest
    · have hmatches : (allMatches [[27, 91, 62], [55, 117]].flatten).1 = [.kitty [62] [55]] := by
        decide +kernel
      rw [hmatches]
      simp [EndlessPop]
  · have hfeed : newTracker.feedAll [[27, 91, 62, 55, 117]] =
        some ({ newTracker with
          kittyKeyboardFlags := finite 7, kittyKeyboardStack := [finite 0] }, []) := by
      decide +kernel
    refine ⟨_, ⟨_, _, hfeed⟩, rfl, ?_⟩
    apply ((inputModes_pieces_and_preamble [] _).2 ⟨_, _, hfeed⟩).mpr
    exact show shortest 7 < 10 ^ 21 by decide +kernel

/-- `ESC` and `[ > 7 u` in two pieces set no flags, and the flags `1e21` are not replayed. -/
theorem cutEsc_and_exponent :
    (outcome [[27], [91, 62, 55, 117]]).map (·.1.kittyKeyboardFlags) = some (finite 0) ∧
      (outcome [[27, 91, 62, 55, 117]]).map (·.1.kittyKeyboardFlags) = some (finite 7) ∧
      ∃ tracker, Reached tracker ∧ tracker.kittyKeyboardFlags = finite (10 ^ 21) ∧
        ¬ Replays tracker := by
  refine ⟨by decide +kernel, by decide +kernel, ?_⟩
  have hfeed : newTracker.feedAll [[27, 91, 62, 49] ++ List.replicate 21 48 ++ [117]] =
      some ({ newTracker with
        kittyKeyboardFlags := finite (10 ^ 21), kittyKeyboardStack := [finite 0] }, []) := by
    decide +kernel
  refine ⟨_, ⟨_, _, hfeed⟩, rfl, ?_⟩
  unfold Replays
  decide +kernel

end Orqara.Terminal
