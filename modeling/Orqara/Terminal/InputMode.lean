import Orqara.Library.ChunkedScan
import Orqara.Library.JsNumber

/-!
# Terminal input modes

The tracker that reads the input-mode sequences out of a terminal's output. A text
is the list of its code units: `27` is ESC, `91` is `[`, `59` is `;`, `60` to `63`
are `<`, `=`, `>` and `?`, `104`, `108` and `117` are `h`, `l` and `u`.
-/

namespace Orqara.Terminal

open JsNumber

abbrev Text := List ℕ

structure TerminalInputModeState where
  kittyKeyboardFlags : JsNumber
  win32InputMode : Bool
  applicationCursorKeys : Bool
  bracketedPaste : Bool
  deriving DecidableEq

/-! ## Sequences -/

inductive InputModeSequence
  | kitty (marker params : Text)
  | privateMode (params : Text) (final : ℕ)
  deriving DecidableEq

/-- `[<>=?]` -/
def isMarker (c : ℕ) : Bool := 60 ≤ c && c ≤ 63

/-- `[0-9;]` -/
def isParam (c : ℕ) : Bool := isDigit c || c == 59

/-- `[<>=?]?` -/
def takeMarker : Text → Text × Text
  | [] => ([], [])
  | c :: text => if isMarker c then ([c], text) else ([], c :: text)

/-- `CSI_INPUT_MODE_SEQUENCE` at the start of a text, with the text behind it. -/
def matchSequence : Text → Option (InputModeSequence × Text)
  | 27 :: 91 :: body =>
    let (marker, afterMarker) := takeMarker body
    let params := afterMarker.takeWhile isParam
    match afterMarker.dropWhile isParam with
    | [] => none
    | final :: rest =>
      if final = 117 then some (.kitty marker params, rest)
      else if marker = [63] ∧ (final = 104 ∨ final = 108) then
        some (.privateMode params final, rest)
      else none
  | _ => none

/-- `CSI_INPUT_MODE_SEQUENCE.exec`: the first match, with the text behind it. -/
def exec : Text → Option (InputModeSequence × Text)
  | [] => none
  | c :: text => (matchSequence (c :: text)).or (exec text)

/-- All matches from left to right, and the text behind the last. -/
def matchesWithin : ℕ → Text → List InputModeSequence × Text
  | 0, text => ([], text)
  | fuel + 1, text =>
    match exec text with
    | none => ([], text)
    | some (sequence, rest) =>
      let (sequences, tail) := matchesWithin fuel rest
      (sequence :: sequences, tail)

/-- A match takes up some of the text, so that there are no more than its length. -/
def allMatches (text : Text) : List InputModeSequence × Text :=
  matchesWithin text.length text

/-- `tail.slice(tail.lastIndexOf("\\x1b["))` -/
def fromLastOpening : Text → Option Text
  | [] => none
  | c :: text =>
    (fromLastOpening text).or (if c = 27 ∧ text.head? = some 91 then some (c :: text) else none)

/-- `INCOMPLETE_CSI_INPUT_MODE_SEQUENCE` of a text that opens a sequence at its start only. -/
def isIncomplete : Text → Bool
  | 27 :: 91 :: body => (takeMarker body).2.all isParam
  | _ => false

/-- The text that is kept for the next piece. -/
def pendingOf (tail : Text) : Text :=
  match fromLastOpening tail with
  | none => []
  | some pending => if isIncomplete pending then pending else []

/-! ## Parameters -/

/-- `params.split(";")` -/
def splitParams (params : Text) : List Text := params.splitOn 59

/-- `/^\d+$/` and `Number` -/
def parseParam (param : Text) : Option JsNumber :=
  if param ≠ [] ∧ param.all isDigit then some (ofDigits param) else none

def parseFirstParam (params : Text) : Option JsNumber :=
  (splitParams params)[0]?.bind parseParam

def parseSecondParam (params : Text) : Option JsNumber :=
  (splitParams params)[1]?.bind parseParam

def parsePrivateModeParams (params : Text) : List JsNumber :=
  (splitParams params).filterMap parseParam

/-! ## The tracker -/

/-- The last flags pushed stand first in the stack. -/
structure TerminalInputModeTracker where
  kittyKeyboardFlags : JsNumber
  win32InputMode : Bool
  applicationCursorKeys : Bool
  bracketedPaste : Bool
  kittyKeyboardStack : List JsNumber
  pending : Text
  deriving DecidableEq

structure TerminalInputModeFeedResult where
  changed : Bool
  responses : List Text
  deriving DecidableEq

def newTracker : TerminalInputModeTracker :=
  { kittyKeyboardFlags := finite 0
    win32InputMode := false
    applicationCursorKeys := false
    bracketedPaste := false
    kittyKeyboardStack := []
    pending := [] }

/-- `pop() ?? 0`, so many times. -/
def popFlags : ℕ → JsNumber × List JsNumber → JsNumber × List JsNumber
  | 0, current => current
  | count + 1, (_, []) => popFlags count (finite 0, [])
  | count + 1, (_, flags :: stack) => popFlags count (flags, stack)

namespace TerminalInputModeTracker

def getState (tracker : TerminalInputModeTracker) : TerminalInputModeState :=
  { kittyKeyboardFlags := tracker.kittyKeyboardFlags
    win32InputMode := tracker.win32InputMode
    applicationCursorKeys := tracker.applicationCursorKeys
    bracketedPaste := tracker.bracketedPaste }

/-- `none` where the source does not return: above `2 ^ 53` adding one to the index of
the loop no longer changes it. -/
def applyKittyKeyboardSequence (tracker : TerminalInputModeTracker) (marker params : Text) :
    Option (TerminalInputModeTracker × TerminalInputModeFeedResult) :=
  let done := fun next : TerminalInputModeTracker =>
    (next, { changed := next.kittyKeyboardFlags != tracker.kittyKeyboardFlags, responses := [] })
  match marker with
  | [62] =>
    some (done
      { tracker with
        kittyKeyboardStack := tracker.kittyKeyboardFlags :: tracker.kittyKeyboardStack
        kittyKeyboardFlags := (parseFirstParam params).getD (finite 1) })
  | [61] =>
    let mode := (parseSecondParam params).getD (finite 1)
    some (done
      { tracker with
        kittyKeyboardFlags :=
          if mode = finite 0 then finite 0 else (parseFirstParam params).getD (finite 0) })
  | [60] =>
    match (parseFirstParam params).getD (finite 1) with
    | .infinity => none
    | .finite first =>
      if 2 ^ 53 < first then none
      else
        let (flags, stack) :=
          popFlags (max 1 first) (tracker.kittyKeyboardFlags, tracker.kittyKeyboardStack)
        some (done { tracker with kittyKeyboardFlags := flags, kittyKeyboardStack := stack })
  | [63] =>
    some (tracker,
      { changed := false
        responses := [[27, 91, 63] ++ tracker.kittyKeyboardFlags.toText ++ [117]] })
  | _ => some (tracker, { changed := false, responses := [] })

def applyPrivateModeSequence (tracker : TerminalInputModeTracker) (params : Text) (final : ℕ) :
    TerminalInputModeTracker × Bool :=
  let modes := parsePrivateModeParams params
  let next :=
    { tracker with
      win32InputMode := if finite 9001 ∈ modes then final == 104 else tracker.win32InputMode
      applicationCursorKeys :=
        if finite 1 ∈ modes then final == 104 else tracker.applicationCursorKeys
      bracketedPaste := if finite 2004 ∈ modes then final == 104 else tracker.bracketedPaste }
  (next, next.win32InputMode != tracker.win32InputMode ||
    next.applicationCursorKeys != tracker.applicationCursorKeys ||
    next.bracketedPaste != tracker.bracketedPaste)

def applySequence (tracker : TerminalInputModeTracker) :
    InputModeSequence → Option (TerminalInputModeTracker × TerminalInputModeFeedResult)
  | .kitty marker params => tracker.applyKittyKeyboardSequence marker params
  | .privateMode params final =>
    let (next, changed) := tracker.applyPrivateModeSequence params final
    some (next, { changed, responses := [] })

/-- The sequences one after another, with the responses in order. -/
def applySequences : TerminalInputModeTracker → List InputModeSequence →
    Option (TerminalInputModeTracker × TerminalInputModeFeedResult)
  | tracker, [] => some (tracker, { changed := false, responses := [] })
  | tracker, sequence :: sequences => do
    let (next, result) ← tracker.applySequence sequence
    let (final, results) ← next.applySequences sequences
    return (final,
      { changed := result.changed || results.changed
        responses := result.responses ++ results.responses })

/-- One piece of the output; `none` where the source does not return. -/
def feed (tracker : TerminalInputModeTracker) (data : Text) :
    Option (TerminalInputModeTracker × TerminalInputModeFeedResult) :=
  if data = [] then some (tracker, { changed := false, responses := [] })
  else
    let (sequences, tail) := allMatches (tracker.pending ++ data)
    (applySequences { tracker with pending := [] } sequences).map fun (next, result) =>
      ({ next with pending := pendingOf tail }, result)

/-- Pieces fed one after another, with all responses in order. -/
def feedAll : TerminalInputModeTracker → List Text →
    Option (TerminalInputModeTracker × List Text)
  | tracker, [] => some (tracker, [])
  | tracker, data :: chunks => do
    let (next, result) ← tracker.feed data
    let (final, responses) ← next.feedAll chunks
    return (final, result.responses ++ responses)

/-- The sequences that put a fresh terminal into the same modes. -/
def getPreamble (tracker : TerminalInputModeTracker) : Text :=
  (if tracker.kittyKeyboardFlags ≠ finite 0 then
    [27, 91, 61] ++ tracker.kittyKeyboardFlags.toText ++ [59, 49, 117] else []) ++
  (if tracker.win32InputMode then [27, 91, 63, 57, 48, 48, 49, 104] else []) ++
  (if tracker.applicationCursorKeys then [27, 91, 63, 49, 104] else []) ++
  (if tracker.bracketedPaste then [27, 91, 63, 50, 48, 48, 52, 104] else [])

end TerminalInputModeTracker

end Orqara.Terminal
