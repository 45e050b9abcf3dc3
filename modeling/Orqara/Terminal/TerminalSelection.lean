import Orqara.Library.JsString

/-!
# Selected text of a terminal

The rows of a terminal's buffer, a selection of its cells, and the text that is copied of it. Rows and
columns are numbered from the oldest row that is kept.
-/

namespace Orqara.Terminal

/-- A text, as its characters. -/
abbrev ScreenText := List Char

/-- `trimEnd` -/
def trimEnd (text : ScreenText) : ScreenText := text.rdropWhile isWhiteSpace

structure BufferRow where
  /-- the text of every cell; none where nothing was written -/
  cells : List ScreenText
  isWrapped : Bool
  deriving DecidableEq, Repr

structure HeadlessTerminal where
  oldestRow : ℤ
  coordinateEpoch : ℕ
  lines : List BufferRow
  deriving DecidableEq, Repr

structure BufferCoordinate where
  row : ℤ
  col : ℤ
  deriving DecidableEq, Repr

structure SelectionRange where
  start : BufferCoordinate
  finish : BufferCoordinate
  coordinateEpoch : ℕ
  deriving DecidableEq, Repr

namespace HeadlessTerminal

/-- The last row of `getBufferBounds`. -/
def newestRow (terminal : HeadlessTerminal) : ℤ :=
  terminal.oldestRow + max 1 (terminal.lines.length : ℤ) - 1

/-- The first row of `getBufferWindow`, and its rows. -/
def getBufferWindow (terminal : HeadlessTerminal) (startRow rowCount : ℤ) : ℤ × List BufferRow :=
  let count := max 0 rowCount
  let newest := terminal.oldestRow + terminal.lines.length - 1
  let start := min (max terminal.oldestRow startRow) (newest + 1)
  let stop := min (newest + 1) (start + count)
  (start, (terminal.lines.take (stop - terminal.oldestRow).toNat).drop (start - terminal.oldestRow).toNat)

end HeadlessTerminal

def rangeIsSafe (range : SelectionRange) (terminal : HeadlessTerminal) : Bool :=
  range.coordinateEpoch == terminal.coordinateEpoch && terminal.oldestRow ≤ range.start.row &&
    range.finish.row ≤ terminal.newestRow

/-- The order of `compareCoordinates`. -/
def BufferCoordinate.le (left right : BufferCoordinate) : Bool :=
  if left.row ≠ right.row then left.row ≤ right.row else left.col ≤ right.col

def normalizeTerminalSelection (anchor focus : BufferCoordinate) (coordinateEpoch : ℕ) :
    SelectionRange :=
  if anchor.le focus then ⟨anchor, focus, coordinateEpoch⟩ else ⟨focus, anchor, coordinateEpoch⟩

/-- The text of some cells of a row, from one column to another. -/
def selectedLine (cells : List ScreenText) (startCol endCol : ℤ) : ScreenText :=
  ((cells.take ((max 0 endCol).toNat + 1)).drop (max 0 startCol).toNat).flatMap fun char =>
    if char = [] then [' '] else char

/-- What a row of the window adds to the text; `row` is its number. -/
def rowText (selection : SelectionRange) (row : ℤ) (line : BufferRow) : ScreenText :=
  let startCol := if row = selection.start.row then selection.start.col else 0
  let endCol := if row = selection.finish.row then selection.finish.col else line.cells.length - 1
  trimEnd (selectedLine line.cells startCol endCol)

/-- The rows of the window from an offset on. -/
def textFrom (selection : SelectionRange) (startRow : ℤ) : ℕ → List BufferRow → ScreenText
  | _, [] => []
  | offset, line :: lines =>
    (if 0 < offset ∧ line.isWrapped = false then ['\n'] else []) ++
      rowText selection (startRow + offset) line ++ textFrom selection startRow (offset + 1) lines

def extractTerminalSelectedText (terminal : HeadlessTerminal) (selection : Option SelectionRange) :
    ScreenText :=
  match selection with
  | none => []
  | some selection =>
    if rangeIsSafe selection terminal then
      let window := terminal.getBufferWindow selection.start.row
        (selection.finish.row - selection.start.row + 1)
      textFrom selection window.1 0 window.2
    else []

end Orqara.Terminal
