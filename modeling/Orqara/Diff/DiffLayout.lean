import Mathlib

/-!
# The layouts of a diff

The lines of a parsed diff file with their numbers on both sides, in one column and in two. In two
columns a run of removals stands beside the run of additions that it is mixed with.
-/

namespace Orqara.Diff

inductive DiffLineType
  | add
  | remove
  | context
  | header
  deriving DecidableEq

structure HighlightToken where
  text : String
  style : Option String
  deriving DecidableEq

structure DiffLine where
  type : DiffLineType
  content : String
  tokens : Option (List HighlightToken)
  deriving DecidableEq

structure DiffHunk where
  oldStart : ℤ
  newStart : ℤ
  lines : List DiffLine

structure ParsedDiffFile where
  path : String
  hunks : List DiffHunk

inductive ReviewSide
  | old
  | new
  deriving DecidableEq

def ReviewSide.text : ReviewSide → String
  | .old => "old"
  | .new => "new"

def buildReviewableDiffTargetKey (filePath : String) (side : ReviewSide) (lineNumber : ℤ) : String :=
  filePath ++ ":" ++ side.text ++ ":" ++ lineNumber.repr

structure ReviewableDiffTarget where
  key : String
  filePath : String
  hunkHeader : String
  hunkIndex : ℕ
  lineIndex : ℕ
  oldLineNumber : Option ℤ
  newLineNumber : Option ℤ
  side : ReviewSide
  lineNumber : ℤ
  lineType : DiffLineType
  content : String
  deriving DecidableEq

structure NumberedDiffCell extends ReviewableDiffTarget where
  line : DiffLine
  deriving DecidableEq

structure NumberedDiffLine where
  key : String
  filePath : String
  hunkHeader : String
  hunkIndex : ℕ
  lineIndex : ℕ
  line : DiffLine
  oldLineNumber : Option ℤ
  newLineNumber : Option ℤ
  unifiedCell : Option NumberedDiffCell
  oldCell : Option NumberedDiffCell
  newCell : Option NumberedDiffCell

structure NumberedDiffHunk where
  hunkIndex : ℕ
  hunkHeader : String
  lines : List NumberedDiffLine

structure SplitDiffDisplayLine where
  type : DiffLineType
  content : String
  tokens : Option (List HighlightToken)
  lineNumber : ℤ
  reviewTarget : ReviewableDiffTarget
  hunkIndex : ℕ
  lineIndex : ℕ
  side : ReviewSide
  deriving DecidableEq

structure UnifiedDiffDisplayLine where
  key : String
  hunkIndex : ℕ
  lineIndex : ℕ
  line : DiffLine
  lineNumber : Option ℤ
  reviewTarget : Option ReviewableDiffTarget

inductive SplitDiffRow
  | header (content : String) (hunkIndex lineIndex : ℕ)
  | pair (left right : Option SplitDiffDisplayLine)
  deriving DecidableEq

/-! ## Numbered lines -/

def toReviewTarget (cell : NumberedDiffCell) : ReviewableDiffTarget := cell.toReviewableDiffTarget

def toSplitDisplayLine (cell : NumberedDiffCell) : SplitDiffDisplayLine where
  type := cell.lineType
  content := cell.content
  tokens := cell.line.tokens
  lineNumber := cell.lineNumber
  reviewTarget := toReviewTarget cell
  hunkIndex := cell.hunkIndex
  lineIndex := cell.lineIndex
  side := cell.side

def getHunkHeader (hunk : DiffHunk) : String :=
  ((hunk.lines.find? fun line => line.type = .header).map (·.content)).getD "@@"

def buildNumberedCell (filePath hunkHeader : String) (hunkIndex lineIndex : ℕ) (line : DiffLine)
    (oldLineNumber newLineNumber : Option ℤ) (side : ReviewSide) : Option NumberedDiffCell :=
  if line.type = .header then none
  else if line.type = .remove ∧ side ≠ .old then none
  else if line.type = .add ∧ side ≠ .new then none
  else
    (if side = .old then oldLineNumber else newLineNumber).map fun lineNumber =>
      { key := buildReviewableDiffTargetKey filePath side lineNumber
        filePath, hunkHeader, hunkIndex, lineIndex, oldLineNumber, newLineNumber, side, lineNumber
        lineType := line.type
        content := line.content
        line }

def numberLine (filePath hunkHeader : String) (hunkIndex lineIndex : ℕ) (line : DiffLine)
    (oldLineNumber newLineNumber : Option ℤ) : NumberedDiffLine :=
  let cell := buildNumberedCell filePath hunkHeader hunkIndex lineIndex line oldLineNumber newLineNumber
  { key := toString hunkIndex ++ "-" ++ toString lineIndex
    filePath, hunkHeader, hunkIndex, lineIndex, line, oldLineNumber, newLineNumber
    unifiedCell := if line.type = .remove then cell .old else cell .new
    oldCell := cell .old
    newCell := cell .new }

/-- The lines from one index and one pair of line numbers on. -/
def numberLines (filePath hunkHeader : String) (hunkIndex : ℕ) :
    ℕ → ℤ → ℤ → List DiffLine → List NumberedDiffLine
  | _, _, _, [] => []
  | lineIndex, oldLineNo, newLineNo, line :: lines =>
    let number := numberLine filePath hunkHeader hunkIndex lineIndex line
    match line.type with
    | .remove =>
      number (some oldLineNo) none ::
        numberLines filePath hunkHeader hunkIndex (lineIndex + 1) (oldLineNo + 1) newLineNo lines
    | .add =>
      number none (some newLineNo) ::
        numberLines filePath hunkHeader hunkIndex (lineIndex + 1) oldLineNo (newLineNo + 1) lines
    | .context =>
      number (some oldLineNo) (some newLineNo) ::
        numberLines filePath hunkHeader hunkIndex (lineIndex + 1) (oldLineNo + 1) (newLineNo + 1) lines
    | .header =>
      number none none ::
        numberLines filePath hunkHeader hunkIndex (lineIndex + 1) oldLineNo newLineNo lines

def numberHunk (filePath : String) (hunk : DiffHunk) (hunkIndex : ℕ) : NumberedDiffHunk where
  hunkIndex
  hunkHeader := getHunkHeader hunk
  lines := numberLines filePath (getHunkHeader hunk) hunkIndex 0 hunk.oldStart hunk.newStart hunk.lines

def buildNumberedDiffHunks (file : ParsedDiffFile) : List NumberedDiffHunk :=
  file.hunks.zipIdx.map fun entry => numberHunk file.path entry.1 entry.2

/-! ## One column -/

def unifiedLine (numberedLine : NumberedDiffLine) : UnifiedDiffDisplayLine where
  key := numberedLine.key
  hunkIndex := numberedLine.hunkIndex
  lineIndex := numberedLine.lineIndex
  line := numberedLine.line
  lineNumber := numberedLine.unifiedCell.map (·.lineNumber)
  reviewTarget := numberedLine.unifiedCell.map toReviewTarget

def buildUnifiedDiffLines (file : ParsedDiffFile) : List UnifiedDiffDisplayLine :=
  (buildNumberedDiffHunks file).flatMap fun hunk => hunk.lines.map unifiedLine

/-! ## Two columns -/

def flushPendingRows (pendingRemovals pendingAdditions : List NumberedDiffCell) : List SplitDiffRow :=
  (List.range (max pendingRemovals.length pendingAdditions.length)).map fun index =>
    .pair (pendingRemovals[index]?.map toSplitDisplayLine)
      (pendingAdditions[index]?.map toSplitDisplayLine)

/-- The rows of the lines that are left, behind those that are still pending. -/
def splitRows : List NumberedDiffCell → List NumberedDiffCell → List NumberedDiffLine → List SplitDiffRow
  | pendingRemovals, pendingAdditions, [] => flushPendingRows pendingRemovals pendingAdditions
  | pendingRemovals, pendingAdditions, numberedLine :: lines =>
    match numberedLine.line.type with
    | .header => splitRows pendingRemovals pendingAdditions lines
    | .remove => splitRows (pendingRemovals ++ numberedLine.oldCell.toList) pendingAdditions lines
    | .add => splitRows pendingRemovals (pendingAdditions ++ numberedLine.newCell.toList) lines
    | .context =>
      flushPendingRows pendingRemovals pendingAdditions ++
        .pair (numberedLine.oldCell.map toSplitDisplayLine)
          (numberedLine.newCell.map toSplitDisplayLine) :: splitRows [] [] lines

def splitHunk (hunk : NumberedDiffHunk) : List SplitDiffRow :=
  .header hunk.hunkHeader hunk.hunkIndex
      (((hunk.lines.find? fun line => line.line.type = .header).map (·.lineIndex)).getD 0) ::
    splitRows [] [] hunk.lines

def buildSplitDiffRows (file : ParsedDiffFile) : List SplitDiffRow :=
  (buildNumberedDiffHunks file).flatMap splitHunk

end Orqara.Diff
