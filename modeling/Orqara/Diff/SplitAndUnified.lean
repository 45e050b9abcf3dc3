import Orqara.Diff.DiffLayout

/-!
# The same lines in one column and in two

Each column of the split layout has the lines of its side in order, with the numbers and the review
targets that the unified layout has for them.
-/

namespace Orqara.Diff

open ReviewSide

/-- The lines that a side has. -/
def ReviewSide.shows : ReviewSide → DiffLineType → Bool
  | .old, type => type = .remove ∨ type = .context
  | .new, type => type = .add ∨ type = .context

def ReviewSide.number {α : Type} (side : ReviewSide) (old new : α) : α :=
  match side with
  | .old => old
  | .new => new

def DiffHunk.start (hunk : DiffHunk) (side : ReviewSide) : ℤ := side.number hunk.oldStart hunk.newStart

/-- The lines of a side with their indexes. -/
def DiffHunk.sideLines (hunk : DiffHunk) (side : ReviewSide) : List (DiffLine × ℕ) :=
  hunk.lines.zipIdx.filter fun entry => side.shows entry.1.type

/-- The line numbers that a hunk takes up on a side. -/
def DiffHunk.range (hunk : DiffHunk) (side : ReviewSide) : Set ℤ :=
  Set.Ico (hunk.start side) (hunk.start side + (hunk.sideLines side).length)

/-- Those numbers one by one. -/
def DiffHunk.numbers (hunk : DiffHunk) (side : ReviewSide) : List ℤ :=
  (List.range (hunk.sideLines side).length).map fun (i : ℕ) => hunk.start side + (i : ℤ)

def NumberedDiffLine.cell (line : NumberedDiffLine) (side : ReviewSide) : Option NumberedDiffCell :=
  side.number line.oldCell line.newCell

def SplitDiffRow.cell (side : ReviewSide) : SplitDiffRow → Option SplitDiffDisplayLine
  | .header _ _ _ => none
  | .pair left right => side.number left right

/-- A column without its gaps. -/
def cellsOf (side : ReviewSide) (rows : List SplitDiffRow) : List SplitDiffDisplayLine :=
  rows.filterMap (SplitDiffRow.cell side)

/-- The line that a cell shows. -/
def SplitDiffDisplayLine.source (cell : SplitDiffDisplayLine) : ℕ × ℕ × DiffLine :=
  (cell.hunkIndex, cell.lineIndex, ⟨cell.type, cell.content, cell.tokens⟩)

/-- A review target as the other side has it, if the line is there. -/
def ReviewableDiffTarget.forSide (target : ReviewableDiffTarget) (side : ReviewSide) :
    Option ReviewableDiffTarget :=
  (side.number target.oldLineNumber target.newLineNumber).map fun lineNumber =>
    { target with
      key := buildReviewableDiffTargetKey target.filePath side lineNumber
      side
      lineNumber }

variable {side : ReviewSide} {filePath hunkHeader : String} {hunkIndex lineIndex : ℕ}
  {line : DiffLine} {lines : List DiffLine} {oldNumber newNumber : Option ℤ} {old new : ℤ}
  {numbered : NumberedDiffLine} {type : DiffLineType}

/-! ## Numbered lines -/

/-- The cell of a line on a side that has it. -/
def sideCell (filePath hunkHeader : String) (hunkIndex lineIndex : ℕ) (line : DiffLine)
    (oldLineNumber newLineNumber : Option ℤ) (side : ReviewSide) (lineNumber : ℤ) :
    NumberedDiffCell where
  key := buildReviewableDiffTargetKey filePath side lineNumber
  filePath := filePath
  hunkHeader := hunkHeader
  hunkIndex := hunkIndex
  lineIndex := lineIndex
  oldLineNumber := oldLineNumber
  newLineNumber := newLineNumber
  side := side
  lineNumber := lineNumber
  lineType := line.type
  content := line.content
  line := line

theorem buildNumberedCell_eq : buildNumberedCell filePath hunkHeader hunkIndex lineIndex line
    oldNumber newNumber side =
      if side.shows line.type then (side.number oldNumber newNumber).map
        (sideCell filePath hunkHeader hunkIndex lineIndex line oldNumber newNumber side)
      else none := by
  obtain ⟨type, content, tokens⟩ := line
  cases side <;> cases type <;>
    simp [buildNumberedCell, shows, number] <;> rfl

/-- The number of a line that a side has. -/
def numberIf (side : ReviewSide) (type : DiffLineType) (number : ℤ) : Option ℤ :=
  if side.shows type then some number else none

/-- The next number behind a line. -/
def nextNumber (side : ReviewSide) (type : DiffLineType) (number : ℤ) : ℤ :=
  if side.shows type then number + 1 else number

theorem numberLines_cons : numberLines filePath hunkHeader hunkIndex lineIndex old new (line :: lines) =
    numberLine filePath hunkHeader hunkIndex lineIndex line (numberIf .old line.type old)
        (numberIf .new line.type new) ::
      numberLines filePath hunkHeader hunkIndex (lineIndex + 1) (nextNumber .old line.type old)
        (nextNumber .new line.type new) lines := by
  rw [numberLines]
  cases line.type <;> simp [numberIf, nextNumber, shows]

theorem cell_numberLine : (numberLine filePath hunkHeader hunkIndex lineIndex line
    (numberIf .old line.type old) (numberIf .new line.type new)).cell side =
      if side.shows line.type then
        some (sideCell filePath hunkHeader hunkIndex lineIndex line (numberIf .old line.type old)
          (numberIf .new line.type new) side (side.number old new))
      else none := by
  have hcell : (numberLine filePath hunkHeader hunkIndex lineIndex line
      (numberIf .old line.type old) (numberIf .new line.type new)).cell side =
      buildNumberedCell filePath hunkHeader hunkIndex lineIndex line
        (numberIf .old line.type old) (numberIf .new line.type new) side := by
    cases side <;> rfl
  rw [hcell, buildNumberedCell_eq]
  split
  · next h =>
    cases side
    · simp [number, numberIf, h]
    · simp [number, numberIf, h]
  · rfl

/-- A numbered line as the numbering makes it. -/
def IsNumbered (filePath hunkHeader : String) (hunkIndex : ℕ) (numbered : NumberedDiffLine) : Prop :=
  ∃ lineIndex line old new, numbered = numberLine filePath hunkHeader hunkIndex lineIndex line
    (numberIf .old line.type old) (numberIf .new line.type new)

theorem isNumbered_of_mem
    (h : numbered ∈ numberLines filePath hunkHeader hunkIndex lineIndex old new lines) :
    IsNumbered filePath hunkHeader hunkIndex numbered := by
  induction lines generalizing lineIndex old new with
  | nil => cases h
  | cons line lines ih =>
    rw [numberLines_cons, List.mem_cons] at h
    rcases h with rfl | h
    · exact ⟨_, _, _, _, rfl⟩
    · exact ih h

/-- The cells of a side are its lines in order. -/
theorem sources_numberLines :
    ((numberLines filePath hunkHeader hunkIndex lineIndex old new lines).filterMap (·.cell side)).map
      (fun cell => (toSplitDisplayLine cell).source) =
    ((lines.zipIdx lineIndex).filter fun entry => side.shows entry.1.type).map fun entry =>
      (hunkIndex, entry.2, entry.1) := by
  induction lines generalizing lineIndex old new with
  | nil => rfl
  | cons line lines ih =>
    rw [numberLines_cons, List.filterMap_cons, cell_numberLine, List.zipIdx_cons, List.filter_cons]
    by_cases h : side.shows line.type = true
    · simp only [h, if_true, List.map_cons, ih]
      rfl
    · simp only [h, if_false, ih, Bool.false_eq_true]

/-- The numbers of a side go up by one. -/
theorem numbers_numberLines :
    ((numberLines filePath hunkHeader hunkIndex lineIndex old new lines).filterMap (·.cell side)).map
      (fun cell => cell.lineNumber) =
    (List.range ((lines.zipIdx lineIndex).filter fun entry => side.shows entry.1.type).length).map
      fun (i : ℕ) => side.number old new + i := by
  induction lines generalizing lineIndex old new with
  | nil => rfl
  | cons line lines ih =>
    rw [numberLines_cons, List.filterMap_cons, cell_numberLine, List.zipIdx_cons, List.filter_cons]
    have hnext : side.number (nextNumber .old line.type old) (nextNumber .new line.type new) =
        nextNumber side line.type (side.number old new) := by
      cases side <;> rfl
    by_cases h : side.shows line.type = true
    · have hfirst : side.number old new + ((0 : ℕ) : ℤ) = side.number old new := by simp
      rw [if_pos h, if_pos h, List.map_cons, ih, hnext, nextNumber, if_pos h, List.length_cons,
        List.range_succ_eq_map, List.map_cons, List.map_map, hfirst]
      refine congrArg (List.cons _) (List.map_congr_left fun i _ => ?_)
      simp only [Function.comp_apply, Nat.cast_succ]
      ring
    · rw [if_neg h, if_neg h]
      dsimp only
      rw [ih, hnext, nextNumber, if_neg h]

/-- The indexes go up. -/
theorem le_lineIndex_of_mem
    (h : numbered ∈ numberLines filePath hunkHeader hunkIndex lineIndex old new lines) :
    lineIndex ≤ numbered.lineIndex := by
  induction lines generalizing lineIndex old new with
  | nil => cases h
  | cons line lines ih =>
    rw [numberLines_cons, List.mem_cons] at h
    rcases h with rfl | h
    · exact le_refl _
    · exact (Nat.le_succ _).trans (ih h)

theorem eq_of_lineIndex {a b : NumberedDiffLine}
    (ha : a ∈ numberLines filePath hunkHeader hunkIndex lineIndex old new lines)
    (hb : b ∈ numberLines filePath hunkHeader hunkIndex lineIndex old new lines)
    (h : a.lineIndex = b.lineIndex) : a = b := by
  induction lines generalizing lineIndex old new with
  | nil => cases ha
  | cons line lines ih =>
    rw [numberLines_cons, List.mem_cons] at ha hb
    rcases ha with rfl | ha <;> rcases hb with rfl | hb
    · rfl
    · have hlater := le_lineIndex_of_mem hb
      rw [← h] at hlater
      exact absurd hlater (Nat.not_succ_le_self _)
    · have hlater := le_lineIndex_of_mem ha
      rw [h] at hlater
      exact absurd hlater (Nat.not_succ_le_self _)
    · exact ih ha hb

/-- The side that the unified layout shows a line of. -/
def unifiedSide (type : DiffLineType) : ReviewSide := if type = .remove then .old else .new

theorem unifiedCell_numberLine : (numberLine filePath hunkHeader hunkIndex lineIndex line oldNumber
    newNumber).unifiedCell = (numberLine filePath hunkHeader hunkIndex lineIndex line oldNumber
      newNumber).cell (unifiedSide line.type) := by
  cases htype : line.type <;>
    simp [numberLine, NumberedDiffLine.cell, number, unifiedSide, htype]

theorem shows_unifiedSide (h : side.shows type = true) :
    (unifiedSide type).shows type = true := by
  cases side <;> cases type <;> simp_all [shows, unifiedSide]

/-- The unified layout has the new side of a line, and the old one of a removal. -/
theorem unifiedSide_eq (h : side.shows type = true) (hside : side = .new ∨ type = .remove) :
    unifiedSide type = side := by
  cases side <;> cases type <;> simp_all [shows, unifiedSide]

section

variable (h : IsNumbered filePath hunkHeader hunkIndex numbered)
include h

/-- The cell of a side and the one of the unified layout are of the same line. -/
theorem forSide_unifiedCell {cell : NumberedDiffCell} (hcell : numbered.cell side = some cell) :
    ∃ unified, numbered.unifiedCell = some unified ∧
      (toReviewTarget unified).forSide side = some (toReviewTarget cell) ∧
      (side = .new ∨ cell.lineType = .remove → unified = cell) := by
  obtain ⟨lineIndex, line, old, new, rfl⟩ := h
  rw [unifiedCell_numberLine]
  rw [cell_numberLine] at *
  split at hcell
  · next hshows =>
    have hnumber : side.number (numberIf .old line.type old) (numberIf .new line.type new) =
        some (side.number old new) := by
      cases side <;> simp [number, numberIf, hshows]
    rw [if_pos (shows_unifiedSide hshows), ← Option.some.inj hcell]
    refine ⟨_, rfl, ?_, ?_⟩
    · simp [ReviewableDiffTarget.forSide, toReviewTarget, sideCell, hnumber]
    · intro hside
      rw [unifiedSide_eq hshows hside]
  · cases hcell

theorem place_of_cell {cell : NumberedDiffCell} (hcell : numbered.cell side = some cell) :
    numbered.hunkIndex = cell.hunkIndex ∧ numbered.lineIndex = cell.lineIndex := by
  obtain ⟨lineIndex, line, old, new, rfl⟩ := h
  rw [cell_numberLine] at hcell
  split at hcell
  · rw [← Option.some.inj hcell]
    exact ⟨rfl, rfl⟩
  · cases hcell

/-! ## Rows -/

omit h in
theorem filterMap_range_getElem? {α β : Type} (f : α → β) (xs : List α) {n : ℕ}
    (h : xs.length ≤ n) : (List.range n).filterMap (fun i => xs[i]?.map f) = xs.map f := by
  induction xs generalizing n with
  | nil => simp
  | cons x xs ih =>
    cases n with
    | zero => simp at h
    | succ n =>
      rw [List.range_succ_eq_map, List.filterMap_cons, List.filterMap_map]
      simpa [Function.comp_def] using ih (Nat.le_of_succ_le_succ h)

omit h in
theorem cellsOf_append (first rest : List SplitDiffRow) :
    cellsOf side (first ++ rest) = cellsOf side first ++ cellsOf side rest :=
  List.filterMap_append

omit h in
theorem cellsOf_flushPendingRows (removals additions : List NumberedDiffCell) :
    cellsOf side (flushPendingRows removals additions) =
      (side.number removals additions).map toSplitDisplayLine := by
  rw [cellsOf, flushPendingRows, List.filterMap_map]
  cases side with
  | old => exact filterMap_range_getElem? _ _ (le_max_left _ _)
  | new => exact filterMap_range_getElem? _ _ (le_max_right _ _)

theorem cell_of_type (hshows : side.shows numbered.line.type = false) : numbered.cell side = none := by
  obtain ⟨lineIndex, line, old, new, rfl⟩ := h
  have hline : side.shows line.type = false := hshows
  rw [cell_numberLine, hline]
  rfl

end

theorem filterMap_cons_toList {α β : Type} (f : α → Option β) (x : α) (xs : List α) :
    (x :: xs).filterMap f = (f x).toList ++ xs.filterMap f := by
  rw [List.filterMap_cons]
  cases f x <;> rfl

theorem cellsOf_pair (left right : Option NumberedDiffCell) (rows : List SplitDiffRow) :
    cellsOf side (.pair (left.map toSplitDisplayLine) (right.map toSplitDisplayLine) :: rows) =
      ((side.number left right).toList).map toSplitDisplayLine ++ cellsOf side rows := by
  rw [cellsOf, filterMap_cons_toList]
  cases side with
  | old => cases left <;> rfl
  | new => cases right <;> rfl

/-- Behind what is pending, the cells of a side are those of its lines. -/
theorem cellsOf_splitRows (removals additions : List NumberedDiffCell) {lines : List NumberedDiffLine}
    (h : ∀ numbered ∈ lines, IsNumbered filePath hunkHeader hunkIndex numbered) :
    cellsOf side (splitRows removals additions lines) =
      (side.number removals additions ++ lines.filterMap (·.cell side)).map toSplitDisplayLine := by
  induction lines generalizing removals additions with
  | nil => rw [splitRows, cellsOf_flushPendingRows, List.filterMap_nil, List.append_nil]
  | cons numbered lines ih =>
    have hfirst := h numbered List.mem_cons_self
    have hrest : ∀ numbered ∈ lines, IsNumbered filePath hunkHeader hunkIndex numbered :=
      fun numbered hmem => h numbered (List.mem_cons_of_mem _ hmem)
    have hnone : side.shows numbered.line.type = false → numbered.cell side = none :=
      cell_of_type hfirst
    rw [splitRows, filterMap_cons_toList]
    cases htype : numbered.line.type with
    | header =>
      rw [htype] at hnone
      dsimp only
      rw [ih _ _ hrest, hnone (by cases side <;> rfl)]
      rfl
    | remove =>
      rw [htype] at hnone
      dsimp only
      rw [ih _ _ hrest]
      cases side with
      | old => simp [number, NumberedDiffLine.cell]
      | new => simp [number, hnone rfl]
    | add =>
      rw [htype] at hnone
      dsimp only
      rw [ih _ _ hrest]
      cases side with
      | old => simp [number, hnone rfl]
      | new => simp [number, NumberedDiffLine.cell]
    | context =>
      dsimp only
      rw [cellsOf_append, cellsOf_flushPendingRows, cellsOf_pair, ih _ _ hrest]
      cases side <;> simp [number, NumberedDiffLine.cell]

/-- A row that shows one context line on both sides. -/
def contextRow : SplitDiffRow → Option (ℕ × ℕ × DiffLine)
  | .pair (some left) (some right) =>
    if left.type = .context ∧ left.source = right.source then some left.source else none
  | _ => none

/-- A row with a context line on one of its sides. -/
def SplitDiffRow.HasContext (row : SplitDiffRow) : Prop :=
  ∃ side, ∃ cell ∈ row.cell side, cell.type = .context

theorem contextRow_flushPendingRows {removals additions : List NumberedDiffCell}
    (hremovals : ∀ cell ∈ removals, cell.lineType = .remove)
    (hadditions : ∀ cell ∈ additions, cell.lineType = .add) {row : SplitDiffRow}
    (h : row ∈ flushPendingRows removals additions) : ¬ row.HasContext := by
  obtain ⟨i, -, rfl⟩ := List.mem_map.mp h
  rintro ⟨side, shown, hshown, hcontext⟩
  cases side with
  | old =>
    obtain ⟨cell, hcell, rfl⟩ := Option.map_eq_some_iff.mp hshown
    have hremove := hremovals cell (List.mem_of_getElem? hcell)
    rw [toSplitDisplayLine, hremove] at hcontext
    cases hcontext
  | new =>
    obtain ⟨cell, hcell, rfl⟩ := Option.map_eq_some_iff.mp hshown
    have hadd := hadditions cell (List.mem_of_getElem? hcell)
    rw [toSplitDisplayLine, hadd] at hcontext
    cases hcontext

theorem hasContext_of_contextRow {row : SplitDiffRow} {source : ℕ × ℕ × DiffLine}
    (h : contextRow row = some source) : row.HasContext := by
  cases row with
  | header => cases h
  | pair left right =>
    cases left with
    | none => cases h
    | some left =>
      cases right with
      | none => cases h
      | some right =>
        rw [contextRow] at h
        split at h
        · next hboth => exact ⟨.old, left, rfl, hboth.1⟩
        · cases h

theorem filterMap_contextRow_flushPendingRows {removals additions : List NumberedDiffCell}
    (hremovals : ∀ cell ∈ removals, cell.lineType = .remove)
    (hadditions : ∀ cell ∈ additions, cell.lineType = .add) :
    (flushPendingRows removals additions).filterMap contextRow = [] := by
  rw [List.filterMap_eq_nil_iff]
  intro row hrow
  rw [Option.eq_none_iff_forall_ne_some]
  intro source hsource
  exact contextRow_flushPendingRows hremovals hadditions hrow (hasContext_of_contextRow hsource)

theorem lineType_of_mem_append {cells : List NumberedDiffCell} {cell : Option NumberedDiffCell}
    (hcells : ∀ cell ∈ cells, cell.lineType = type) (hcell : ∀ c ∈ cell, c.lineType = type) :
    ∀ c ∈ cells ++ cell.toList, c.lineType = type := by
  intro c hc
  rcases List.mem_append.mp hc with hc | hc
  · exact hcells c hc
  · exact hcell c (by simpa using hc)

theorem lineType_cell {c : NumberedDiffCell} (h : c ∈ (numberLine filePath hunkHeader hunkIndex
    lineIndex line (numberIf .old line.type old) (numberIf .new line.type new)).cell side) :
    c.lineType = line.type := by
  rw [cell_numberLine] at h
  split at h
  · rw [← Option.some.inj h]
    rfl
  · cases h

theorem cell_old (numbered : NumberedDiffLine) : numbered.cell .old = numbered.oldCell := rfl

theorem cell_new (numbered : NumberedDiffLine) : numbered.cell .new = numbered.newCell := rfl

theorem contextRow_pair (filePath hunkHeader : String) (hunkIndex lineIndex : ℕ) (old new : ℤ)
    (h : line.type = .context) :
    contextRow (.pair
      ((numberLine filePath hunkHeader hunkIndex lineIndex line (numberIf .old line.type old)
        (numberIf .new line.type new)).oldCell.map toSplitDisplayLine)
      ((numberLine filePath hunkHeader hunkIndex lineIndex line (numberIf .old line.type old)
        (numberIf .new line.type new)).newCell.map toSplitDisplayLine)) =
      some (hunkIndex, lineIndex, line) := by
  have hold : ReviewSide.old.shows line.type = true := by
    rw [h]
    rfl
  have hnew : ReviewSide.new.shows line.type = true := by
    rw [h]
    rfl
  rw [← cell_old, ← cell_new, cell_numberLine, cell_numberLine, if_pos hold, if_pos hnew]
  exact if_pos ⟨h, rfl⟩

/-- The rows with a context line are those of the context lines, in order. -/
theorem contextRows_splitRows {removals additions : List NumberedDiffCell}
    (hremovals : ∀ cell ∈ removals, cell.lineType = .remove)
    (hadditions : ∀ cell ∈ additions, cell.lineType = .add) :
    (splitRows removals additions
        (numberLines filePath hunkHeader hunkIndex lineIndex old new lines)).filterMap contextRow =
      ((lines.zipIdx lineIndex).filter fun entry => entry.1.type = .context).map (fun entry =>
        (hunkIndex, entry.2, entry.1)) ∧
    ∀ row ∈ splitRows removals additions
        (numberLines filePath hunkHeader hunkIndex lineIndex old new lines),
      row.HasContext → (contextRow row).isSome := by
  induction lines generalizing removals additions lineIndex old new with
  | nil =>
    refine ⟨filterMap_contextRow_flushPendingRows hremovals hadditions, ?_⟩
    intro row hrow hcontext
    exact absurd hcontext (contextRow_flushPendingRows hremovals hadditions hrow)
  | cons line lines ih =>
    rw [numberLines_cons, splitRows, List.zipIdx_cons, List.filter_cons]
    have hline : ∀ {oldNumber newNumber}, (numberLine filePath hunkHeader hunkIndex lineIndex line
        oldNumber newNumber).line = line := rfl
    rw [hline]
    have hcells : ∀ side, ∀ c ∈ (numberLine filePath hunkHeader hunkIndex lineIndex line
        (numberIf .old line.type old) (numberIf .new line.type new)).cell side,
        c.lineType = line.type := fun side c hc => lineType_cell hc
    cases htype : line.type with
    | header => simpa using ih hremovals hadditions
    | remove =>
      rw [htype] at hcells
      simpa [cell_old] using ih (lineType_of_mem_append hremovals (hcells .old)) hadditions
    | add =>
      rw [htype] at hcells
      simpa [cell_new] using ih hremovals (lineType_of_mem_append hadditions (hcells .new))
    | context =>
      obtain ⟨hrows, hcontexts⟩ := @ih (lineIndex + 1) (nextNumber .old .context old)
        (nextNumber .new .context new) [] [] nofun nofun
      have hpair := contextRow_pair filePath hunkHeader hunkIndex lineIndex old new htype
      rw [htype] at hpair
      dsimp only
      constructor
      · rw [List.filterMap_append, filterMap_contextRow_flushPendingRows hremovals hadditions,
          List.nil_append, List.filterMap_cons, hpair]
        simp [hrows, htype]
      · intro row hrow hcontext
        rcases List.mem_append.mp hrow with hrow | hrow
        · exact absurd hcontext (contextRow_flushPendingRows hremovals hadditions hrow)
        · rcases List.mem_cons.mp hrow with rfl | hrow
          · rw [hpair]
            rfl
          · exact hcontexts row hrow hcontext

/-! ## Files -/

variable {file : ParsedDiffFile}

section

variable (hunk : DiffHunk)

theorem lines_numberHunk : (numberHunk filePath hunk hunkIndex).lines =
    numberLines filePath (getHunkHeader hunk) hunkIndex 0 hunk.oldStart hunk.newStart hunk.lines :=
  rfl

theorem cellsOf_splitHunk :
    cellsOf side (splitHunk (numberHunk filePath hunk hunkIndex)) =
      ((numberHunk filePath hunk hunkIndex).lines.filterMap (·.cell side)).map toSplitDisplayLine := by
  have hrows : cellsOf side (splitHunk (numberHunk filePath hunk hunkIndex)) =
      cellsOf side (splitRows [] [] (numberHunk filePath hunk hunkIndex).lines) := rfl
  rw [hrows, lines_numberHunk, cellsOf_splitRows [] [] fun _ hmem => isNumbered_of_mem hmem]
  cases side <;> rfl

theorem cellsOf_buildSplitDiffRows (file : ParsedDiffFile) (side : ReviewSide) :
    cellsOf side (buildSplitDiffRows file) = file.hunks.zipIdx.flatMap fun entry =>
      ((numberHunk file.path entry.1 entry.2).lines.filterMap (·.cell side)).map
        toSplitDisplayLine := by
  rw [cellsOf, buildSplitDiffRows, buildNumberedDiffHunks, List.filterMap_flatMap, List.flatMap_map]
  apply List.flatMap_congr
  intro entry _
  exact cellsOf_splitHunk entry.1

/-- A cell is that of a line of a hunk. -/
theorem exists_of_mem_cellsOf {cell : SplitDiffDisplayLine}
    (h : cell ∈ cellsOf side (buildSplitDiffRows file)) :
    ∃ hunk hunkIndex numbered numberedCell, (hunk, hunkIndex) ∈ file.hunks.zipIdx ∧
      numbered ∈ (numberHunk file.path hunk hunkIndex).lines ∧
      numbered.cell side = some numberedCell ∧ toSplitDisplayLine numberedCell = cell := by
  rw [cellsOf_buildSplitDiffRows, List.mem_flatMap] at h
  obtain ⟨⟨hunk, hunkIndex⟩, hhunk, hcell⟩ := h
  obtain ⟨numberedCell, hmem, hshown⟩ := List.mem_map.mp hcell
  obtain ⟨numbered, hnumbered, hside⟩ := List.mem_filterMap.mp hmem
  exact ⟨hunk, hunkIndex, numbered, numberedCell, hhunk, hnumbered, hside, hshown⟩

theorem mem_buildUnifiedDiffLines {unified : UnifiedDiffDisplayLine} :
    unified ∈ buildUnifiedDiffLines file ↔ ∃ hunk hunkIndex numbered,
      (hunk, hunkIndex) ∈ file.hunks.zipIdx ∧
      numbered ∈ (numberHunk file.path hunk hunkIndex).lines ∧ unifiedLine numbered = unified := by
  rw [buildUnifiedDiffLines, buildNumberedDiffHunks, List.flatMap_map, List.mem_flatMap]
  constructor
  · rintro ⟨⟨hunk, hunkIndex⟩, hhunk, hmem⟩
    obtain ⟨numbered, hnumbered, hunified⟩ := List.mem_map.mp hmem
    exact ⟨hunk, hunkIndex, numbered, hhunk, hnumbered, hunified⟩
  · rintro ⟨hunk, hunkIndex, numbered, hhunk, hnumbered, hunified⟩
    exact ⟨(hunk, hunkIndex), hhunk, List.mem_map.mpr ⟨numbered, hnumbered, hunified⟩⟩

theorem hunkIndex_of_mem {hunk : DiffHunk} (h : numbered ∈ (numberHunk filePath hunk hunkIndex).lines) :
    numbered.hunkIndex = hunkIndex := by
  obtain ⟨_, _, _, _, rfl⟩ := isNumbered_of_mem h
  rfl

/-- The unified layout has one line at a place. -/
theorem eq_of_place {a b : UnifiedDiffDisplayLine} (ha : a ∈ buildUnifiedDiffLines file)
    (hb : b ∈ buildUnifiedDiffLines file) (hhunk : a.hunkIndex = b.hunkIndex)
    (hline : a.lineIndex = b.lineIndex) : a = b := by
  obtain ⟨hunk, hunkIndex, numbered, hmem, hnumbered, rfl⟩ := mem_buildUnifiedDiffLines.mp ha
  obtain ⟨hunk', hunkIndex', numbered', hmem', hnumbered', rfl⟩ := mem_buildUnifiedDiffLines.mp hb
  have hsame : hunkIndex = hunkIndex' := by
    rw [← hunkIndex_of_mem hnumbered, ← hunkIndex_of_mem hnumbered']
    exact hhunk
  subst hsame
  rw [List.mem_zipIdx_iff_getElem?] at hmem hmem'
  rw [hmem] at hmem'
  obtain rfl := Option.some.inj hmem'
  rw [eq_of_lineIndex hnumbered hnumbered' hline]

theorem buildReviewableDiffTargetKey_injective :
    Function.Injective (buildReviewableDiffTargetKey filePath side) := by
  intro a b h
  exact Int.repr_injective ((String.append_right_inj _).mp h)

/-- A column of the split layout shows the lines of its side. -/
structure SplitShows (file : ParsedDiffFile) (side : ReviewSide) : Prop where
  lines : (cellsOf side (buildSplitDiffRows file)).map (·.source) =
    file.hunks.zipIdx.flatMap fun entry =>
      (entry.1.sideLines side).map fun line => (entry.2, line.2, line.1)
  numbers : (cellsOf side (buildSplitDiffRows file)).map (·.lineNumber) =
    file.hunks.flatMap (·.numbers side)
  /-- Each cell has the number and the target that the unified layout has for its line and side. -/
  unified : ∀ cell ∈ cellsOf side (buildSplitDiffRows file),
    ∃ unified ∈ buildUnifiedDiffLines file, ∃ target,
      (unified.hunkIndex = cell.hunkIndex ∧ unified.lineIndex = cell.lineIndex) ∧
      (∀ other ∈ buildUnifiedDiffLines file, other.hunkIndex = cell.hunkIndex →
        other.lineIndex = cell.lineIndex → other = unified) ∧
      unified.reviewTarget = some target ∧ unified.lineNumber = some target.lineNumber ∧
      target.forSide side = some cell.reviewTarget ∧
      cell.lineNumber = cell.reviewTarget.lineNumber ∧
      (side = .new ∨ cell.type = .remove → target = cell.reviewTarget)
  keys : file.hunks.Pairwise (fun a b => Disjoint (a.range side) (b.range side)) →
    ((cellsOf side (buildSplitDiffRows file)).map (·.reviewTarget.key)).Nodup

theorem numbers_buildSplitDiffRows (file : ParsedDiffFile) (side : ReviewSide) :
    (cellsOf side (buildSplitDiffRows file)).map (·.lineNumber) =
      file.hunks.flatMap (·.numbers side) := by
  have hhunks : file.hunks = file.hunks.zipIdx.map Prod.fst := by simp
  conv_rhs => rw [hhunks, List.flatMap_map]
  rw [cellsOf_buildSplitDiffRows, List.map_flatMap]
  apply List.flatMap_congr
  intro entry _
  rw [List.map_map]
  exact numbers_numberLines

/-- Hunks that take up different numbers have different keys. -/
theorem nodup_keys (h : file.hunks.Pairwise fun a b => Disjoint (a.range side) (b.range side)) :
    ((cellsOf side (buildSplitDiffRows file)).map (·.reviewTarget.key)).Nodup := by
  have hkeys : (cellsOf side (buildSplitDiffRows file)).map (·.reviewTarget.key) =
      ((cellsOf side (buildSplitDiffRows file)).map (·.lineNumber)).map
        (buildReviewableDiffTargetKey file.path side) := by
    rw [List.map_map]
    apply List.map_congr_left
    intro cell hcell
    obtain ⟨hunk, hunkIndex, numbered, numberedCell, -, hnumbered, hside, rfl⟩ :=
      exists_of_mem_cellsOf hcell
    obtain ⟨lineIndex, line, old, new, rfl⟩ := isNumbered_of_mem hnumbered
    rw [cell_numberLine] at hside
    split at hside
    · rw [← Option.some.inj hside]
      rfl
    · cases hside
  rw [hkeys, numbers_buildSplitDiffRows]
  apply List.Nodup.map buildReviewableDiffTargetKey_injective
  rw [List.nodup_flatMap]
  constructor
  · intro hunk _
    apply List.Nodup.map _ List.nodup_range
    intro i j hij
    simpa using hij
  · refine h.imp fun {a b} hdisjoint => ?_
    rw [Function.onFun, List.disjoint_left]
    intro number ha hb
    obtain ⟨i, hi, rfl⟩ := List.mem_map.mp ha
    obtain ⟨j, hj, hsame⟩ := List.mem_map.mp hb
    rw [List.mem_range] at hi hj
    have hina : a.start side + (i : ℤ) ∈ a.range side := ⟨by omega, by omega⟩
    have hinb : a.start side + (i : ℤ) ∈ b.range side := ⟨by omega, by omega⟩
    exact Set.disjoint_left.mp hdisjoint hina hinb

theorem splitShows (file : ParsedDiffFile) (side : ReviewSide) : SplitShows file side where
  lines := by
    rw [cellsOf_buildSplitDiffRows, List.map_flatMap]
    apply List.flatMap_congr
    intro entry _
    rw [List.map_map]
    exact sources_numberLines
  numbers := numbers_buildSplitDiffRows file side
  unified := by
    intro cell hcell
    obtain ⟨hunk, hunkIndex, numbered, numberedCell, hhunk, hnumbered, hside, rfl⟩ :=
      exists_of_mem_cellsOf hcell
    have hunified := mem_buildUnifiedDiffLines.mpr ⟨hunk, hunkIndex, numbered, hhunk, hnumbered, rfl⟩
    obtain ⟨unifiedCell, htarget, hforSide, hsame⟩ :=
      forSide_unifiedCell (isNumbered_of_mem hnumbered) hside
    have hplace : numbered.hunkIndex = numberedCell.hunkIndex ∧
        numbered.lineIndex = numberedCell.lineIndex := place_of_cell (isNumbered_of_mem hnumbered) hside
    refine ⟨_, hunified, toReviewTarget unifiedCell, hplace, ?_, ?_, ?_, hforSide, rfl, ?_⟩
    · intro other hother hhunkIndex hlineIndex
      exact eq_of_place hother hunified (hhunkIndex.trans hplace.1.symm)
        (hlineIndex.trans hplace.2.symm)
    · rw [unifiedLine, htarget]
      rfl
    · rw [unifiedLine, htarget]
      rfl
    · intro hshown
      rw [hsame hshown]
      rfl
  keys := nodup_keys

theorem contextRows_splitHunk :
    (splitHunk (numberHunk filePath hunk hunkIndex)).filterMap contextRow =
      (hunk.lines.zipIdx.filter fun line => line.1.type = .context).map (fun line =>
        (hunkIndex, line.2, line.1)) ∧
    ∀ row ∈ splitHunk (numberHunk filePath hunk hunkIndex), row.HasContext →
      (contextRow row).isSome := by
  have hremovals : ∀ cell ∈ ([] : List NumberedDiffCell), cell.lineType = .remove := by simp
  have hadditions : ∀ cell ∈ ([] : List NumberedDiffCell), cell.lineType = .add := by simp
  rw [splitHunk, lines_numberHunk, List.filterMap_cons_none rfl]
  obtain ⟨hrows, hcontexts⟩ := @contextRows_splitRows filePath (getHunkHeader hunk) hunkIndex 0
    hunk.lines hunk.oldStart hunk.newStart [] [] hremovals hadditions
  refine ⟨hrows, fun row hrow hcontext => ?_⟩
  rcases List.mem_cons.mp hrow with rfl | hrow
  · obtain ⟨side, cell, hcell, -⟩ := hcontext
    cases hcell
  · exact hcontexts row hrow hcontext

end

theorem contextRows_buildSplitDiffRows (file : ParsedDiffFile) :
    (buildSplitDiffRows file).filterMap contextRow = file.hunks.zipIdx.flatMap (fun entry =>
      (entry.1.lines.zipIdx.filter fun line => line.1.type = .context).map fun line =>
        (entry.2, line.2, line.1)) ∧
    ∀ row ∈ buildSplitDiffRows file, row.HasContext → (contextRow row).isSome := by
  rw [buildSplitDiffRows, buildNumberedDiffHunks, List.flatMap_map, List.filterMap_flatMap]
  constructor
  · apply List.flatMap_congr
    intro entry _
    exact (contextRows_splitHunk entry.1).1
  · intro row hrow hcontext
    obtain ⟨entry, -, hmem⟩ := List.mem_flatMap.mp hrow
    exact (contextRows_splitHunk entry.1).2 row hmem hcontext

/-- Both columns of the split layout show the lines of their sides in order, with the numbers and
targets of the unified layout, and the rows with a context line are one for each of them. -/
theorem split_agrees_with_unified (file : ParsedDiffFile) :
    (∀ side, SplitShows file side) ∧
    (buildSplitDiffRows file).filterMap contextRow = file.hunks.zipIdx.flatMap (fun entry =>
      (entry.1.lines.zipIdx.filter fun line => line.1.type = .context).map fun line =>
        (entry.2, line.2, line.1)) ∧
    ∀ row ∈ buildSplitDiffRows file, row.HasContext → (contextRow row).isSome :=
  ⟨splitShows file, contextRows_buildSplitDiffRows file⟩

end Orqara.Diff
