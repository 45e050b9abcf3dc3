import Orqara.Terminal.TerminalSelection

/-!
# Copied lines

Every row is trimmed by itself, also where the next one goes on with the same line. So a line comes
back whole exactly if no row that is continued ends in a blank; which rows these are depends on the
width of the window. Line feeds are right for every selection.
-/

namespace Orqara.Terminal

open List

variable {c : ℕ} {text rest : ScreenText} {terminal : HeadlessTerminal} {selection : SelectionRange}

/-! ## Lines in rows -/

/-- A text cut into a number of pieces of `c` characters. -/
def cut (c : ℕ) : ℕ → ScreenText → List ScreenText
  | 0, _ => []
  | n + 1, text => text.take c :: cut c n (text.drop c)

/-- The rows that a line takes, at least one. -/
def rowCount (c : ℕ) (line : ScreenText) : ℕ := (line.length - 1) / c + 1

/-- A row of `c` cells: the characters of a piece, and blanks behind them. -/
def layoutRow (c : ℕ) (isWrapped : Bool) (piece : ScreenText) : BufferRow where
  cells := piece.map (fun char => [char]) ++ List.replicate (c - piece.length) [' ']
  isWrapped

/-- Rows behind the first are flagged as wrapped. -/
def layoutLine (c : ℕ) (line : ScreenText) : List BufferRow :=
  match cut c (rowCount c line) line with
  | [] => []
  | piece :: pieces => layoutRow c false piece :: pieces.map (layoutRow c true)

def layout (c : ℕ) (lines : List ScreenText) : HeadlessTerminal where
  oldestRow := 0
  coordinateEpoch := 0
  lines := lines.flatMap (layoutLine c)

/-- From the first cell of the first row to the last cell of the last row. -/
def selectAll (c : ℕ) (terminal : HeadlessTerminal) : SelectionRange where
  start := ⟨terminal.oldestRow, 0⟩
  finish := ⟨terminal.newestRow, c - 1⟩
  coordinateEpoch := terminal.coordinateEpoch

/-- The lines with trailing blanks removed, joined by line feeds. -/
def joinLines (lines : List ScreenText) : ScreenText := ['\n'].intercalate (lines.map trimEnd)

/-- Behind no blank at the right edge, a line goes on with more than blanks. -/
def NotCutAtBlank (c : ℕ) (text : ScreenText) : Prop :=
  ∀ i, (i + 1) * c < (trimEnd text).length →
    ∀ char ∈ (text[(i + 1) * c - 1]?), isWhiteSpace char = false

/-! ## Trimming -/

theorem trimEnd_append (text rest : ScreenText) :
    trimEnd (text ++ rest) = if trimEnd rest = [] then trimEnd text else text ++ trimEnd rest := by
  unfold trimEnd
  split_ifs with hblank
  · rw [rdropWhile_eq_nil_iff] at hblank
    induction rest using List.reverseRecOn with
    | nil => rw [append_nil]
    | append_singleton rest char ih =>
      rw [← append_assoc, rdropWhile_concat_pos _ _ _ (hblank char (by simp))]
      exact ih fun char hchar => hblank char (by simp [hchar])
  · induction rest using List.reverseRecOn with
    | nil => exact absurd rfl hblank
    | append_singleton rest char ih =>
      by_cases hchar : isWhiteSpace char = true
      · rw [rdropWhile_concat_pos _ _ _ hchar] at hblank ⊢
        rw [← append_assoc, rdropWhile_concat_pos _ _ _ hchar]
        exact ih hblank
      · rw [← append_assoc, rdropWhile_concat_neg _ _ _ hchar,
          rdropWhile_concat_neg _ _ _ hchar, append_assoc]

theorem trimEnd_starts (text : ScreenText) : trimEnd text <+: text := List.rdropWhile_prefix _ _

theorem trimEnd_eq_self_iff : trimEnd text = text ↔
    ∀ char ∈ text.getLast?, isWhiteSpace char = false := by
  induction text using List.reverseRecOn with
  | nil => simp [trimEnd]
  | append_singleton text char ih =>
    rw [trimEnd, getLast?_concat]
    by_cases hchar : isWhiteSpace char = true
    · rw [rdropWhile_concat_pos _ _ _ hchar]
      have hlt : (text.rdropWhile isWhiteSpace).length ≤ text.length :=
        (List.rdropWhile_prefix _ _).length_le
      constructor
      · intro heq
        have := congrArg List.length heq
        rw [length_append, length_singleton] at this
        omega
      · intro hlast
        rw [hlast char rfl] at hchar
        contradiction
    · rw [rdropWhile_concat_neg _ _ _ hchar]
      simpa using hchar

/-! ## One line -/

/-- What is copied of the pieces of a line. -/
def joinPieces (c n : ℕ) (line : ScreenText) : ScreenText := (cut c n line).flatMap trimEnd

theorem joinPieces_succ (c n : ℕ) (line : ScreenText) :
    joinPieces c (n + 1) line = trimEnd (line.take c) ++ joinPieces c n (line.drop c) := by
  rw [joinPieces, cut, flatMap_cons, joinPieces]

theorem length_joinPieces_le (c n : ℕ) (line : ScreenText) :
    (joinPieces c n line).length ≤ (trimEnd line).length := by
  induction n generalizing line with
  | zero => exact Nat.zero_le _
  | succ n ih =>
    have htake : (trimEnd (line.take c)).length ≤ (line.take c).length := (trimEnd_starts _).length_le
    have hdrop := ih (line.drop c)
    have hsplit := trimEnd_append (line.take c) (line.drop c)
    rw [take_append_drop] at hsplit
    rw [joinPieces_succ, length_append, hsplit]
    split_ifs with hblank
    · rw [hblank, length_nil] at hdrop
      omega
    · rw [length_append]
      omega

theorem notCutAtBlank_iff (hc : 0 < c) (text : ScreenText) : NotCutAtBlank c text ↔
    (trimEnd (text.drop c) ≠ [] → trimEnd (text.take c) = text.take c) ∧
      NotCutAtBlank c (text.drop c) := by
  have hsplit := trimEnd_append (text.take c) (text.drop c)
  rw [take_append_drop] at hsplit
  by_cases hblank : trimEnd (text.drop c) = []
  · -- nothing is left behind the first piece
    rw [if_pos hblank] at hsplit
    have hle : (trimEnd text).length ≤ c := by
      rw [hsplit]
      exact (trimEnd_starts _).length_le.trans (length_take_le c text)
    constructor
    · intro _
      refine ⟨fun hne => absurd hblank hne, fun i hi => ?_⟩
      rw [hblank, length_nil] at hi
      omega
    · intro _ i hi
      have hmul : c ≤ (i + 1) * c := Nat.le_mul_of_pos_left c (Nat.succ_pos i)
      omega
  · rw [if_neg hblank] at hsplit
    have hdrop : 0 < (text.drop c).length := by
      apply length_pos_of_ne_nil
      intro hnil
      exact hblank (by rw [hnil]; rfl)
    rw [length_drop] at hdrop
    have htake : (text.take c).length = c := by
      rw [length_take]
      omega
    have hlength : (trimEnd text).length = c + (trimEnd (text.drop c)).length := by
      rw [hsplit, length_append, htake]
    have hpos : 0 < (trimEnd (text.drop c)).length := length_pos_of_ne_nil hblank
    have hlast : (text.take c).getLast? = text[c - 1]? := by
      rw [getLast?_eq_getElem?, htake, getElem?_take, if_pos (by omega)]
    have hshift : ∀ i, text[(i + 1 + 1) * c - 1]? = (text.drop c)[(i + 1) * c - 1]? := by
      intro i
      have hmul : 0 < (i + 1) * c := Nat.mul_pos (Nat.succ_pos i) hc
      have hindex : (i + 1 + 1) * c - 1 = c + ((i + 1) * c - 1) := by
        rw [Nat.add_mul (i + 1) 1 c]
        omega
      rw [getElem?_drop, hindex]
    constructor
    · intro h
      refine ⟨fun _ => trimEnd_eq_self_iff.mpr ?_, fun i hi => ?_⟩
      · rw [hlast]
        have hfirst := h 0 (by omega)
        rw [Nat.zero_add, Nat.one_mul] at hfirst
        exact hfirst
      · rw [← hshift]
        apply h (i + 1)
        rw [hlength, Nat.add_mul (i + 1) 1 c]
        omega
    · rintro ⟨hfirst, hrest⟩ i hi
      cases i with
      | zero =>
        rw [Nat.zero_add, Nat.one_mul, ← hlast]
        exact trimEnd_eq_self_iff.mp (hfirst hblank)
      | succ i =>
        rw [hshift]
        apply hrest i
        rw [hlength, Nat.add_mul (i + 1) 1 c] at hi
        omega

theorem joinPieces_eq_iff (hc : 0 < c) (n : ℕ) (line : ScreenText) (hlength : line.length ≤ n * c) :
    joinPieces c n line = trimEnd line ↔ NotCutAtBlank c line := by
  induction n generalizing line with
  | zero =>
    have hnil : line = [] := length_eq_zero_iff.mp (by omega)
    subst hnil
    have hvacuous : NotCutAtBlank c [] := fun i hi => absurd hi (by simp [trimEnd])
    exact ⟨fun _ => hvacuous, fun _ => rfl⟩
  | succ n ih =>
    have hdrop : (line.drop c).length ≤ n * c := by
      rw [length_drop]
      rw [Nat.succ_mul] at hlength
      omega
    have htake : trimEnd (line.take c) <+: line.take c := trimEnd_starts _
    have hle := length_joinPieces_le c n (line.drop c)
    have hsplit := trimEnd_append (line.take c) (line.drop c)
    rw [take_append_drop] at hsplit
    rw [notCutAtBlank_iff hc, ← ih _ hdrop, joinPieces_succ, hsplit]
    split_ifs with hblank
    · rw [hblank, length_nil, Nat.le_zero, length_eq_zero_iff] at hle
      rw [hle, hblank, append_nil]
      simp
    · constructor
      · intro heq
        have hlengths := congrArg List.length heq
        rw [length_append, length_append] at hlengths
        have hsame : trimEnd (line.take c) = line.take c :=
          htake.eq_of_length (by have := htake.length_le; omega)
        rw [hsame] at heq
        exact ⟨fun _ => hsame, append_cancel_left heq⟩
      · rintro ⟨hsame, hrest⟩
        rw [hsame hblank, hrest]

/-! ## All lines -/

/-- The text of a whole row. -/
def plainText (row : BufferRow) : ScreenText :=
  trimEnd (row.cells.flatMap fun char => if char = [] then [' '] else char)

theorem rowText_selectAll (hc : 0 < c) (terminal : HeadlessTerminal) (number : ℤ) {row : BufferRow}
    (hcells : row.cells.length = c) : rowText (selectAll c terminal) number row = plainText row := by
  have hstart : (if number = (selectAll c terminal).start.row then (selectAll c terminal).start.col
      else 0) = 0 := by
    split_ifs <;> rfl
  have hend : (if number = (selectAll c terminal).finish.row then (selectAll c terminal).finish.col
      else (row.cells.length : ℤ) - 1) = c - 1 := by
    rw [hcells]
    split_ifs <;> rfl
  have hcount : (max 0 ((c : ℤ) - 1)).toNat + 1 = row.cells.length := by omega
  simp only [rowText, hstart, hend, selectedLine, hcount, take_length, max_self, Int.toNat_zero,
    drop_zero, plainText]

theorem plainText_layoutRow (isWrapped : Bool) (piece : ScreenText) :
    plainText (layoutRow c isWrapped piece) = trimEnd piece := by
  have hchars : ∀ text : ScreenText, (text.map fun char => [char]).flatMap
      (fun char => if char = [] then [' '] else char) = text := by
    intro text
    induction text with
    | nil => rfl
    | cons char text ih => rw [map_cons, flatMap_cons, ih]; rfl
  have hblanks : ∀ n, (List.replicate n [' ']).flatMap
      (fun char => if char = [] then [' '] else char) = List.replicate n ' ' := by
    intro n
    induction n with
    | zero => rfl
    | succ n ih => rw [replicate_succ, flatMap_cons, ih]; rfl
  have hblank : ∀ n, trimEnd (List.replicate n ' ') = [] := by
    intro n
    rw [trimEnd, rdropWhile_eq_nil_iff]
    intro char hchar
    rw [eq_of_mem_replicate hchar]
    rfl
  rw [plainText, layoutRow, flatMap_append, hchars, hblanks, trimEnd_append, if_pos (hblank _)]

theorem length_layoutRow (isWrapped : Bool) {piece : ScreenText} (hle : piece.length ≤ c) :
    (layoutRow c isWrapped piece).cells.length = c := by
  rw [layoutRow, length_append, length_map, length_replicate]
  omega

theorem length_of_mem_cut {n : ℕ} {piece : ScreenText} (hmem : piece ∈ cut c n text) : piece.length ≤ c := by
  induction n generalizing text with
  | zero => contradiction
  | succ n ih =>
    rcases mem_cons.mp hmem with rfl | hrest
    · exact length_take_le c text
    · exact ih hrest

/-- What is copied of a line. -/
def copyLine (c : ℕ) (line : ScreenText) : ScreenText := joinPieces c (rowCount c line) line

section SelectAll

variable (hc : 0 < c) (terminal : HeadlessTerminal) (start : ℤ)

include hc

theorem textFrom_wrapped {offset : ℕ} (hoffset : 0 < offset) (pieces : List ScreenText)
    (hpieces : ∀ piece ∈ pieces, piece.length ≤ c) (rows : List BufferRow) :
    textFrom (selectAll c terminal) start offset (pieces.map (layoutRow c true) ++ rows) =
      pieces.flatMap trimEnd ++
        textFrom (selectAll c terminal) start (offset + pieces.length) rows := by
  induction pieces generalizing offset with
  | nil => rfl
  | cons piece pieces ih =>
    have hrow := rowText_selectAll hc terminal (start + offset)
      (length_layoutRow true (hpieces piece mem_cons_self))
    have hrest := ih (Nat.succ_pos offset) fun piece hmem => hpieces piece (mem_cons_of_mem _ hmem)
    have hfeed : (if 0 < offset ∧ (layoutRow c true piece).isWrapped = false then ['\n'] else []) =
        [] := by
      simp [layoutRow]
    have hnext : offset + (piece :: pieces).length = offset + 1 + pieces.length := by
      rw [length_cons]
      omega
    rw [map_cons, cons_append, textFrom, hrow, plainText_layoutRow, hrest, hfeed, hnext,
      flatMap_cons, nil_append, append_assoc]

theorem textFrom_layoutLine (offset : ℕ) (line : ScreenText) (rows : List BufferRow) :
    ∃ next, 0 < next ∧ textFrom (selectAll c terminal) start offset (layoutLine c line ++ rows) =
      (if 0 < offset then ['\n'] else []) ++ copyLine c line ++
        textFrom (selectAll c terminal) start next rows := by
  have hpieces : ∀ piece ∈ cut c (rowCount c line) line, piece.length ≤ c :=
    fun piece => length_of_mem_cut
  rw [copyLine, joinPieces, layoutLine]
  rw [rowCount, cut] at hpieces ⊢
  have hrow := rowText_selectAll hc terminal (start + offset)
    (length_layoutRow false (hpieces _ mem_cons_self))
  refine ⟨offset + 1 + (cut c ((line.length - 1) / c) (line.drop c)).length, by omega, ?_⟩
  rw [cons_append, textFrom, hrow, plainText_layoutRow,
    textFrom_wrapped hc terminal start (Nat.succ_pos offset) _ fun piece hmem =>
      hpieces piece (mem_cons_of_mem _ hmem), flatMap_cons]
  have hfeed : (if 0 < offset ∧ (layoutRow c false (line.take c)).isWrapped = false then ['\n'] else []) =
      if 0 < offset then ['\n'] else [] := by
    simp [layoutRow]
  rw [hfeed]
  simp only [append_assoc]

theorem textFrom_lines {offset : ℕ} (hoffset : 0 < offset) (lines : List ScreenText) :
    textFrom (selectAll c terminal) start offset (lines.flatMap (layoutLine c)) =
      lines.flatMap fun line => '\n' :: copyLine c line := by
  induction lines generalizing offset with
  | nil => rfl
  | cons line lines ih =>
    obtain ⟨next, hnext, hline⟩ :=
      textFrom_layoutLine hc terminal start offset line (lines.flatMap (layoutLine c))
    rw [flatMap_cons, hline, ih hnext, if_pos hoffset, flatMap_cons]
    rfl

end SelectAll

theorem getBufferWindow_all (terminal : HeadlessTerminal) :
    terminal.getBufferWindow terminal.oldestRow (terminal.newestRow - terminal.oldestRow + 1) =
      (terminal.oldestRow, terminal.lines) := by
  have hstart : min (max terminal.oldestRow terminal.oldestRow)
      (terminal.oldestRow + terminal.lines.length - 1 + 1) = terminal.oldestRow := by omega
  have hstop : (min (terminal.oldestRow + terminal.lines.length - 1 + 1) (terminal.oldestRow +
      max 0 (terminal.newestRow - terminal.oldestRow + 1)) - terminal.oldestRow).toNat =
      terminal.lines.length := by
    unfold HeadlessTerminal.newestRow
    omega
  simp only [HeadlessTerminal.getBufferWindow, hstart, hstop, take_length, sub_self,
    Int.toNat_zero, drop_zero]

theorem extract_selectAll (terminal : HeadlessTerminal) :
    extractTerminalSelectedText terminal (some (selectAll c terminal)) =
      textFrom (selectAll c terminal) terminal.oldestRow 0 terminal.lines := by
  have hsafe : rangeIsSafe (selectAll c terminal) terminal = true := by
    simp [rangeIsSafe, selectAll]
  have hwindow : terminal.getBufferWindow (selectAll c terminal).start.row
      ((selectAll c terminal).finish.row - (selectAll c terminal).start.row + 1) =
      (terminal.oldestRow, terminal.lines) := getBufferWindow_all terminal
  simp only [extractTerminalSelectedText, if_pos hsafe, hwindow]

/-- What is copied of a whole window. -/
def copiedText (c : ℕ) (lines : List ScreenText) : ScreenText :=
  extractTerminalSelectedText (layout c lines) (some (selectAll c (layout c lines)))

theorem joinLines_cons (line : ScreenText) (lines : List ScreenText) :
    joinLines (line :: lines) = trimEnd line ++ lines.flatMap fun line => '\n' :: trimEnd line := by
  induction lines generalizing line with
  | nil => simp [joinLines, List.intercalate]
  | cons next lines ih =>
    have hnext := ih next
    rw [joinLines] at hnext ⊢
    rw [flatMap_cons, map_cons, map_cons, intercalate_cons_cons, ← map_cons,
      hnext]
    simp

theorem copiedText_cons (hc : 0 < c) (line : ScreenText) (lines : List ScreenText) :
    copiedText c (line :: lines) =
      copyLine c line ++ lines.flatMap fun line => '\n' :: copyLine c line := by
  obtain ⟨next, hnext, hline⟩ := textFrom_layoutLine hc (layout c (line :: lines)) 0 0 line
    (lines.flatMap (layoutLine c))
  have hlines := textFrom_lines hc (layout c (line :: lines)) 0 hnext lines
  rw [copiedText, extract_selectAll]
  change textFrom (selectAll c (layout c (line :: lines))) 0 0
    ((line :: lines).flatMap (layoutLine c)) = _
  rw [flatMap_cons, hline, hlines, if_neg (lt_irrefl 0), nil_append]

theorem length_copyLine_le (c : ℕ) (line : ScreenText) : (copyLine c line).length ≤ (trimEnd line).length :=
  length_joinPieces_le c (rowCount c line) line

theorem copyLine_eq_iff (hc : 0 < c) (line : ScreenText) :
    copyLine c line = trimEnd line ↔ NotCutAtBlank c line := by
  apply joinPieces_eq_iff hc
  have hdiv := Nat.lt_div_mul_add (a := line.length - 1) hc
  rw [rowCount, Nat.succ_mul]
  omega

/-- Texts that are no longer than others, one by one, are equal together only if each is. -/
theorem flatMap_eq_iff {α β : Type*} {f g : α → List β} (hle : ∀ a, (f a).length ≤ (g a).length)
    (l : List α) : l.flatMap f = l.flatMap g ↔ ∀ a ∈ l, f a = g a := by
  induction l with
  | nil => simp
  | cons a l ih =>
    have htail : (l.flatMap f).length ≤ (l.flatMap g).length := by
      rw [length_flatMap, length_flatMap]
      exact sum_le_sum fun a _ => hle a
    rw [flatMap_cons, flatMap_cons, forall_mem_cons, ← ih]
    constructor
    · intro heq
      have hlengths := congrArg List.length heq
      rw [length_append, length_append] at hlengths
      have hhead := hle a
      exact append_inj heq (by omega)
    · rintro ⟨hhead, hrest⟩
      rw [hhead, hrest]

theorem copiedText_eq_iff (hc : 0 < c) (lines : List ScreenText) :
    copiedText c lines = joinLines lines ↔ ∀ line ∈ lines, NotCutAtBlank c line := by
  cases lines with
  | nil =>
    have hnil : copiedText c [] = joinLines [] := by
      rw [copiedText, extract_selectAll]
      rfl
    simp [hnil]
  | cons line lines =>
    have hcons : ∀ line, ('\n' :: copyLine c line).length ≤ ('\n' :: trimEnd line).length :=
      fun line => Nat.succ_le_succ (length_copyLine_le c line)
    have hfeeds : lines.flatMap (fun line => '\n' :: copyLine c line) =
        lines.flatMap (fun line => '\n' :: trimEnd line) ↔ ∀ line ∈ lines, copyLine c line = trimEnd line := by
      rw [flatMap_eq_iff hcons]
      simp
    have hle := length_copyLine_le c line
    have htail : (lines.flatMap fun line => '\n' :: copyLine c line).length ≤
        (lines.flatMap fun line => '\n' :: trimEnd line).length := by
      rw [length_flatMap, length_flatMap]
      exact sum_le_sum fun line _ => hcons line
    rw [copiedText_cons hc, joinLines_cons, forall_mem_cons, ← copyLine_eq_iff hc line]
    have hcopied : (∀ line ∈ lines, NotCutAtBlank c line) ↔ ∀ line ∈ lines, copyLine c line = trimEnd line :=
      forall₂_congr fun line _ => (copyLine_eq_iff hc line).symm
    rw [hcopied, ← hfeeds]
    constructor
    · intro heq
      have hlengths := congrArg List.length heq
      rw [length_append, length_append] at hlengths
      exact append_inj heq (by omega)
    · rintro ⟨hhead, hrest⟩
      rw [hhead, hrest]

/-! ## Line feeds -/

/-- The rows of a selection that is still valid. -/
def selectedRows (terminal : HeadlessTerminal) (selection : SelectionRange) : List BufferRow :=
  if rangeIsSafe selection terminal then
    (terminal.lines.drop (selection.start.row - terminal.oldestRow).toNat).take
      (selection.finish.row - selection.start.row + 1).toNat
  else []

theorem getBufferWindow_of_safe (hsafe : rangeIsSafe selection terminal) :
    (terminal.getBufferWindow selection.start.row
      (selection.finish.row - selection.start.row + 1)).2 = selectedRows terminal selection := by
  rw [selectedRows, if_pos hsafe]
  simp only [rangeIsSafe, Bool.and_eq_true, decide_eq_true_eq] at hsafe
  obtain ⟨⟨-, hstart⟩, hfinish⟩ := hsafe
  simp only [HeadlessTerminal.getBufferWindow, drop_take]
  by_cases hin : selection.start.row - terminal.oldestRow ≤ terminal.lines.length
  · have hdrop : (min (max terminal.oldestRow selection.start.row)
        (terminal.oldestRow + terminal.lines.length - 1 + 1) - terminal.oldestRow).toNat =
        (selection.start.row - terminal.oldestRow).toNat := by omega
    rw [hdrop, take_eq_take_iff, length_drop]
    omega
  · rw [drop_eq_nil_of_le (by omega), drop_eq_nil_of_le (by omega), take_nil,
      take_nil]

theorem count_rowText {number : ℤ} {row : BufferRow} (hrow : ∀ char ∈ row.cells, '\n' ∉ char) :
    (rowText selection number row).count '\n' = 0 := by
  rw [count_eq_zero]
  intro hmem
  have hin := (trimEnd_starts _).subset hmem
  obtain ⟨char, hchar, hfeed⟩ := mem_flatMap.mp hin
  split_ifs at hfeed with hnil
  · simp at hfeed
  · exact hrow char (mem_of_mem_take (mem_of_mem_drop hchar)) hfeed

theorem count_textFrom (selection : SelectionRange) (start : ℤ) {offset : ℕ} (hoffset : 0 < offset)
    {rows : List BufferRow} (hrows : ∀ row ∈ rows, ∀ char ∈ row.cells, '\n' ∉ char) :
    (textFrom selection start offset rows).count '\n' = rows.countP (!·.isWrapped) := by
  induction rows generalizing offset with
  | nil => rfl
  | cons row rows ih =>
    have hrest := ih (Nat.succ_pos offset) fun row hmem => hrows row (mem_cons_of_mem _ hmem)
    rw [textFrom, count_append, count_append, count_rowText (hrows row mem_cons_self),
      hrest, countP_cons]
    cases hwrapped : row.isWrapped <;> simp [hoffset]
    omega

/-- One line feed for each selected row behind the first that continues no other. -/
theorem count_extract (hlines : ∀ row ∈ terminal.lines, ∀ char ∈ row.cells, '\n' ∉ char)
    (selection : SelectionRange) :
    (extractTerminalSelectedText terminal (some selection)).count '\n' =
      (selectedRows terminal selection).tail.countP (!·.isWrapped) := by
  by_cases hsafe : rangeIsSafe selection terminal = true
  · have hwindow := getBufferWindow_of_safe hsafe
    have hrows : ∀ row ∈ selectedRows terminal selection, ∀ char ∈ row.cells, '\n' ∉ char := by
      intro row hrow
      rw [selectedRows, if_pos hsafe] at hrow
      exact hlines row (mem_of_mem_drop (mem_of_mem_take hrow))
    simp only [extractTerminalSelectedText, if_pos hsafe, hwindow]
    cases hcase : selectedRows terminal selection with
    | nil => rfl
    | cons row rows =>
      rw [hcase] at hrows
      rw [textFrom, count_append, count_append,
        count_rowText (hrows row mem_cons_self), count_textFrom selection _ (Nat.succ_pos 0)
          fun row hmem => hrows row (mem_cons_of_mem _ hmem)]
      simp
  · simp only [extractTerminalSelectedText, if_neg hsafe, selectedRows]
    rfl

theorem layout_no_feed {lines : List ScreenText} (hlines : ∀ line ∈ lines, '\n' ∉ line) :
    ∀ row ∈ (layout c lines).lines, ∀ char ∈ row.cells, '\n' ∉ char := by
  have hcut : ∀ n (text : ScreenText), ∀ piece ∈ cut c n text, ∀ char ∈ piece, char ∈ text := by
    intro n
    induction n with
    | zero => nofun
    | succ n ih =>
      intro text piece hpiece char hchar
      rcases mem_cons.mp hpiece with rfl | hrest
      · exact mem_of_mem_take hchar
      · exact mem_of_mem_drop (ih (text.drop c) piece hrest char hchar)
  have hrow : ∀ isWrapped (piece : ScreenText), '\n' ∉ piece →
      ∀ char ∈ (layoutRow c isWrapped piece).cells, '\n' ∉ char := by
    intro isWrapped piece hpiece char hchar hfeed
    rcases mem_append.mp hchar with hchar | hchar
    · obtain ⟨single, hsingle, rfl⟩ := List.mem_map.mp hchar
      rw [mem_singleton.mp hfeed] at hpiece
      exact hpiece hsingle
    · rw [eq_of_mem_replicate hchar] at hfeed
      simp at hfeed
  intro row hmem
  obtain ⟨line, hline, hmem⟩ := mem_flatMap.mp hmem
  have hpieces : ∀ piece ∈ cut c (rowCount c line) line, '\n' ∉ piece := by
    intro piece hpiece hfeed
    exact hlines line hline (hcut _ line piece hpiece '\n' hfeed)
  unfold layoutLine at hmem
  split at hmem
  · contradiction
  · rename_i piece pieces hcase
    rw [hcase] at hpieces
    rcases mem_cons.mp hmem with rfl | hmem
    · exact hrow false piece (hpieces piece mem_cons_self)
    · obtain ⟨other, hother, rfl⟩ := List.mem_map.mp hmem
      exact hrow true other (hpieces other (mem_cons_of_mem _ hother))

/-! ## Widths -/

/-- What is copied of the whole window is the same in two widths, and right; and line feeds are right
for every selection. -/
structure CopiesLines (c₁ c₂ : ℕ) (lines : List ScreenText) : Prop where
  same : copiedText c₁ lines = copiedText c₂ lines
  whole : copiedText c₁ lines = joinLines lines
  feeds : ∀ c ∈ [c₁, c₂], ∀ selection,
    (extractTerminalSelectedText (layout c lines) (some selection)).count '\n' =
      (selectedRows (layout c lines) selection).tail.countP (!·.isWrapped)

theorem copiesLines_iff {c₁ c₂ : ℕ} (hc₁ : 0 < c₁) (hc₂ : 0 < c₂) {lines : List ScreenText}
    (hlines : ∀ line ∈ lines, '\n' ∉ line) :
    CopiesLines c₁ c₂ lines ↔ ∀ line ∈ lines, NotCutAtBlank c₁ line ∧ NotCutAtBlank c₂ line := by
  have hfeeds : ∀ c ∈ [c₁, c₂], ∀ selection,
      (extractTerminalSelectedText (layout c lines) (some selection)).count '\n' =
        (selectedRows (layout c lines) selection).tail.countP (!·.isWrapped) :=
    fun c _ selection => count_extract (layout_no_feed hlines) selection
  have hfirst := copiedText_eq_iff hc₁ lines
  have hsecond := copiedText_eq_iff hc₂ lines
  constructor
  · intro h line hline
    exact ⟨hfirst.mp h.whole line hline, hsecond.mp (h.same.symm.trans h.whole) line hline⟩
  · intro h
    have hlines₁ := hfirst.mpr fun line hline => (h line hline).1
    have hlines₂ := hsecond.mpr fun line hline => (h line hline).2
    exact ⟨hlines₁.trans hlines₂.symm, hlines₁, hfeeds⟩

/-- A line of which no row ends in a blank. -/
theorem copiesLines_words : CopiesLines 2 7 ["ab cd".toList] ↔
    ∀ line ∈ ["ab cd".toList], NotCutAtBlank 2 line ∧ NotCutAtBlank 7 line :=
  copiesLines_iff (by decide) (by decide) (by decide)

/-- Blanks at the right edge of a row that is continued are lost. -/
theorem copiedText_loses_blanks : ¬ CopiesLines 4 6 ["ab  cd".toList] := by
  intro h
  have hcopied : copiedText 4 ["ab  cd".toList] ≠ copiedText 6 ["ab  cd".toList] := by decide +kernel
  exact hcopied h.same

end Orqara.Terminal
