import Orqara.Patches.ParseDiff

/-!
# Patches that are read back

A section is read back unless a line of a hunk looks like metadata, or a text like something that the
reader searches the whole section for.
-/

namespace Orqara.Patches

open PatchHunk JsonParse SectionBody PatchLineKind Option

/-! ## Marks -/

/-- A mark stands at the start of a line. -/
def MarkedInside : Bool → List Char → Bool
  | _, [] => false
  | atStart, c :: cs =>
    atStart && sectionMark.isPrefixOf (c :: cs) || MarkedInside (isLineTerminator c) cs

variable {text more : List Char} {others : List (List Char)} {c : Char}

theorem consFirst_ne_nil (c : Char) (pieces : List (List Char)) : consFirst c pieces ≠ [] := by
  cases pieces with
  | nil => exact List.cons_ne_nil _ _
  | cons piece pieces => exact List.cons_ne_nil _ _

theorem splitAtMarks_ne_nil (atStart : Bool) (skip : ℕ) (text : List Char) :
    splitAtMarks atStart skip text ≠ [] := by
  induction text generalizing atStart skip with
  | nil => exact List.cons_ne_nil _ _
  | cons c cs ih =>
    cases skip with
    | succ skip => exact ih false skip
    | zero =>
      rw [splitAtMarks]
      split_ifs
      · exact List.cons_ne_nil _ _
      · exact consFirst_ne_nil _ _

/-- A mark does not go on after a line. -/
theorem isPrefixOf_mark_append (h : '\n' ∈ text) (more : List Char) :
    sectionMark.isPrefixOf (text ++ more) = sectionMark.isPrefixOf text := by
  rw [Bool.eq_iff_iff, List.isPrefixOf_iff_prefix, List.isPrefixOf_iff_prefix]
  refine ⟨fun hstart => ?_, fun hstart => hstart.trans (List.prefix_append _ _)⟩
  rcases List.prefix_or_prefix_of_prefix hstart (List.prefix_append text more) with hmark | htext
  · exact hmark
  · exact absurd (htext.subset h) (by decide)

theorem length_mark_lt {cs : List Char} (h : '\n' ∈ c :: cs) (hmark : sectionMark.isPrefixOf (c :: cs)) :
    sectionMark.length - 1 < cs.length := by
  have hstart := List.isPrefixOf_iff_prefix.mp hmark
  have hne : sectionMark ≠ c :: cs := by
    intro heq
    rw [← heq] at h
    exact absurd h (by decide)
  have hle := hstart.length_le
  have hlt := lt_of_le_of_ne hle fun hlength => hne (hstart.eq_of_length hlength)
  have hpos : 0 < sectionMark.length := by decide
  rw [List.length_cons] at hlt
  omega

theorem getLast?_rest {cs : List Char} (h : (c :: cs).getLast? = some '\n') (hlength : 0 < cs.length) :
    cs.getLast? = some '\n' := by
  obtain ⟨d, ds, rfl⟩ := List.exists_cons_of_length_pos hlength
  rwa [List.getLast?_cons_cons] at h

theorem splitAtMarks_append (h : text.getLast? = some '\n')
    (hmore : splitAtMarks true 0 more = [] :: others) (atStart : Bool) {skip : ℕ}
    (hskip : skip < text.length) :
    splitAtMarks atStart skip (text ++ more) = splitAtMarks atStart skip text ++ others := by
  induction text generalizing atStart skip with
  | nil => contradiction
  | cons c cs ih =>
    have hmem : '\n' ∈ c :: cs := List.mem_of_getLast? h
    cases skip with
    | succ skip =>
      have hlt : skip < cs.length := by simpa using hskip
      exact ih (getLast?_rest h (by omega)) false hlt
    | zero =>
      rw [List.cons_append, splitAtMarks, splitAtMarks, ← List.cons_append, isPrefixOf_mark_append hmem]
      by_cases hcut : (atStart && sectionMark.isPrefixOf (c :: cs)) = true
      · have hlt := length_mark_lt hmem (Bool.and_eq_true_iff.mp hcut).2
        rw [if_pos hcut, if_pos hcut, ih (getLast?_rest h (by omega)) false hlt]
        rfl
      · rw [if_neg hcut, if_neg hcut]
        cases cs with
        | nil =>
          have hc : c = '\n' := some.inj h
          rw [hc]
          show consFirst '\n' (splitAtMarks true 0 more) = _
          rw [hmore]
          rfl
        | cons d ds =>
          rw [ih (getLast?_rest h (Nat.succ_pos _)) _ (Nat.succ_pos _)]
          have hne := splitAtMarks_ne_nil (isLineTerminator c) 0 (d :: ds)
          cases hpieces : splitAtMarks (isLineTerminator c) 0 (d :: ds) with
          | nil => contradiction
          | cons piece pieces => rfl

theorem forall_ne_nil {pieces : List (List Char)} (hfirst : pieces.head? ≠ some [])
    (htail : ∀ piece ∈ pieces.tail, piece ≠ []) : ∀ piece ∈ pieces, piece ≠ [] := by
  cases pieces with
  | nil => exact nofun
  | cons first others =>
    intro piece hpiece
    rcases List.mem_cons.mp hpiece with rfl | hother
    · exact fun heq => hfirst (congrArg some heq)
    · exact htail piece hother

/-- Only the first piece of a text of lines may be empty, where it starts with a mark. -/
theorem splitAtMarks_pieces (h : text.getLast? = some '\n') (atStart : Bool) {skip : ℕ}
    (hskip : skip < text.length) :
    (atStart = false ∨ 0 < skip → (splitAtMarks atStart skip text).head? ≠ some []) ∧
    ∀ piece ∈ (splitAtMarks atStart skip text).tail, piece ≠ [] := by
  induction text generalizing atStart skip with
  | nil => contradiction
  | cons c cs ih =>
    have hmem : '\n' ∈ c :: cs := List.mem_of_getLast? h
    cases skip with
    | succ skip =>
      have hlt : skip < cs.length := by simpa using hskip
      obtain ⟨hfirst, htail⟩ := ih (getLast?_rest h (by omega)) false hlt
      exact ⟨fun _ => hfirst (.inl rfl), htail⟩
    | zero =>
      rw [splitAtMarks]
      by_cases hcut : (atStart && sectionMark.isPrefixOf (c :: cs)) = true
      · have hlt := length_mark_lt hmem (Bool.and_eq_true_iff.mp hcut).2
        obtain ⟨hfirst, htail⟩ := ih (getLast?_rest h (by omega)) false hlt
        rw [if_pos hcut]
        refine ⟨fun hstart => ?_, forall_ne_nil (hfirst (.inl rfl)) htail⟩
        rcases hstart with hstart | hskip
        · rw [hstart] at hcut
          contradiction
        · omega
      · rw [if_neg hcut]
        cases cs with
        | nil => simp [splitAtMarks, consFirst]
        | cons d ds =>
          obtain ⟨-, htail⟩ := ih (getLast?_rest h (Nat.succ_pos _)) (isLineTerminator c) (Nat.succ_pos _)
          cases hpieces : splitAtMarks (isLineTerminator c) 0 (d :: ds) with
          | nil => simp [consFirst]
          | cons piece pieces =>
            rw [hpieces] at htail
            exact ⟨fun _ => by simp [consFirst], htail⟩

theorem splitAtMarks_of_unmarked {atStart : Bool} (h : MarkedInside atStart text = false) :
    splitAtMarks atStart 0 text = [text] := by
  induction text generalizing atStart with
  | nil => rfl
  | cons c cs ih =>
    rw [MarkedInside, Bool.or_eq_false_iff] at h
    rw [splitAtMarks, ih h.2, h.1]
    rfl

theorem length_splitAtMarks_of_marked {atStart : Bool} (h : MarkedInside atStart text = true) :
    1 < (splitAtMarks atStart 0 text).length := by
  induction text generalizing atStart with
  | nil => contradiction
  | cons c cs ih =>
    rw [MarkedInside, Bool.or_eq_true] at h
    rw [splitAtMarks]
    by_cases hcut : (atStart && sectionMark.isPrefixOf (c :: cs)) = true
    · have hpos := List.length_pos_of_ne_nil (splitAtMarks_ne_nil false (sectionMark.length - 1) cs)
      rw [if_pos hcut, List.length_cons]
      omega
    · have hih := ih (h.resolve_left hcut)
      rw [if_neg hcut]
      cases hpieces : splitAtMarks (isLineTerminator c) 0 cs with
      | nil => exact absurd hpieces (splitAtMarks_ne_nil _ _ _)
      | cons piece pieces =>
        rw [hpieces] at hih
        exact hih

/-! ## Files -/

namespace PatchFile

variable {file : PatchFile} {files : List PatchFile}

theorem getLast?_renderSection (file : PatchFile) : file.renderSection.getLast? = some '\n' := by
  have hne : file.renderLines ≠ [] := List.cons_ne_nil _ _
  obtain ⟨lines, last, hlines⟩ := (List.eq_nil_or_concat file.renderLines).resolve_left hne
  rw [renderSection, hlines, List.concat_eq_append, List.flatMap_append]
  simp

theorem length_renderSection_pos (file : PatchFile) : 0 < file.renderSection.length := by
  apply List.length_pos_of_ne_nil
  intro hnil
  have hlast := file.getLast?_renderSection
  rw [hnil] at hlast
  contradiction

theorem splitAtMarks_render (files : List PatchFile) :
    splitAtMarks true 0 (files.flatMap render) =
      [] :: files.flatMap fun file => splitAtMarks false 0 file.renderSection := by
  induction files with
  | nil => rfl
  | cons file files ih =>
    rw [List.flatMap_cons, List.flatMap_cons,
      ← splitAtMarks_append file.getLast?_renderSection ih false file.length_renderSection_pos, render,
      List.append_assoc]
    rfl

/-- Each file is read from the pieces of its own section. -/
theorem parseDiff_render (files : List PatchFile) :
    parseDiff (files.flatMap render) =
      files.flatMap fun file => (splitAtMarks false 0 file.renderSection).map parseSection := by
  have hpieces : ∀ piece ∈ files.flatMap fun file => splitAtMarks false 0 file.renderSection, piece ≠ [] := by
    intro piece hmem
    obtain ⟨file, -, hpiece⟩ := List.mem_flatMap.mp hmem
    obtain ⟨hfirst, htail⟩ := splitAtMarks_pieces file.getLast?_renderSection false file.length_renderSection_pos
    exact forall_ne_nil (hfirst (.inl rfl)) htail piece hpiece
  cases files with
  | nil => rfl
  | cons file files =>
    have htrim : trimChars ((file :: files).flatMap render) ≠ [] := by
      intro hnil
      have hd : 'd' :: ((file :: files).flatMap render).tail = (file :: files).flatMap render := rfl
      rw [← hd, trimChars, List.dropWhile_cons_of_neg (by decide), List.rdropWhile_eq_nil_iff] at hnil
      exact absurd (hnil 'd' List.mem_cons_self) (by decide)
    rw [parseDiff, if_neg htrim, splitAtMarks_render, List.filter_cons_of_neg (by simp),
      List.filter_eq_self.mpr (by simpa using hpieces), List.map_flatMap]

/-- Files of which each is read as something are read back when each is read as itself alone. -/
theorem flatMap_eq_map_iff {α β : Type} {g : α → List β} {f : α → β} {xs : List α} (hne : ∀ x, g x ≠ []) :
    xs.flatMap g = xs.map f ↔ ∀ x ∈ xs, g x = [f x] := by
  have hlength (xs : List α) : xs.length ≤ (xs.flatMap g).length := by
    induction xs with
    | nil => exact le_rfl
    | cons x xs ih =>
      have hpos := List.length_pos_of_ne_nil (hne x)
      rw [List.flatMap_cons, List.length_append, List.length_cons]
      omega
  induction xs with
  | nil => simp
  | cons x xs ih =>
    rw [List.flatMap_cons, List.map_cons, List.forall_mem_cons]
    constructor
    · intro heq
      obtain ⟨y, ys, hx⟩ := List.exists_cons_of_ne_nil (hne x)
      rw [hx, List.cons_append, List.cons.injEq] at heq
      have htotal := congrArg List.length heq.2
      have hrest := hlength xs
      rw [List.length_append, List.length_map] at htotal
      have hnil : ys = [] := List.eq_nil_of_length_eq_zero (by omega)
      rw [hnil, List.nil_append] at heq
      exact ⟨by rw [hx, hnil, heq.1], ih.mp heq.2⟩
    · rintro ⟨hx, hxs⟩
      rw [hx, ih.mpr hxs]
      rfl

end PatchFile

/-! ## Paths -/

theorem afterLastB_append (text : List Char) {more path : List Char} (h : afterLastB more = some path) :
    afterLastB (text ++ more) = some path := by
  induction text with
  | nil => exact h
  | cons c cs ih => rw [List.cons_append, afterLastB, ih, some_or]

theorem afterLastB_cons_ne (h : c ≠ ' ') (cs : List Char) : afterLastB (c :: cs) = afterLastB cs := by
  have hstart : " b/".toList.isPrefixOf (c :: cs) = false := by
    rw [Bool.eq_false_iff, ne_eq, List.isPrefixOf_iff_prefix]
    intro hstart
    exact h (List.cons_prefix_cons.mp hstart).1.symm
  rw [afterLastB, hstart]
  simp

/-- What is found is shorter, and stands behind ` b/`. -/
theorem afterLastB_eq_some {text path : List Char} (h : afterLastB text = some path) :
    ∃ before, text = before ++ " b/".toList ++ path ∧ path ≠ [] := by
  induction text with
  | nil => contradiction
  | cons c cs ih =>
    rw [afterLastB] at h
    rcases or_eq_some_iff.mp h with hlater | ⟨-, hhere⟩
    · obtain ⟨before, hcs, hne⟩ := ih hlater
      exact ⟨c :: before, by rw [hcs]; rfl, hne⟩
    · rw [ite_none_right_eq_some, Bool.and_eq_true, decide_eq_true_eq] at hhere
      obtain ⟨⟨hstart, hne⟩, hpath⟩ := hhere
      obtain ⟨rest, hrest⟩ := List.isPrefixOf_iff_prefix.mp hstart
      have hcs : cs.drop 2 = rest := by
        rw [← (List.cons.inj hrest).2]
        rfl
      have heq := some.inj hpath
      refine ⟨[], ?_, heq ▸ hne⟩
      rw [← heq, hcs, List.nil_append, hrest]

theorem prefixedPath_headLine (file : PatchFile) :
    prefixedPath file.headLine = some ((afterLastB file.path).getD file.path) := by
  obtain ⟨hne, hplain⟩ := file.path_unquoted
  have hterminators : file.headLine.all (!isLineTerminator ·) := by
    have hpath : file.path.all (!isLineTerminator ·) := by
      rw [List.all_eq_true]
      intro c hc
      have hrange := hplain c hc
      simp only [isLineTerminator, Bool.not_eq_true', Bool.or_eq_false_iff, beq_eq_false_iff_ne]
      refine ⟨⟨⟨?_, ?_⟩, ?_⟩, ?_⟩
      all_goals
        rintro rfl
        exact absurd hrange (by decide)
    simp only [PatchFile.headLine, List.all_append, hpath, Bool.and_true]
    decide
  obtain ⟨first, rest, hpath⟩ := List.exists_cons_of_ne_nil hne
  have hdrop : file.headLine.drop 3 = rest ++ (' ' :: 'b' :: '/' :: file.path) := by
    rw [PatchFile.headLine, hpath]
    simp
  have hmark : afterLastB (' ' :: 'b' :: '/' :: file.path) = some ((afterLastB file.path).getD file.path) := by
    rw [afterLastB, afterLastB_cons_ne (by decide), afterLastB_cons_ne (by decide)]
    cases hlast : afterLastB file.path with
    | some path => rfl
    | none => simp [hne]
  have hside : "a/".toList.isPrefixOf file.headLine := by
    rw [PatchFile.headLine, List.append_assoc, List.append_assoc]
    simp
  rw [prefixedPath, hside, hterminators, Bool.and_self, if_pos rfl, hdrop]
  exact afterLastB_append rest hmark

/-- Nothing in the path looks like the start of the second one. -/
theorem path_eq_iff (file : PatchFile) :
    (afterLastB file.path).getD file.path = file.path ↔
      ∀ before after, file.path = before ++ " b/".toList ++ after → after = [] := by
  constructor
  · intro heq before after hpath
    by_contra hne
    have hmark : afterLastB (" b/".toList ++ after) = some ((afterLastB after).getD after) := by
      show afterLastB (' ' :: 'b' :: '/' :: after) = _
      rw [afterLastB, afterLastB_cons_ne (by decide), afterLastB_cons_ne (by decide)]
      cases hlast : afterLastB after with
      | some path => rfl
      | none => simp [hne]
    rw [hpath, List.append_assoc, afterLastB_append before hmark, getD_some] at heq
    have hlength := congrArg List.length heq
    have hle : ((afterLastB after).getD after).length ≤ after.length := by
      cases hlast : afterLastB after with
      | none => exact le_rfl
      | some path =>
        obtain ⟨front, hafter, -⟩ := afterLastB_eq_some hlast
        rw [getD_some, hafter, List.length_append]
        omega
    simp only [List.length_append] at hlength
    have hpos : 0 < " b/".toList.length := by decide
    omega
  · intro h
    cases hlast : afterLastB file.path with
    | none => rfl
    | some path =>
      obtain ⟨before, hpath, hne⟩ := afterLastB_eq_some hlast
      exact absurd (h before path hpath) hne

/-! ## Hunk headers -/

theorem expect_append (mark rest : List Char) : expect mark (mark ++ rest) = some rest := by
  rw [expect, if_pos (List.isPrefixOf_iff_prefix.mpr (List.prefix_append _ _)), List.drop_left]

theorem digitRow_decimal (n : ℕ) (hc : isDigit c = false) (rest : List Char) :
    digitRow (decimalChars n ++ c :: rest) = some (decimalChars n, c :: rest) := by
  have hne : decimalChars n ≠ [] := fun hnil => JsNumber.decimal_ne_nil n (List.map_eq_nil_iff.mp hnil)
  unfold digitRow
  rw [List.takeWhile_append_of_pos (isDigit_decimalChars n), List.dropWhile_append_of_pos (isDigit_decimalChars n),
    List.takeWhile_cons_of_neg (by simp [hc]), List.dropWhile_cons_of_neg (by simp [hc]), List.append_nil,
    if_neg hne]

theorem startAndCount_renderRange (start count : ℕ) (rest : List Char) :
    startAndCount (renderRange start count ++ ' ' :: rest) = some ((start, count), ' ' :: rest) := by
  unfold startAndCount renderRange
  by_cases hone : count = 1
  · rw [if_pos hone, List.append_nil, digitRow_decimal start (by decide), hone]
    simp [expect, digitsValue_decimalChars]
  · have hcount : (expect [','] (',' :: (decimalChars count ++ ' ' :: rest))).bind digitRow =
        some (decimalChars count, ' ' :: rest) := by
      rw [show ',' :: (decimalChars count ++ ' ' :: rest) = [','] ++ (decimalChars count ++ ' ' :: rest) from rfl,
        expect_append, bind_some, digitRow_decimal count (by decide)]
    rw [if_neg hone, List.append_assoc, List.cons_append, digitRow_decimal start (by decide), map_some,
      hcount]
    simp only [digitsValue_decimalChars]

theorem upToMark_append {first : Char} {rest : List Char} (h : ∀ c ∈ first :: rest, isLineTerminator c = false ∧ c ≠ '@')
    (heading : List Char) :
    upToMark (first :: rest ++ " @@".toList ++ heading) = some (first :: rest ++ " @@".toList) := by
  induction rest generalizing first with
  | nil =>
    have hfirst := (h first List.mem_cons_self).1
    simp [upToMark, hfirst]
  | cons second rest ih =>
    have hfirst := (h first List.mem_cons_self).1
    have hstart : " @@".toList.isPrefixOf (second :: rest ++ " @@".toList ++ heading) = false := by
      rw [Bool.eq_false_iff, ne_eq, List.isPrefixOf_iff_prefix]
      intro hstart
      obtain ⟨-, hthird⟩ := List.cons_prefix_cons.mp hstart
      cases rest with
      | nil => exact absurd (List.cons_prefix_cons.mp hthird).1 (by decide)
      | cons third rest =>
        have hne := (h third (by simp)).2
        exact hne (List.cons_prefix_cons.mp hthird).1.symm
    have hih := ih fun c hc => h c (List.mem_cons_of_mem _ hc)
    rw [List.cons_append, List.cons_append, upToMark, if_neg (by simp [hfirst]), hstart]
    simp only [Bool.false_eq_true, if_false, hih, map_some]

theorem renderRange_plain (start count : ℕ) :
    ∀ c ∈ renderRange start count, isLineTerminator c = false ∧ c ≠ '@' := by
  have hdigit (c : Char) (hc : isDigit c = true) : isLineTerminator c = false ∧ c ≠ '@' := by
    constructor
    · simp only [isLineTerminator, Bool.or_eq_false_iff, beq_eq_false_iff_ne]
      refine ⟨⟨⟨?_, ?_⟩, ?_⟩, ?_⟩
      all_goals
        rintro rfl
        exact absurd hc (by decide)
    · rintro rfl
      exact absurd hc (by decide)
  intro c hc
  rcases List.mem_append.mp hc with hstart | hcount
  · exact hdigit c (isDigit_decimalChars start c hstart)
  · split_ifs at hcount
    · exact absurd hcount List.not_mem_nil
    · rcases List.mem_cons.mp hcount with rfl | hcount
      · exact ⟨rfl, by simp⟩
      · exact hdigit c (isDigit_decimalChars count c hcount)

/-- A header gives its numbers as far as they are doubles. -/
def PatchHunk.read (hunk : PatchHunk) (lines : List PatchLine) : DiffHunk where
  oldStart := toDouble hunk.oldStart
  oldCount := toDouble hunk.oldCount
  newStart := toDouble hunk.newStart
  newCount := toDouble hunk.newCount
  lines := ⟨.header, hunk.renderNumbers⟩ :: lines.map fun line => ⟨line.kind.type, line.text⟩

theorem parseHunkHeader_render (hunk : PatchHunk) :
    parseHunkHeader (hunk.renderNumbers ++ hunk.heading) = some (hunk.read []) := by
  have hcontent : headerContent (hunk.renderNumbers ++ hunk.heading) = hunk.renderNumbers := by
    have hplain : ∀ c ∈ '-' :: (renderRange hunk.oldStart hunk.oldCount ++ " +".toList ++
        renderRange hunk.newStart hunk.newCount), isLineTerminator c = false ∧ c ≠ '@' := by
      intro c hc
      simp only [List.mem_cons, List.mem_append] at hc
      rcases hc with rfl | (hold | hmark) | hnew
      · exact ⟨rfl, by simp⟩
      · exact renderRange_plain _ _ c hold
      · have hmark : c = ' ' ∨ c = '+' := by simpa using hmark
        rcases hmark with rfl | rfl
        · exact ⟨rfl, by simp⟩
        · exact ⟨rfl, by simp⟩
      · exact renderRange_plain _ _ c hnew
    have hup := upToMark_append hplain hunk.heading
    have hline : hunk.renderNumbers = "@@ ".toList ++ ('-' :: (renderRange hunk.oldStart hunk.oldCount ++
        " +".toList ++ renderRange hunk.newStart hunk.newCount) ++ " @@".toList) := by
      simp [renderNumbers]
    rw [headerContent, hline, List.append_assoc, expect_append, bind_some, hup]
    rfl
  have hline : hunk.renderNumbers ++ hunk.heading = "@@ -".toList ++
      (renderRange hunk.oldStart hunk.oldCount ++ ' ' :: ('+' ::
        (renderRange hunk.newStart hunk.newCount ++ ' ' :: ('@' :: '@' :: hunk.heading)))) := by
    simp [renderNumbers]
  have hnew (rest : List Char) : expect " +".toList (' ' :: '+' :: rest) = some rest := expect_append _ rest
  have hend (rest : List Char) : expect " @@".toList (' ' :: '@' :: '@' :: rest) = some rest := expect_append _ rest
  unfold parseHunkHeader
  rw [hcontent, hline, expect_append, bind_some, startAndCount_renderRange, bind_some, hnew,
    bind_some, startAndCount_renderRange, bind_some, hend]
  rfl

/-! ## Hunks -/

/-- A line that is no metadata. -/
def Kept (line : PatchLine) : Bool :=
  match line.kind with
  | .context => true
  | .remove => !"-- ".toList.isPrefixOf line.text
  | .add => !"++ ".toList.isPrefixOf line.text

theorem isPrefixOf_cons_ne {d : Char} (h : c ≠ d) (cs ds : List Char) :
    (c :: cs).isPrefixOf (d :: ds) = false := by
  rw [Bool.eq_false_iff, ne_eq, List.isPrefixOf_iff_prefix]
  exact fun hstart => h (List.cons_prefix_cons.mp hstart).1

theorem isMetadataLine_of_kind (line : PatchLine) :
    isMetadataLine (line.kind.mark :: line.text) = !Kept line := by
  unfold isMetadataLine Kept
  cases line.kind with
  | context => simp [mark, isPrefixOf_cons_ne]
  | remove => simp [mark, isPrefixOf_cons_ne]
  | add => simp [mark, isPrefixOf_cons_ne]

theorem parseHunkHeader_of_ne (h : c ≠ '@') (cs : List Char) : parseHunkHeader (c :: cs) = none := by
  have hexpect : expect "@@ -".toList (c :: cs) = none := by
    rw [expect, show "@@ -".toList = '@' :: "@ -".toList from rfl, isPrefixOf_cons_ne (Ne.symm h)]
    rfl
  rw [parseHunkHeader, hexpect, bind_none]

theorem next_marker (body : SectionBody) : body.next "\\ No newline at end of file".toList = body := by
  have hmetadata : isMetadataLine "\\ No newline at end of file".toList = false := by decide
  have hheader : parseHunkHeader "\\ No newline at end of file".toList = none :=
    parseHunkHeader_of_ne (by decide) _
  rw [next, hmetadata, hheader]
  cases body.currentHunk with
  | none => rfl
  | some hunk => rfl

def countKind (kind : PatchLineKind) (lines : List PatchLine) : ℕ := lines.countP (·.kind = kind)

theorem next_line (body : SectionBody) {hunk : DiffHunk} (hcurrent : body.currentHunk = some hunk)
    (line : PatchLine) :
    (renderLine line).foldl next body =
      if Kept line then
        { body with
          currentHunk := some (hunk.push ⟨line.kind.type, line.text⟩)
          additions := body.additions + countKind .add [line]
          deletions := body.deletions + countKind .remove [line] }
      else body := by
  have hline : body.next (line.kind.mark :: line.text) =
      if Kept line then
        { body with
          currentHunk := some (hunk.push ⟨line.kind.type, line.text⟩)
          additions := body.additions + countKind .add [line]
          deletions := body.deletions + countKind .remove [line] }
      else body := by
    unfold next
    rw [isMetadataLine_of_kind]
    cases hkept : Kept line with
    | false => rfl
    | true =>
      have hheader : parseHunkHeader (line.kind.mark :: line.text) = none := by
        apply parseHunkHeader_of_ne
        cases line.kind with
        | context => decide
        | remove => decide
        | add => decide
      simp only [Bool.not_true, Bool.false_eq_true, if_false, hheader, hcurrent, if_true]
      cases hkind : line.kind with
      | context => simp [mark, type, countKind, hkind]
      | remove => simp [mark, type, countKind, hkind]
      | add => simp [mark, type, countKind, hkind]
  unfold renderLine
  rw [List.foldl_cons, hline]
  split_ifs
  · rw [List.foldl_cons, next_marker, List.foldl_nil]
  · rfl
  · rw [List.foldl_cons, next_marker, List.foldl_nil]
  · rfl

/-- What is read of the lines of a hunk are those that are kept. -/
theorem foldl_lines (lines : List PatchLine) (body : SectionBody) (hunk : PatchHunk) (before : List PatchLine)
    (hcurrent : body.currentHunk = some (hunk.read before)) :
    (lines.flatMap renderLine).foldl next body =
      { body with
        currentHunk := some (hunk.read (before ++ lines.filter Kept))
        additions := body.additions + countKind .add (lines.filter Kept)
        deletions := body.deletions + countKind .remove (lines.filter Kept) } := by
  induction lines generalizing body before with
  | nil =>
    rw [List.filter_nil, List.append_nil, ← hcurrent]
    rfl
  | cons line lines ih =>
    rw [List.flatMap_cons, List.foldl_append, next_line body hcurrent]
    cases hkept : Kept line with
    | false => rw [if_neg (by simp), ih body before hcurrent, List.filter_cons_of_neg (by simp [hkept])]
    | true =>
      have hpush : (hunk.read before).push ⟨line.kind.type, line.text⟩ = hunk.read (before ++ [line]) := by
        simp [DiffHunk.push, PatchHunk.read]
      rw [if_pos rfl, hpush, ih _ (before ++ [line]) rfl, List.filter_cons_of_pos hkept, List.append_assoc]
      simp only [countKind, List.countP_cons, List.countP_nil, List.singleton_append]
      congr 1
      · omega
      · omega

theorem foldl_hunks (hunks : List PatchHunk) (body : SectionBody) :
    let read := (hunks.flatMap renderLines).foldl next body
    read.hunks ++ read.currentHunk.toList = body.hunks ++ body.currentHunk.toList ++
      hunks.map (fun hunk => hunk.read (hunk.lines.filter Kept)) ∧
    read.additions = body.additions + (hunks.map fun hunk => countKind .add (hunk.lines.filter Kept)).sum ∧
    read.deletions = body.deletions + (hunks.map fun hunk => countKind .remove (hunk.lines.filter Kept)).sum := by
  induction hunks generalizing body with
  | nil => simp
  | cons hunk hunks ih =>
    have hmetadata : isMetadataLine (hunk.renderNumbers ++ hunk.heading) = false := by
      simp [isMetadataLine, renderNumbers, isPrefixOf_cons_ne]
    have hheader : body.next (hunk.renderNumbers ++ hunk.heading) =
        { body with hunks := body.hunks ++ body.currentHunk.toList, currentHunk := some (hunk.read []) } := by
      rw [next, hmetadata, parseHunkHeader_render]
      rfl
    simp only [List.flatMap_cons, List.foldl_append, renderLines, List.foldl_cons, hheader]
    rw [foldl_lines hunk.lines _ hunk [] rfl]
    obtain ⟨hhunks, hadditions, hdeletions⟩ := ih
      { body with
        hunks := body.hunks ++ body.currentHunk.toList
        currentHunk := some (hunk.read ([] ++ hunk.lines.filter Kept))
        additions := body.additions + countKind .add (hunk.lines.filter Kept)
        deletions := body.deletions + countKind .remove (hunk.lines.filter Kept) }
    refine ⟨?_, ?_, ?_⟩
    · rw [hhunks]
      simp
    · rw [hadditions, List.map_cons, List.sum_cons, ← Nat.add_assoc]
    · rw [hdeletions, List.map_cons, List.sum_cons, ← Nat.add_assoc]

/-! ## Sections -/

theorem splitOn_lines {lines : List (List Char)} (h : ∀ line ∈ lines, '\n' ∉ line) :
    (lines.flatMap (· ++ ['\n'])).splitOn '\n' = lines ++ [[]] := by
  induction lines with
  | nil => rfl
  | cons line lines ih =>
    rw [List.flatMap_cons, List.append_assoc, List.singleton_append,
      List.splitOn_append_cons_self_of_not_mem (h line List.mem_cons_self),
      ih fun other hother => h other (List.mem_cons_of_mem _ hother)]
    rfl

theorem includes_iff (text needle : List Char) : includes text needle = true ↔ needle <:+: text := by
  rw [includes, List.any_eq_true]
  constructor
  · rintro ⟨rest, hrest, hstart⟩
    exact (List.isPrefixOf_iff_prefix.mp hstart).isInfix.trans (List.mem_tails _ _ |>.mp hrest).isInfix
  · rintro ⟨before, after, rfl⟩
    exact ⟨needle ++ after, (List.mem_tails _ _).mpr ⟨before, (List.append_assoc _ _ _).symm⟩,
      List.isPrefixOf_iff_prefix.mpr (List.prefix_append _ _)⟩

namespace PatchFile

variable (file : PatchFile)

theorem lineFeed_not_mem_renderLines : ∀ line ∈ file.renderLines, '\n' ∉ line := by
  have hpath : '\n' ∉ file.path := fun hmem => absurd (file.path_unquoted.2 _ hmem) (by decide)
  have hnamed (side : List Char) (hside : '\n' ∉ side) : '\n' ∉ named side file.path := by
    unfold named
    split_ifs
    · simp [hside, hpath]
    · simp [hside, hpath]
  have hnumber (n : ℕ) : '\n' ∉ decimalChars n := by
    intro hmem
    exact absurd (isDigit_decimalChars n _ hmem) (by decide)
  have hrange (start count : ℕ) : '\n' ∉ renderRange start count := by
    unfold renderRange
    split_ifs
    · simp [hnumber]
    · simp [hnumber]
  intro line hline
  rcases List.mem_append.mp hline with hmetadata | hhunks
  · rcases List.mem_cons.mp hmetadata with rfl | hmetadata
    · simp [headLine, hpath]
    · rcases List.mem_append.mp hmetadata with hmode | hnames
      · exact file.modes_lines line hmode
      · simp only [List.mem_cons, List.not_mem_nil, or_false] at hnames
        rcases hnames with rfl | rfl | rfl
        · simp [file.index_line]
        · unfold oldName
          split
          · simp
          · simp [hnamed]
        · unfold newName
          split
          · simp
          · simp [hnamed]
  · obtain ⟨hunk, -, hline⟩ := List.mem_flatMap.mp hhunks
    rcases List.mem_cons.mp hline with rfl | hline
    · simp [renderNumbers, hrange, hunk.heading_line]
    · obtain ⟨patchLine, -, hline⟩ := List.mem_flatMap.mp hline
      rcases List.mem_cons.mp hline with rfl | hmarker
      · cases hkind : patchLine.kind <;> simp [mark, patchLine.text_line]
      · split_ifs at hmarker
        · rw [List.mem_singleton.mp hmarker]
          decide
        · exact absurd hmarker List.not_mem_nil

/-- What is read of a section that no mark cuts. -/
theorem parseSection_render :
    parseSection file.renderSection =
      { path := (afterLastB file.path).getD file.path
        isNew := includes file.renderSection "new file mode".toList ||
          includes file.renderSection "--- /dev/null".toList
        isDeleted := includes file.renderSection "deleted file mode".toList ||
          includes file.renderSection "+++ /dev/null".toList
        additions := (file.hunks.map fun hunk => countKind .add (hunk.lines.filter Kept)).sum
        deletions := (file.hunks.map fun hunk => countKind .remove (hunk.lines.filter Kept)).sum
        hunks := file.hunks.map fun hunk => hunk.read (hunk.lines.filter Kept) } := by
  have hlines : file.renderSection.splitOn '\n' = file.renderLines ++ [[]] :=
    splitOn_lines file.lineFeed_not_mem_renderLines
  have hpath : extractPathFromDiffHeader (file.renderLines ++ [[]]) =
      (afterLastB file.path).getD file.path := by
    have hfirst : (file.renderLines ++ [([] : List Char)]).headD [] = file.headLine := rfl
    unfold extractPathFromDiffHeader
    rw [hfirst]
    dsimp only
    rw [prefixedPath_headLine]
  have hmetadata (body : SectionBody) : file.metadataLines.foldl next body = body := by
    have hall : ∀ line ∈ file.metadataLines, isMetadataLine line = true := by
      intro line hline
      unfold metadataLines modeLines at hline
      cases hchange : file.change with
      | modified =>
        simp only [hchange, List.nil_append, List.mem_cons, List.not_mem_nil, or_false] at hline
        rcases hline with rfl | rfl | rfl <;> simp [isMetadataLine]
      | new mode =>
        simp only [hchange, List.singleton_append, List.mem_cons, List.not_mem_nil, or_false] at hline
        rcases hline with rfl | rfl | rfl | rfl <;> simp [isMetadataLine]
      | deleted mode =>
        simp only [hchange, List.singleton_append, List.mem_cons, List.not_mem_nil, or_false] at hline
        rcases hline with rfl | rfl | rfl | rfl <;> simp [isMetadataLine]
    generalize file.metadataLines = lines at hall
    induction lines with
    | nil => rfl
    | cons line lines ih =>
      rw [List.foldl_cons, next, if_pos (hall line List.mem_cons_self)]
      exact ih fun other hother => hall other (List.mem_cons_of_mem _ hother)
  have hend (body : SectionBody) : body.next [] = body := by
    cases hcurrent : body.currentHunk with
    | none => simp [next, isMetadataLine, parseHunkHeader, expect, hcurrent]
    | some hunk => simp [next, isMetadataLine, parseHunkHeader, expect, hcurrent]
  have hbody : parseSectionBody (file.renderLines ++ [[]]) =
      (file.hunks.flatMap PatchHunk.renderLines).foldl next ⟨[], none, 0, 0⟩ := by
    show (file.metadataLines ++ file.hunks.flatMap PatchHunk.renderLines ++ [[]]).foldl next
      ⟨[], none, 0, 0⟩ = _
    rw [List.foldl_append, List.foldl_append, hmetadata, List.foldl_cons, hend, List.foldl_nil]
  obtain ⟨hhunks, hadditions, hdeletions⟩ := foldl_hunks file.hunks ⟨[], none, 0, 0⟩
  unfold parseSection
  simp only [hlines, hpath, hbody]
  rw [hhunks, hadditions, hdeletions]
  simp

/-- Nothing of the file looks like something else to the reader. -/
structure Readable (file : PatchFile) : Prop where
  path : ∀ before after, file.path = before ++ " b/".toList ++ after → after = []
  /-- no text goes on with a mark after a carriage return or another line terminator -/
  unmarked : MarkedInside false file.renderSection = false
  new : file.isNew = false → ¬ "new file mode".toList <:+: file.renderSection ∧
    ¬ "--- /dev/null".toList <:+: file.renderSection
  deleted : file.isDeleted = false → ¬ "deleted file mode".toList <:+: file.renderSection ∧
    ¬ "+++ /dev/null".toList <:+: file.renderSection
  /-- no removed line starts with `-- `, and no added one with `++ ` -/
  kept : ∀ hunk ∈ file.hunks, ∀ line ∈ hunk.lines, Kept line = true
  numbers : ∀ hunk ∈ file.hunks, ∀ n ∈ [hunk.oldStart, hunk.oldCount, hunk.newStart, hunk.newCount],
    toDouble n = some (n : ℚ)

theorem read_eq_parsed_iff (hunk : PatchHunk) :
    hunk.read (hunk.lines.filter Kept) = hunk.parsed ↔ (∀ line ∈ hunk.lines, Kept line = true) ∧
      ∀ n ∈ [hunk.oldStart, hunk.oldCount, hunk.newStart, hunk.newCount], toDouble n = some (n : ℚ) := by
  simp only [PatchHunk.read, PatchHunk.parsed, DiffHunk.mk.injEq, List.forall_mem_cons, List.cons.injEq,
    true_and, List.not_mem_nil, IsEmpty.forall_iff, implies_true, and_true]
  constructor
  · rintro ⟨holdStart, holdCount, hnewStart, hnewCount, hlines⟩
    have hlength := congrArg List.length hlines
    rw [List.length_map, List.length_map, List.length_filter_eq_length_iff] at hlength
    exact ⟨hlength, holdStart, holdCount, hnewStart, hnewCount⟩
  · rintro ⟨hkept, holdStart, holdCount, hnewStart, hnewCount⟩
    exact ⟨holdStart, holdCount, hnewStart, hnewCount, by rw [List.filter_eq_self.mpr hkept]⟩

theorem infix_renderSection {line needle : List Char} (hline : line ∈ file.renderLines)
    (h : needle <:+: line) : needle <:+: file.renderSection := by
  obtain ⟨before, after, hlines⟩ := List.append_of_mem hline
  rw [renderSection, hlines, List.flatMap_append, List.flatMap_cons]
  have hwhole : line <:+: line ++ ['\n'] ++ after.flatMap (· ++ ['\n']) := by
    rw [List.append_assoc]
    exact (List.prefix_append _ _).isInfix
  exact h.trans (hwhole.trans (List.suffix_append _ _).isInfix)

/-- What the whole section is searched for is found where it belongs. -/
theorem includes_mode_iff (flag : Bool) (first second : List Char)
    (hflag : flag = true → first <:+: file.renderSection) :
    (includes file.renderSection first || includes file.renderSection second) = flag ↔
      (flag = false → ¬ first <:+: file.renderSection ∧ ¬ second <:+: file.renderSection) := by
  rw [← includes_iff] at hflag
  rw [← includes_iff, ← includes_iff]
  cases flag with
  | false => simp
  | true => simp [hflag rfl]

theorem infix_of_isNew (h : file.isNew = true) : "new file mode".toList <:+: file.renderSection := by
  cases hchange : file.change with
  | new mode =>
    have hline : "new file mode ".toList ++ mode ∈ file.renderLines := by
      simp [renderLines, metadataLines, modeLines, hchange]
    have hmode : "new file mode".toList <+: "new file mode ".toList ++ mode :=
      List.prefix_append "new file mode".toList (' ' :: mode)
    exact file.infix_renderSection hline hmode.isInfix
  | modified => simp [isNew, hchange] at h
  | deleted mode => simp [isNew, hchange] at h

theorem infix_of_isDeleted (h : file.isDeleted = true) :
    "deleted file mode".toList <:+: file.renderSection := by
  cases hchange : file.change with
  | deleted mode =>
    have hline : "deleted file mode ".toList ++ mode ∈ file.renderLines := by
      simp [renderLines, metadataLines, modeLines, hchange]
    have hmode : "deleted file mode".toList <+: "deleted file mode ".toList ++ mode :=
      List.prefix_append "deleted file mode".toList (' ' :: mode)
    exact file.infix_renderSection hline hmode.isInfix
  | modified => simp [isDeleted, hchange] at h
  | new mode => simp [isDeleted, hchange] at h

theorem readSection_iff :
    (splitAtMarks false 0 file.renderSection).map parseSection = [file.parsed] ↔ file.Readable := by
  have hnew := file.includes_mode_iff file.isNew "new file mode".toList "--- /dev/null".toList
    file.infix_of_isNew
  have hdeleted := file.includes_mode_iff file.isDeleted "deleted file mode".toList "+++ /dev/null".toList
    file.infix_of_isDeleted
  cases hmarked : MarkedInside false file.renderSection with
  | true =>
    have hlength := length_splitAtMarks_of_marked hmarked
    constructor
    · intro heq
      have hone := congrArg List.length heq
      rw [List.length_map, List.length_singleton] at hone
      omega
    · intro h
      rw [h.unmarked] at hmarked
      contradiction
  | false =>
    rw [splitAtMarks_of_unmarked hmarked, List.map_singleton, List.singleton_inj, parseSection_render, parsed,
      ParsedDiffFile.mk.injEq, path_eq_iff, hnew, hdeleted, List.map_inj_left]
    constructor
    · rintro ⟨hpath, hnew, hdeleted, -, -, hhunks⟩
      exact ⟨hpath, hmarked, hnew, hdeleted,
        fun hunk hhunk => ((read_eq_parsed_iff hunk).mp (hhunks hunk hhunk)).1,
        fun hunk hhunk => ((read_eq_parsed_iff hunk).mp (hhunks hunk hhunk)).2⟩
    · intro h
      have hcount (kind : PatchLineKind) :
          (file.hunks.map fun hunk => countKind kind (hunk.lines.filter Kept)).sum = file.countLines kind := by
        unfold countLines
        congr 1
        apply List.map_congr_left
        intro hunk hhunk
        rw [List.filter_eq_self.mpr (h.kept hunk hhunk)]
        rfl
      exact ⟨h.path, h.new, h.deleted, hcount .add, hcount .remove,
        fun hunk hhunk => (read_eq_parsed_iff hunk).mpr ⟨h.kept hunk hhunk, h.numbers hunk hhunk⟩⟩

end PatchFile

/-- A comment of SQL is removed. -/
def removedComment : PatchFile where
  path := "a.sql".toList
  change := .modified
  index := "1..2 100644".toList
  hunks := [⟨1, 1, [], [⟨.remove, "-- drop".toList, false, by decide⟩, ⟨.context, "go".toList, false, by decide⟩],
    by decide⟩]
  path_unquoted := ⟨by decide, by simp⟩
  modes_lines := by decide
  index_line := by decide

end Orqara.Patches
