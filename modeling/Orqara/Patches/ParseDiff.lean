import Orqara.Library.JsonParse

/-!
# Reading git patches

A patch is split at its `diff --git` lines, and each line of a section is classified by how it starts.
-/

namespace Orqara.Patches

open JsonParse

inductive DiffLineType where
  | add
  | remove
  | context
  | header
  deriving DecidableEq, Repr

structure DiffLine where
  type : DiffLineType
  content : List Char
  deriving DecidableEq, Repr

/-- The numbers are doubles, `none` for infinity. -/
structure DiffHunk where
  oldStart : Option ℚ
  oldCount : Option ℚ
  newStart : Option ℚ
  newCount : Option ℚ
  lines : List DiffLine
  deriving DecidableEq, Repr

structure ParsedDiffFile where
  path : List Char
  isNew : Bool
  isDeleted : Bool
  additions : ℕ
  deletions : ℕ
  hunks : List DiffHunk
  deriving DecidableEq, Repr

/-! ## Texts -/

def includes (text needle : List Char) : Bool := text.tails.any needle.isPrefixOf

/-- Where `^` matches, and what `.` does not match. -/
def isLineTerminator (c : Char) : Bool := c == '\n' || c == '\r' || c == '\u2028' || c == '\u2029'

def consFirst (c : Char) : List (List Char) → List (List Char)
  | [] => [[c]]
  | piece :: pieces => (c :: piece) :: pieces

def sectionMark : List Char := "diff --git ".toList

/-- `split(/^diff --git /m)`; the counter says how much of a mark is still to be skipped. -/
def splitAtMarks : Bool → ℕ → List Char → List (List Char)
  | _, _, [] => [[]]
  | _, skip + 1, _ :: cs => splitAtMarks false skip cs
  | atStart, 0, c :: cs =>
    if atStart && sectionMark.isPrefixOf (c :: cs) then
      [] :: splitAtMarks false (sectionMark.length - 1) cs
    else consFirst c (splitAtMarks (isLineTerminator c) 0 cs)

/-! ## Paths -/

/-- What follows the last ` b/` that something follows. -/
def afterLastB : List Char → Option (List Char)
  | [] => none
  | c :: cs =>
    (afterLastB cs).or
      (if " b/".toList.isPrefixOf (c :: cs) && (cs.drop 2 ≠ []) then some (cs.drop 2) else none)

/-- `/^a\/(.+) b\/(.+)$/` -/
def prefixedPath (line : List Char) : Option (List Char) :=
  if "a/".toList.isPrefixOf line && line.all (!isLineTerminator ·) then afterLastB (line.drop 3) else none

/-- `replace(/\t.*$/, "")` -/
def cutAtTab : List Char → List Char
  | [] => []
  | c :: cs => if c == '\t' && cs.all (!isLineTerminator ·) then [] else c :: cutAtTab cs

def extractPathFromMetadata (lines : List (List Char)) (mark : List Char) : Option (List Char) :=
  (lines.find? mark.isPrefixOf).bind fun line =>
    let path := (cutAtTab (line.drop mark.length)).rdropWhile isWhiteSpace
    if path = "/dev/null".toList then none else some path

def usesDiffPathPrefixes (oldPath newPath : List Char) : Bool :=
  "a/".toList.isPrefixOf oldPath && "b/".toList.isPrefixOf newPath

/-- `/^(\S+)\s+(\S+)$/` -/
def pathPair (line : List Char) : Option (List Char × List Char) :=
  let oldPath := line.takeWhile (!isWhiteSpace ·)
  let rest := line.dropWhile (!isWhiteSpace ·)
  let newPath := rest.dropWhile isWhiteSpace
  if oldPath ≠ [] ∧ rest ≠ [] ∧ newPath ≠ [] ∧ newPath.all (!isWhiteSpace ·) then some (oldPath, newPath)
  else none

def extractPathFromDiffHeader (lines : List (List Char)) : List Char :=
  let firstLine := lines.headD []
  match prefixedPath firstLine with
  | some path => path
  | none =>
    let metadataPath := (extractPathFromMetadata lines "+++ ".toList).or
      (extractPathFromMetadata lines "--- ".toList)
    match metadataPath.filter (· ≠ []), pathPair firstLine with
    | some path, _ => path
    | none, some (oldPath, newPath) =>
      let path := if newPath = "/dev/null".toList then oldPath else newPath
      if usesDiffPathPrefixes oldPath newPath then path.drop 2 else path
    | none, none => "unknown".toList

/-! ## Sections -/

def isMetadataLine (line : List Char) : Bool :=
  "index ".toList.isPrefixOf line || "--- ".toList.isPrefixOf line || "+++ ".toList.isPrefixOf line ||
    "new file mode".toList.isPrefixOf line || "deleted file mode".toList.isPrefixOf line

def expect (mark text : List Char) : Option (List Char) :=
  if mark.isPrefixOf text then some (text.drop mark.length) else none

/-- `(\d+)(?:,(\d+))?` -/
def startAndCount (text : List Char) : Option ((ℕ × ℕ) × List Char) :=
  (digitRow text).map fun start =>
    match (expect [','] start.2).bind digitRow with
    | some count => ((digitsValue start.1, digitsValue count.1), count.2)
    | none => ((digitsValue start.1, 1), start.2)

/-- `/^(@@ .+? @@)/`, after its start -/
def upToMark : List Char → Option (List Char)
  | [] => none
  | c :: cs =>
    if isLineTerminator c then none
    else if " @@".toList.isPrefixOf cs then some (c :: " @@".toList)
    else (upToMark cs).map (c :: ·)

def headerContent (line : List Char) : List Char :=
  (((expect "@@ ".toList line).bind upToMark).map ("@@ ".toList ++ ·)).getD line

def parseHunkHeader (line : List Char) : Option DiffHunk :=
  (expect "@@ -".toList line).bind fun afterMark =>
    (startAndCount afterMark).bind fun old =>
      (expect " +".toList old.2).bind fun afterOld =>
        (startAndCount afterOld).bind fun new =>
          (expect " @@".toList new.2).map fun _ =>
            { oldStart := toDouble old.1.1, oldCount := toDouble old.1.2
              newStart := toDouble new.1.1, newCount := toDouble new.1.2
              lines := [⟨.header, headerContent line⟩] }

/-- The hunks that are complete, and the open one. -/
structure SectionBody where
  hunks : List DiffHunk
  currentHunk : Option DiffHunk
  additions : ℕ
  deletions : ℕ
  deriving DecidableEq, Repr

def DiffHunk.push (hunk : DiffHunk) (line : DiffLine) : DiffHunk := { hunk with lines := hunk.lines ++ [line] }

def SectionBody.next (body : SectionBody) (line : List Char) : SectionBody :=
  if isMetadataLine line then body
  else
    match parseHunkHeader line with
    | some newHunk => { body with hunks := body.hunks ++ body.currentHunk.toList, currentHunk := some newHunk }
    | none =>
      match body.currentHunk with
      | none => body
      | some hunk =>
        match line with
        | '+' :: text =>
          { body with currentHunk := some (hunk.push ⟨.add, text⟩), additions := body.additions + 1 }
        | '-' :: text =>
          { body with currentHunk := some (hunk.push ⟨.remove, text⟩), deletions := body.deletions + 1 }
        | ' ' :: text => { body with currentHunk := some (hunk.push ⟨.context, text⟩) }
        | [] | '\\' :: _ => body
        | text => { body with currentHunk := some (hunk.push ⟨.context, text⟩) }

def parseSectionBody (lines : List (List Char)) : SectionBody :=
  lines.tail.foldl SectionBody.next ⟨[], none, 0, 0⟩

def parseSection (text : List Char) : ParsedDiffFile :=
  let lines := text.splitOn '\n'
  let body := parseSectionBody lines
  { path := extractPathFromDiffHeader lines
    isNew := includes text "new file mode".toList || includes text "--- /dev/null".toList
    isDeleted := includes text "deleted file mode".toList || includes text "+++ /dev/null".toList
    additions := body.additions
    deletions := body.deletions
    hunks := body.hunks ++ body.currentHunk.toList }

def parseDiff (diffText : List Char) : List ParsedDiffFile :=
  if trimChars diffText = [] then [] else ((splitAtMarks true 0 diffText).filter (· ≠ [])).map parseSection

/-! ## Patches -/

inductive PatchLineKind where
  | context
  | remove
  | add
  deriving DecidableEq, Repr

structure PatchLine where
  kind : PatchLineKind
  text : List Char
  noNewline : Bool
  text_line : '\n' ∉ text

structure PatchHunk where
  oldStart : ℕ
  newStart : ℕ
  /-- what git writes behind the numbers -/
  heading : List Char
  lines : List PatchLine
  heading_line : '\n' ∉ heading

inductive PatchChange where
  | modified
  | new (mode : List Char)
  | deleted (mode : List Char)
  deriving DecidableEq, Repr

/-- Git quotes other paths. -/
def Unquoted (path : List Char) : Prop :=
  path ≠ [] ∧ ∀ c ∈ path, 32 ≤ c.toNat ∧ c.toNat < 127 ∧ c ≠ '"' ∧ c ≠ '\\'

instance (path : List Char) : Decidable (Unquoted path) := inferInstanceAs (Decidable (_ ∧ _))

def modeLines : PatchChange → List (List Char)
  | .modified => []
  | .new mode => ["new file mode ".toList ++ mode]
  | .deleted mode => ["deleted file mode ".toList ++ mode]

structure PatchFile where
  path : List Char
  change : PatchChange
  index : List Char
  hunks : List PatchHunk
  path_unquoted : Unquoted path
  modes_lines : ∀ line ∈ modeLines change, '\n' ∉ line
  index_line : '\n' ∉ index

def PatchLineKind.mark : PatchLineKind → Char
  | .context => ' '
  | .remove => '-'
  | .add => '+'

def PatchLineKind.type : PatchLineKind → DiffLineType
  | .context => .context
  | .remove => .remove
  | .add => .add

namespace PatchHunk

def oldCount (hunk : PatchHunk) : ℕ := hunk.lines.countP (·.kind ≠ .add)

def newCount (hunk : PatchHunk) : ℕ := hunk.lines.countP (·.kind ≠ .remove)

/-- A count of one is left out. -/
def renderRange (start count : ℕ) : List Char :=
  decimalChars start ++ if count = 1 then [] else ',' :: decimalChars count

def renderNumbers (hunk : PatchHunk) : List Char :=
  "@@ -".toList ++ renderRange hunk.oldStart hunk.oldCount ++ " +".toList ++
    renderRange hunk.newStart hunk.newCount ++ " @@".toList

def renderLine (line : PatchLine) : List (List Char) :=
  (line.kind.mark :: line.text) ::
    if line.noNewline then ["\\ No newline at end of file".toList] else []

def renderLines (hunk : PatchHunk) : List (List Char) :=
  (hunk.renderNumbers ++ hunk.heading) :: hunk.lines.flatMap renderLine

/-- What is to be read back. -/
def parsed (hunk : PatchHunk) : DiffHunk where
  oldStart := some hunk.oldStart
  oldCount := some hunk.oldCount
  newStart := some hunk.newStart
  newCount := some hunk.newCount
  lines := ⟨.header, hunk.renderNumbers⟩ :: hunk.lines.map fun line => ⟨line.kind.type, line.text⟩

end PatchHunk

namespace PatchFile

/-- A tab ends a path with blanks. -/
def named (side path : List Char) : List Char :=
  side ++ path ++ if ' ' ∈ path then ['\t'] else []

def oldName (file : PatchFile) : List Char :=
  match file.change with
  | .new _ => "/dev/null".toList
  | _ => named "a/".toList file.path

def newName (file : PatchFile) : List Char :=
  match file.change with
  | .deleted _ => "/dev/null".toList
  | _ => named "b/".toList file.path

def headLine (file : PatchFile) : List Char := "a/".toList ++ file.path ++ " b/".toList ++ file.path

def metadataLines (file : PatchFile) : List (List Char) :=
  modeLines file.change ++ ["index ".toList ++ file.index, "--- ".toList ++ file.oldName,
    "+++ ".toList ++ file.newName]

def renderLines (file : PatchFile) : List (List Char) :=
  file.headLine :: file.metadataLines ++ file.hunks.flatMap PatchHunk.renderLines

/-- The section of the file, after its mark. -/
def renderSection (file : PatchFile) : List Char := file.renderLines.flatMap (· ++ ['\n'])

def render (file : PatchFile) : List Char := sectionMark ++ file.renderSection

def isNew (file : PatchFile) : Bool := file.change matches .new _

def isDeleted (file : PatchFile) : Bool := file.change matches .deleted _

def countLines (file : PatchFile) (kind : PatchLineKind) : ℕ :=
  (file.hunks.map fun hunk => hunk.lines.countP (·.kind = kind)).sum

def parsed (file : PatchFile) : ParsedDiffFile where
  path := file.path
  isNew := file.isNew
  isDeleted := file.isDeleted
  additions := file.countLines .add
  deletions := file.countLines .remove
  hunks := file.hunks.map PatchHunk.parsed

end PatchFile

end Orqara.Patches
