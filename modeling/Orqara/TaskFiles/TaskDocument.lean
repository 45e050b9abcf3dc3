import Orqara.Library.JsString

/-!
# Task documents

A task is stored as a Markdown document whose front matter has a line for each field. The fields
are found again by the first line that starts with their key, so that a text with a line break in
it can pass for another field.
-/

namespace Orqara.TaskFiles

open List Option

/-! ## Tasks -/

inductive TaskStatus
  | draft
  | open
  | inProgress
  | done
  | failed
  /-- what a document says is not checked -/
  | other (text : String)
  deriving DecidableEq

def TaskStatus.text : TaskStatus → String
  | .draft => "draft"
  | .open => "open"
  | .inProgress => "in_progress"
  | .done => "done"
  | .failed => "failed"
  | .other text => text

def TaskStatus.ofText (text : String) : TaskStatus :=
  if text = "draft" then .draft
  else if text = "open" then .open
  else if text = "in_progress" then .inProgress
  else if text = "done" then .done
  else if text = "failed" then .failed
  else .other text

inductive Priority
  | number (n : ℤ)
  | nan
  deriving DecidableEq

def Priority.text : Priority → String
  | .number n => n.repr
  | .nan => "NaN"

/-- A task; `content` stands for the body, the acceptance criteria and the notes. -/
structure Task (β : Type) where
  id : String
  title : String
  status : TaskStatus
  deps : List String
  parentId : Option String
  content : β
  created : String
  assignee : Option String
  priority : Option Priority
  deriving DecidableEq

/-! ## Lines -/

/-- The characters that end a line for a regular expression. -/
def isLineTerminator (c : Char) : Bool :=
  c == '\n' || c == '\r' || c == '\u2028' || c == '\u2029'

def OneLine (text : String) : Prop := ∀ c ∈ text.toList, isLineTerminator c = false

/-- A date as `toISOString` writes it, in one line. -/
structure IsoDate where
  text : String
  oneLine : OneLine text

def joinLines : List (List Char) → List Char
  | [] => []
  | [line] => line
  | line :: next :: lines => line ++ '\n' :: joinLines (next :: lines)

/-- `join(", ")` -/
def joinDeps : List String → List Char
  | [] => []
  | [dep] => dep.toList
  | dep :: next :: deps => dep.toList ++ ',' :: ' ' :: joinDeps (next :: deps)

def dashes : List Char := ['-', '-', '-']

/-! ## Writing -/

section Document

variable {β : Type} (renderContent : β → String) (parseContent : String → β)

/-- A line of the front matter. -/
def fieldLine (key value : String) : List Char := key.toList ++ ':' :: ' ' :: value.toList

def depsText (deps : List String) : String :=
  String.ofList ('[' :: joinDeps deps ++ [']'])

/-- The keys of the front matter with their values. -/
def fields (task : Task β) : List (String × String) :=
  [("id", task.id),
    ("title", task.title),
    ("status", task.status.text),
    ("deps", depsText task.deps),
    ("created", task.created)] ++
  ((task.parentId.filter (· ≠ "")).map ("parentId", ·)).toList ++
  ((task.assignee.filter (· ≠ "")).map ("assignee", ·)).toList ++
  (task.priority.map fun priority => ("priority", priority.text)).toList

def serializeTask (task : Task β) : String :=
  String.ofList <|
    joinLines (dashes :: (fields task).map (fun field => fieldLine field.1 field.2) ++ [dashes]) ++
      '\n' :: '\n' :: (renderContent task.content).toList

/-! ## Reading -/

/-- The lines up to the first one that closes the front matter, which another line follows. -/
def takeFrontmatter : List (List Char) → Option (List (List Char) × List (List Char))
  | [] => none
  | [_] => none
  | line :: next :: lines =>
    if line = dashes then some ([], next :: lines)
    else (takeFrontmatter (next :: lines)).map fun found => (line :: found.1, found.2)

/-- `/^---\n([\s\S]*?)\n---\n/` and what follows the match. -/
def matchFrontmatter (text : List Char) : Option (List Char × List Char) :=
  match text.splitOn '\n' with
  | opening :: first :: lines =>
    if opening = dashes then
      (takeFrontmatter lines).map fun found => (joinLines (first :: found.1), joinLines found.2)
    else none
  | _ => none

/-- The value of the first line that starts with a key, or nothing. -/
def getValue (frontmatter : List Char) (key : String) : String :=
  let start := key.toList ++ [':', ' ']
  match (frontmatter.splitOnP isLineTerminator).find? fun line => start.isPrefixOf line with
  | some line => String.ofList (line.drop start.length)
  | none => ""

/-- The text between the first opening and the last closing bracket. -/
def betweenBrackets (text : List Char) : Option (List Char) :=
  let inner := (text.dropWhile (· ≠ '[')).drop 1
  let closed := inner.rdropWhile (· ≠ ']')
  if closed = [] then none else some closed.dropLast

def parseDeps (text : String) : List String :=
  match betweenBrackets text.toList with
  | none => []
  | some inner =>
    ((inner.splitOn ',').map fun dep => String.ofList (trimChars dep)).filter (· ≠ "")

/-- `parseInt` of a decimal number. -/
def parsePriority (text : String) : Priority :=
  let digits (negative : Bool) (cs : List Char) : Priority :=
    match cs.takeWhile Char.isDigit with
    | [] => .nan
    | cs => .number (if negative then -(Nat.ofDigitChars 10 cs 0 : ℤ) else Nat.ofDigitChars 10 cs 0)
  match text.toList.dropWhile isWhiteSpace with
  | '-' :: cs => digits true cs
  | '+' :: cs => digits false cs
  | cs => digits false cs

def nonEmpty (text : String) : Option String := if text = "" then none else some text

/-- A document as a task, if it has a front matter; `now` is for one that does not say when it was
created. -/
def parseTask (now : IsoDate) (document : String) : Option (Task β) :=
  (matchFrontmatter document.toList).map fun found =>
    { id := getValue found.1 "id"
      title := getValue found.1 "title"
      status := .ofText (getValue found.1 "status")
      deps := parseDeps (getValue found.1 "deps")
      parentId := nonEmpty (getValue found.1 "parentId")
      content := parseContent (String.ofList found.2)
      created := (nonEmpty (getValue found.1 "created")).getD now.text
      assignee := nonEmpty (getValue found.1 "assignee")
      priority := (nonEmpty (getValue found.1 "priority")).map parsePriority }

end Document

/-! ## What is written is read -/

variable {lines : List (List Char)} {key : String}

theorem splitOnP_joinLines {p : Char → Bool} (hbreak : p '\n' = true) (hne : lines ≠ [])
    (hfree : ∀ line ∈ lines, ∀ c ∈ line, p c = false) :
    (joinLines lines).splitOnP p = lines := by
  induction lines with
  | nil => exact absurd rfl hne
  | cons line lines ih =>
    have hline := hfree line mem_cons_self
    cases lines with
    | nil => exact splitOnP_eq_singleton hline
    | cons next lines =>
      rw [joinLines, splitOnP_append_cons_of_forall_mem hline _ hbreak,
        ih nofun fun other hother => hfree other (mem_cons_of_mem _ hother)]

theorem splitOnP_joinLines_append {p : Char → Bool} (hbreak : p '\n' = true) (hne : lines ≠ [])
    (hfree : ∀ line ∈ lines, ∀ c ∈ line, p c = false) (rest : List Char) :
    (joinLines lines ++ '\n' :: rest).splitOnP p = lines ++ rest.splitOnP p := by
  induction lines with
  | nil => exact absurd rfl hne
  | cons line lines ih =>
    have hline := hfree line mem_cons_self
    cases lines with
    | nil => exact splitOnP_append_cons_of_forall_mem hline _ hbreak rest
    | cons next lines =>
      rw [joinLines, append_assoc, cons_append,
        splitOnP_append_cons_of_forall_mem hline _ hbreak,
        ih nofun fun other hother => hfree other (mem_cons_of_mem _ hother)]
      rfl

theorem takeFrontmatter_append (hdashes : dashes ∉ lines) (next : List Char) (rest : List (List Char)) :
    takeFrontmatter (lines ++ dashes :: next :: rest) = some (lines, next :: rest) := by
  induction lines with
  | nil => rfl
  | cons line lines ih =>
    have hline : line ≠ dashes := fun h => hdashes (h ▸ mem_cons_self)
    have hrest := ih fun h => hdashes (mem_cons_of_mem _ h)
    cases lines with
    | nil =>
      show (if line = dashes then some ([], dashes :: next :: rest) else
        (takeFrontmatter (dashes :: next :: rest)).map fun found => (line :: found.1, found.2)) = _
      rw [if_neg hline, nil_append] at *
      rw [hrest]
      rfl
    | cons second lines =>
      show (if line = dashes then some ([], second :: (lines ++ dashes :: next :: rest)) else
        (takeFrontmatter (second :: lines ++ dashes :: next :: rest)).map
          fun found => (line :: found.1, found.2)) = _
      rw [if_neg hline, hrest]
      rfl

theorem joinLines_eq_intercalate (lines : List (List Char)) :
    joinLines lines = ['\n'].intercalate lines := by
  induction lines with
  | nil => rfl
  | cons line lines ih =>
    cases lines with
    | nil => simp [joinLines, List.intercalate]
    | cons next lines =>
      rw [joinLines, ih]
      simp [List.intercalate]

theorem joinLines_splitOn (text : List Char) : joinLines (text.splitOn '\n') = text := by
  rw [joinLines_eq_intercalate, intercalate_splitOn]

/-- The front matter of a document is found when none of its lines is broken. -/
theorem matchFrontmatter_eq (body : List Char) (hne : lines ≠ [])
    (hfree : ∀ line ∈ lines, ∀ c ∈ line, (c == '\n') = false) (hdashes : dashes ∉ lines) :
    matchFrontmatter (joinLines (dashes :: lines ++ [dashes]) ++ '\n' :: body) =
      some (joinLines lines, body) := by
  have hsplit : (joinLines (dashes :: lines ++ [dashes]) ++ '\n' :: body).splitOn '\n' =
      dashes :: (lines ++ dashes :: body.splitOn '\n') := by
    have hfree' : ∀ line ∈ dashes :: lines ++ [dashes], ∀ c ∈ line, (c == '\n') = false := by
      intro line hline
      rcases mem_append.mp hline with hmem | hlast
      · rcases mem_cons.mp hmem with rfl | hmem
        · simp [dashes]
        · exact hfree line hmem
      · rw [mem_singleton.mp hlast]
        simp [dashes]
    have hjoined : dashes :: lines ++ [dashes] ≠ [] := by simp
    rw [List.splitOn, splitOnP_joinLines_append (p := (· == '\n')) rfl hjoined hfree',
      append_assoc]
    rfl
  obtain ⟨next, rest, hbody⟩ : ∃ next rest, body.splitOn '\n' = next :: rest :=
    exists_cons_of_ne_nil (splitOnP_ne_nil _ _)
  have hjoin : joinLines (next :: rest) = body := by
    rw [← hbody, joinLines_splitOn]
  cases lines with
  | nil => exact absurd rfl hne
  | cons first lines =>
    have hrest : dashes ∉ lines := fun h => hdashes (mem_cons_of_mem _ h)
    rw [matchFrontmatter, hsplit, hbody]
    simp only [cons_append, if_true, takeFrontmatter_append hrest, map_some, hjoin]

/-! ### Fields -/

/-- A text that can be the key of a field. -/
def IsKey (key : String) : Prop := ∀ c ∈ key.toList, c ≠ ':' ∧ isLineTerminator c = false

theorem append_colon_inj {a b rest rest' : List Char} (ha : ∀ c ∈ a, c ≠ ':')
    (hb : ∀ c ∈ b, c ≠ ':') (h : a ++ ':' :: rest = b ++ ':' :: rest') : a = b := by
  induction a generalizing b with
  | nil =>
    cases b with
    | nil => rfl
    | cons c b =>
      injection h with hc
      exact absurd hc.symm (hb c mem_cons_self)
  | cons c a ih =>
    cases b with
    | nil =>
      injection h with hc
      exact absurd hc (ha c mem_cons_self)
    | cons d b =>
      injection h with hc hrest
      rw [hc, ih (fun c hc => ha c (mem_cons_of_mem _ hc))
        (fun c hc => hb c (mem_cons_of_mem _ hc)) hrest]

/-- A line starts with the key of its own field only. -/
theorem isPrefixOf_fieldLine {other value : String} (hkey : IsKey key) (hother : IsKey other) :
    (key.toList ++ [':', ' ']).isPrefixOf (fieldLine other value) = decide (other = key) := by
  by_cases h : other = key
  · rw [h, decide_eq_true rfl, isPrefixOf_iff_prefix]
    exact ⟨value.toList, by simp [fieldLine]⟩
  · rw [decide_eq_false h]
    by_contra hstart
    rw [Bool.not_eq_false, isPrefixOf_iff_prefix] at hstart
    obtain ⟨rest, hrest⟩ := hstart
    rw [fieldLine, append_assoc, cons_append] at hrest
    have hsame := append_colon_inj (fun c hc => (hkey c hc).1) (fun c hc => (hother c hc).1) hrest
    exact h (String.toList_inj.mp hsame).symm

theorem oneLine_fieldLine {value : String} (hkey : IsKey key) (hvalue : OneLine value) :
    ∀ c ∈ fieldLine key value, isLineTerminator c = false := by
  intro c hc
  rw [fieldLine, mem_append, mem_cons, mem_cons] at hc
  rcases hc with hkey' | rfl | rfl | hvalue'
  · exact (hkey c hkey').2
  · decide
  · decide
  · exact hvalue c hvalue'

/-- The value of a key is the first one that was written for it. -/
theorem getValue_joinLines {pairs : List (String × String)} (hkey : IsKey key) (hne : pairs ≠ [])
    (hpairs : ∀ pair ∈ pairs, IsKey pair.1 ∧ OneLine pair.2) :
    getValue (joinLines (pairs.map fun pair => fieldLine pair.1 pair.2)) key =
      ((pairs.find? fun pair => pair.1 = key).map (·.2)).getD "" := by
  have hlines : ∀ line ∈ pairs.map fun pair => fieldLine pair.1 pair.2, ∀ c ∈ line,
      isLineTerminator c = false := by
    intro line hline
    obtain ⟨pair, hpair, rfl⟩ := List.mem_map.mp hline
    exact oneLine_fieldLine (hpairs pair hpair).1 (hpairs pair hpair).2
  have hfind : ∀ rest : List (String × String), (∀ pair ∈ rest, IsKey pair.1) →
      (rest.map fun pair => fieldLine pair.1 pair.2).find?
        (fun line => (key.toList ++ [':', ' ']).isPrefixOf line) =
      (rest.find? fun pair => pair.1 = key).map fun pair => fieldLine pair.1 pair.2 := by
    intro rest hrest
    induction rest with
    | nil => rfl
    | cons pair rest ih =>
      have hrest' := ih fun other hother => hrest other (mem_cons_of_mem _ hother)
      rw [map_cons, find?_cons, find?_cons,
        isPrefixOf_fieldLine hkey (hrest pair mem_cons_self), hrest']
      by_cases h : pair.1 = key
      · rw [decide_eq_true h]
        rfl
      · rw [decide_eq_false h]
  rw [getValue, splitOnP_joinLines (p := isLineTerminator) rfl (by simpa using hne) hlines,
    hfind pairs fun pair hpair => (hpairs pair hpair).1]
  cases hfound : pairs.find? fun pair => pair.1 = key with
  | none => rfl
  | some pair =>
    have hpair : pair.1 = key := by simpa using find?_some hfound
    simp [fieldLine, hpair]

/-! ### Tasks in one line each -/

/-- A task whose fields are each in one line. -/
structure OneLineTask {β : Type} (task : Task β) : Prop where
  id : OneLine task.id
  title : OneLine task.title
  status : OneLine task.status.text
  deps : ∀ dep ∈ task.deps, OneLine dep
  parentId : ∀ parentId ∈ task.parentId, OneLine parentId
  created : OneLine task.created
  assignee : ∀ assignee ∈ task.assignee, OneLine assignee

theorem oneLine_joinDeps {deps : List String} (h : ∀ dep ∈ deps, OneLine dep) :
    ∀ c ∈ joinDeps deps, isLineTerminator c = false := by
  induction deps with
  | nil => nofun
  | cons dep deps ih =>
    have hdep := h dep mem_cons_self
    have hrest := ih fun other hother => h other (mem_cons_of_mem _ hother)
    cases deps with
    | nil => exact hdep
    | cons next deps =>
      intro c hc
      rw [joinDeps, mem_append, mem_cons, mem_cons] at hc
      rcases hc with hc | rfl | rfl | hc
      · exact hdep c hc
      · decide
      · decide
      · exact hrest c hc

theorem oneLine_depsText {deps : List String} (h : ∀ dep ∈ deps, OneLine dep) :
    OneLine (depsText deps) := by
  intro c hc
  rw [depsText, String.toList_ofList, mem_append, mem_cons, mem_singleton] at hc
  rcases hc with (rfl | hc) | rfl
  · decide
  · exact oneLine_joinDeps h c hc
  · decide

theorem oneLine_of_isDigit {c : Char} (h : c.isDigit = true) : isLineTerminator c = false := by
  by_contra hbreak
  rw [Bool.not_eq_false] at hbreak
  simp only [isLineTerminator, Bool.or_eq_true, beq_iff_eq] at hbreak
  rcases hbreak with ((rfl | rfl) | rfl) | rfl
  · cases h
  · cases h
  · cases h
  · cases h

theorem oneLine_priority (priority : Priority) : OneLine priority.text := by
  have hnat : ∀ n : ℕ, ∀ c ∈ n.repr.toList, isLineTerminator c = false := by
    intro n c hc
    rw [Nat.repr, String.toList_ofList] at hc
    exact oneLine_of_isDigit (Nat.isDigit_of_mem_toDigits (by decide) (by decide) hc)
  cases priority with
  | nan =>
    intro c hc
    simp only [Priority.text, String.reduceToList, mem_cons, not_mem_nil, or_false] at hc
    rcases hc with rfl | rfl | rfl
    · decide
    · decide
    · decide
  | number n =>
    cases n with
    | ofNat n => exact hnat n
    | negSucc n =>
      intro c hc
      rw [Priority.text, Int.repr, String.toList_append, mem_append] at hc
      rcases hc with hminus | hdigits
      · rw [mem_singleton.mp hminus]
        decide
      · exact hnat _ c hdigits

theorem isKey_of_mem
    (h : key ∈ ["id", "title", "status", "deps", "created", "parentId", "assignee", "priority"]) :
    IsKey key := by
  simp only [mem_cons, not_mem_nil, or_false] at h
  rcases h with rfl | rfl | rfl | rfl | rfl | rfl | rfl | rfl <;>
    simp [IsKey, isLineTerminator]

section RoundTrip

variable {β : Type} {renderContent : β → String} {parseContent : String → β} {task : Task β}

theorem fields_spec (h : OneLineTask task) :
    ∀ field ∈ fields task, IsKey field.1 ∧ OneLine field.2 := by
  intro field hfield
  simp only [fields, cons_append, nil_append, mem_cons, mem_append,
    mem_toList, map_eq_some_iff, filter_eq_some_iff] at hfield
  rcases hfield with rfl | rfl | rfl | rfl | rfl | (⟨parentId, ⟨hparent, -⟩, rfl⟩ |
    ⟨assignee, ⟨hassignee, -⟩, rfl⟩) | ⟨priority, -, rfl⟩
  · exact ⟨isKey_of_mem (by simp), h.id⟩
  · exact ⟨isKey_of_mem (by simp), h.title⟩
  · exact ⟨isKey_of_mem (by simp), h.status⟩
  · exact ⟨isKey_of_mem (by simp), oneLine_depsText h.deps⟩
  · exact ⟨isKey_of_mem (by simp), h.created⟩
  · exact ⟨isKey_of_mem (by simp), h.parentId parentId hparent⟩
  · exact ⟨isKey_of_mem (by simp), h.assignee assignee hassignee⟩
  · exact ⟨isKey_of_mem (by simp), oneLine_priority priority⟩

theorem find?_fields_id : (fields task).find? (fun field => field.1 = "id") = some ("id", task.id) :=
  rfl

/-- The parent of a task is the only field of that name. -/
theorem find?_fields_parentId :
    ((fields task).find? fun field => field.1 = "parentId") =
      (task.parentId.filter (· ≠ "")).map ("parentId", ·) := by
  have hrest : ∀ rest : List (String × String), (∀ field ∈ rest, field.1 ≠ "parentId") →
      (rest.find? fun field => field.1 = "parentId") = none := by
    intro rest hrest
    exact find?_eq_none.mpr fun field hfield => by simpa using hrest field hfield
  have hassignee : ∀ field ∈ ((task.assignee.filter (· ≠ "")).map ("assignee", ·)).toList,
      field.1 ≠ "parentId" := by
    intro field hfield
    obtain ⟨assignee, -, rfl⟩ := map_eq_some_iff.mp (mem_toList.mp hfield)
    simp
  have hpriority : ∀ field ∈ (task.priority.map fun priority =>
      ("priority", priority.text)).toList, field.1 ≠ "parentId" := by
    intro field hfield
    obtain ⟨priority, -, rfl⟩ := map_eq_some_iff.mp (mem_toList.mp hfield)
    simp
  rw [fields, find?_append, find?_append, find?_append, hrest _ hassignee,
    hrest _ hpriority, hrest _ (by simp)]
  cases task.parentId.filter (· ≠ "") with
  | none => rfl
  | some parentId => simp

theorem nonEmpty_getD (value : Option String) :
    nonEmpty ((value.filter (· ≠ "")).getD "") = value.filter (· ≠ "") := by
  cases hvalue : value.filter (· ≠ "") with
  | none => rfl
  | some text =>
    have hne : text ≠ "" := by simpa using (filter_eq_some_iff.mp hvalue).2
    rw [getD_some, nonEmpty, if_neg hne]

/-- The front matter of a written task. -/
theorem matchFrontmatter_serializeTask (renderContent : β → String) (h : OneLineTask task) :
    ∃ body, matchFrontmatter (serializeTask renderContent task).toList =
      some (joinLines ((fields task).map fun field => fieldLine field.1 field.2), body) := by
  have hfields := fields_spec h
  have hbreak : ∀ line ∈ (fields task).map fun field => fieldLine field.1 field.2, ∀ c ∈ line,
      (c == '\n') = false := by
    intro line hline c hc
    obtain ⟨field, hfield, rfl⟩ := List.mem_map.mp hline
    have hfree := oneLine_fieldLine (hfields field hfield).1 (hfields field hfield).2 c hc
    simp only [isLineTerminator, Bool.or_eq_false_iff] at hfree
    exact hfree.1.1.1
  have hdashes : dashes ∉ (fields task).map fun field => fieldLine field.1 field.2 := by
    -- a line of a field has a colon
    intro hmem
    obtain ⟨field, -, hline⟩ := List.mem_map.mp hmem
    have hcolon : ':' ∈ dashes := by
      rw [← hline, fieldLine]
      simp
    simp [dashes] at hcolon
  refine ⟨'\n' :: (renderContent task.content).toList, ?_⟩
  rw [serializeTask, String.toList_ofList]
  exact matchFrontmatter_eq _ (by simp [fields]) hbreak hdashes

/-- A task whose fields are each in one line is read with its id and its parent. -/
theorem parseTask_serializeTask (renderContent : β → String) (parseContent : String → β)
    (now : IsoDate) (h : OneLineTask task) :
    ∃ read, parseTask parseContent now (serializeTask renderContent task) = some read ∧
      read.id = task.id ∧ read.parentId = task.parentId.filter (· ≠ "") := by
  obtain ⟨body, hmatch⟩ := matchFrontmatter_serializeTask renderContent h
  have hvalue : ∀ key, IsKey key →
      getValue (joinLines ((fields task).map fun field => fieldLine field.1 field.2)) key =
        (((fields task).find? fun field => field.1 = key).map (·.2)).getD "" :=
    fun key hkey => getValue_joinLines hkey (by simp [fields]) (fields_spec h)
  rw [parseTask, hmatch, map_some]
  refine ⟨_, rfl, ?_, ?_⟩
  · show getValue _ "id" = task.id
    rw [hvalue "id" (isKey_of_mem (by simp)), find?_fields_id]
    rfl
  · show nonEmpty (getValue _ "parentId") = _
    rw [hvalue "parentId" (isKey_of_mem (by simp)), find?_fields_parentId, Option.map_map]
    have hcomp : (fun field : String × String => field.2) ∘ (("parentId", ·)) = id := rfl
    rw [hcomp, Option.map_id, id, nonEmpty_getD]

/-! ### What is read -/

theorem of_mem_splitOnP {p : Char → Bool} {cs : List Char} :
    ∀ piece ∈ cs.splitOnP p, ∀ c ∈ piece, c ∈ cs ∧ p c = false := by
  induction cs with
  | nil =>
    intro piece hpiece c hc
    rw [splitOnP_nil, mem_singleton] at hpiece
    rw [hpiece] at hc
    cases hc
  | cons d cs ih =>
    obtain ⟨first, rest, hsplit⟩ : ∃ first rest, cs.splitOnP p = first :: rest :=
      exists_cons_of_ne_nil (splitOnP_ne_nil _ _)
    intro piece hpiece c hc
    have hold : ∀ old ∈ cs.splitOnP p, c ∈ old → c ∈ d :: cs ∧ p c = false := fun old hmem hc =>
      ⟨mem_cons_of_mem _ (ih old hmem c hc).1, (ih old hmem c hc).2⟩
    rw [splitOnP_cons_eq_if_modifyHead] at hpiece
    split at hpiece
    · rcases mem_cons.mp hpiece with rfl | hmem
      · cases hc
      · exact hold piece hmem hc
    · next hd =>
      rw [hsplit, modifyHead_cons, mem_cons] at hpiece
      rw [hsplit] at hold
      rcases hpiece with rfl | hmem
      · rcases mem_cons.mp hc with rfl | hc
        · exact ⟨mem_cons_self, by simpa using hd⟩
        · exact hold first mem_cons_self hc
      · exact hold piece (mem_cons_of_mem _ hmem) hc

theorem oneLine_getValue (frontmatter : List Char) (key : String) :
    OneLine (getValue frontmatter key) := by
  simp only [getValue]
  split
  · next line hline =>
    intro c hc
    rw [String.toList_ofList] at hc
    exact (of_mem_splitOnP line (mem_of_find?_eq_some hline) c (mem_of_mem_drop hc)).2
  · nofun

theorem oneLine_parseDeps {text : String} (h : OneLine text) :
    ∀ dep ∈ parseDeps text, OneLine dep := by
  intro dep hdep
  unfold parseDeps at hdep
  split at hdep
  · cases hdep
  · next inner hinner =>
    obtain ⟨piece, hpiece, rfl⟩ := List.mem_map.mp (mem_filter.mp hdep).1
    intro c hc
    rw [String.toList_ofList, trimChars] at hc
    have hmem : c ∈ inner := by
      have hdrop := (List.rdropWhile_prefix _ _).subset hc
      exact (of_mem_splitOnP piece hpiece c ((dropWhile_suffix _).subset hdrop)).1
    unfold betweenBrackets at hinner
    simp only at hinner
    split at hinner
    · cases hinner
    · rw [← some.inj hinner] at hmem
      have hclosed := (List.rdropWhile_prefix _ _).subset (mem_of_mem_dropLast hmem)
      exact h c ((dropWhile_suffix _).subset (mem_of_mem_drop hclosed))

theorem oneLine_of_nonEmpty {text value : String} (h : OneLine text)
    (hvalue : value ∈ nonEmpty text) : OneLine value := by
  unfold nonEmpty at hvalue
  split at hvalue
  · cases hvalue
  · rw [← some.inj hvalue]
    exact h

theorem text_ofText (text : String) : (TaskStatus.ofText text).text = text := by
  unfold TaskStatus.ofText
  split_ifs with h h h h h
  · exact h.symm
  · exact h.symm
  · exact h.symm
  · exact h.symm
  · exact h.symm
  · rfl

/-- What is read is in one line each. -/
theorem oneLine_parseTask {now : IsoDate} {document : String}
    (h : parseTask parseContent now document = some task) : OneLineTask task := by
  obtain ⟨found, -, rfl⟩ := map_eq_some_iff.mp h
  refine
    { id := oneLine_getValue _ _
      title := oneLine_getValue _ _
      status := ?_
      deps := oneLine_parseDeps (oneLine_getValue _ _)
      parentId := fun parentId hparent => oneLine_of_nonEmpty (oneLine_getValue _ _) hparent
      created := ?_
      assignee := fun assignee hassignee => oneLine_of_nonEmpty (oneLine_getValue _ _) hassignee }
  · show OneLine (TaskStatus.ofText _).text
    rw [text_ofText]
    exact oneLine_getValue _ _
  · show OneLine ((nonEmpty _).getD now.text)
    cases hcreated : nonEmpty (getValue found.1 "created") with
    | none => exact now.oneLine
    | some created => exact oneLine_of_nonEmpty (oneLine_getValue _ _) hcreated

end RoundTrip

end Orqara.TaskFiles
