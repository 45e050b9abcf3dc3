import Orqara.Library.LowerCase
import Orqara.Search.EditBudget

/-!
# Ranked text matching

A query is matched against a text on their lower-cased code units: as a whole, as a substring, as a
scattered subsequence, or with typos. The score is a tier and an offset, of which lower ones are
better, and the ranges that are highlighted are derived from the score again.
-/

namespace Orqara.Search

open JsonParse LowerCase

structure MatchScore where
  tier : ℕ
  offset : ℕ
  spread : Option ℕ
  deriving DecidableEq

structure FuzzyPolicy where
  maxEdits : ℕ
  transpositionsOnly : Bool
  deriving DecidableEq

structure MatchOptions where
  fuzzy : Option FuzzyPolicy
  subsequence : Bool

def TIER_EXACT : ℕ := 0
def TIER_WHOLE_WORD : ℕ := 1
def TIER_PREFIX : ℕ := 2
def TIER_WORD_START : ℕ := 3
def TIER_SUBSTRING : ℕ := 4
def TIER_SUBSEQUENCE : ℕ := 5
def TIER_FUZZY : ℕ := 6

def isWordChar (ch : UInt16) : Bool :=
  (97 ≤ ch.toNat && ch.toNat ≤ 122) || (48 ≤ ch.toNat && ch.toNat ≤ 57)

def isWordBoundaryChar : Option UInt16 → Bool
  | none => true
  | some ch => !isWordChar ch

/-! ## Substrings -/

/-- The query is in the text at a position. -/
def occursAt (query text : Units) (pos : ℕ) : Bool :=
  query.isPrefixOf (text.drop pos) && pos + query.length ≤ text.length

/-- `text.indexOf(query, pos)`. -/
def indexOf (query text : Units) (pos : ℕ) : Option ℕ :=
  (List.range' pos (text.length + 1 - pos)).find? (occursAt query text)

def substringTier (query text : Units) (found : ℕ) : ℕ :=
  let before := if found > 0 then text[found - 1]? else none
  let after := text[found + query.length]?
  let startsAtBoundary := found = 0 ∨ isWordBoundaryChar before = true
  let endsAtBoundary := after = none ∨ isWordBoundaryChar after = true
  if startsAtBoundary ∧ endsAtBoundary then TIER_WHOLE_WORD
  else if found = 0 then TIER_PREFIX
  else if startsAtBoundary then TIER_WORD_START
  else TIER_SUBSTRING

/-- The better of the best score so far and the one of an occurrence. -/
def betterSubstring (best : Option MatchScore) (tier found : ℕ) : Option MatchScore :=
  match best with
  | none => some ⟨tier, found, none⟩
  | some score =>
    if tier < score.tier ∨ tier = score.tier ∧ found < score.offset then some ⟨tier, found, none⟩
    else some score

/-- The `while` loop; it has at most one turn for each position. -/
def substringLoop (query text : Units) : ℕ → ℕ → Option MatchScore → Option MatchScore
  | 0, _, best => best
  | turns + 1, pos, best =>
    if pos + query.length ≤ text.length then
      match indexOf query text pos with
      | none => best
      | some found =>
        substringLoop query text turns (found + 1)
          (betterSubstring best (substringTier query text found) found)
    else
      best

def scoreSubstringMatch (query text : Units) : Option MatchScore :=
  substringLoop query text (text.length + 1) 0 none

/-! ## Subsequences -/

/-- The positions that the walk over the text matches, in order, and what is left of the query. -/
def walk : ℕ → Units → Units → List ℕ × Units
  | _, query, [] => ([], query)
  | _, [], _ => ([], [])
  | textIndex, q :: query, t :: text =>
    if t = q then
      let rest := walk (textIndex + 1) query text
      (textIndex :: rest.1, rest.2)
    else
      walk (textIndex + 1) (q :: query) text

def scoreSubsequenceMatch (query text : Units) : Option MatchScore :=
  match walk 0 query text with
  | (firstIndex :: indices, []) =>
    some ⟨TIER_SUBSEQUENCE, firstIndex,
      some ((firstIndex :: indices).getLast (by simp) - firstIndex + 1)⟩
  | _ => none

/-! ## Typos -/

/-- The first position from which two strings differ. -/
def commonPrefix : Units → Units → ℕ
  | a :: s, b :: t => if a = b then commonPrefix s t + 1 else 0
  | _, _ => 0

def isAdjacentTransposition (query word : Units) : Bool :=
  let index := commonPrefix query word
  query.length = word.length && index + 1 < query.length &&
    (query[index]? = word[index + 1]? && query[index + 1]? = word[index]?) &&
    query.drop (index + 2) = word.drop (index + 2)

def transpositionDistance (query word : Units) : Option ℕ :=
  if isAdjacentTransposition query word then some 1 else none

/-- The runs of `[a-z0-9]` in a text with where they start; the run so far is kept beside. -/
def wordsFrom : ℕ → Option (ℕ × Units) → Units → List (ℕ × Units)
  | _, current, [] => current.toList
  | index, current, ch :: rest =>
    if isWordChar ch then
      match current with
      | none => wordsFrom (index + 1) (some (index, [ch])) rest
      | some (start, word) => wordsFrom (index + 1) (some (start, word ++ [ch])) rest
    else
      current.toList ++ wordsFrom (index + 1) none rest

def compareMatchScores (a b : MatchScore) : ℤ :=
  if a.tier ≠ b.tier then (a.tier : ℤ) - b.tier
  else if a.offset ≠ b.offset then (a.offset : ℤ) - b.offset
  else (a.spread.getD 0 : ℤ) - b.spread.getD 0

def candidateDistance (policy : FuzzyPolicy) (query candidate : Units) : Option ℕ :=
  if policy.transpositionsOnly then transpositionDistance query candidate
  else boundedEditDistance query candidate policy.maxEdits

/-- The better of the best score so far and the one of a candidate for a word. -/
def betterFuzzy (policy : FuzzyPolicy) (query : Units) (start : ℕ) (best : Option MatchScore)
    (candidate : Units) : Option MatchScore :=
  match candidateDistance policy query candidate, best with
  | none, best => best
  | some distance, none => some ⟨TIER_FUZZY, start, some distance⟩
  | some distance, some old =>
    if compareMatchScores ⟨TIER_FUZZY, start, some distance⟩ old < 0 then
      some ⟨TIER_FUZZY, start, some distance⟩
    else some old

def scoreFuzzyMatch (query text : Units) (policy : FuzzyPolicy) : Option MatchScore :=
  if policy.maxEdits = 0 ∨ query.length ≤ policy.maxEdits then
    none
  else
    (wordsFrom 0 none text).foldl (fun best (start, word) =>
      [word, word.take query.length, word.take (query.length + policy.maxEdits)].eraseDups.foldl
        (betterFuzzy policy query start) best) none

/-! ## The score and its ranges -/

def scoreMatch (data : CaseData) (query text : Units) (options : MatchOptions) : Option MatchScore :=
  if query = [] then
    some ⟨TIER_EXACT, 0, none⟩
  else
    let q := toLowerCase data query
    let t := toLowerCase data text
    if t = q then
      some ⟨TIER_EXACT, 0, none⟩
    else
      let exact := (scoreSubstringMatch q t).or
        (if options.subsequence then scoreSubsequenceMatch q t else none)
      exact.or (options.fuzzy.bind (scoreFuzzyMatch q t))

structure MatchRange where
  start : ℕ
  length : ℕ
  deriving DecidableEq

/-- The ranges so far with one index more; the last range comes first. -/
def pushIndex : List MatchRange → ℕ → List MatchRange
  | [], index => [⟨index, 1⟩]
  | last :: ranges, index =>
    if last.start + last.length = index then { last with length := last.length + 1 } :: ranges
    else ⟨index, 1⟩ :: last :: ranges

def mergeAdjacentRanges (indices : List ℕ) : List MatchRange :=
  (indices.foldl pushIndex []).reverse

def wordRangeAt (text : Units) (offset : ℕ) : MatchRange :=
  ⟨offset, max ((text.drop offset).takeWhile isWordChar).length 1⟩

def matchRanges (data : CaseData) (query text : Units) (score : MatchScore) : List MatchRange :=
  if query = [] then
    []
  else
    let q := toLowerCase data query
    let t := toLowerCase data text
    if score.tier = TIER_EXACT then [⟨0, text.length⟩]
    else if score.tier = TIER_FUZZY then [wordRangeAt t score.offset]
    else if score.tier = TIER_SUBSEQUENCE then mergeAdjacentRanges (walk 0 q t).1
    else [⟨score.offset, q.length⟩]

end Orqara.Search
