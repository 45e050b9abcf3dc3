import Orqara.Library.JsonParse
import Orqara.Library.Trimming

/-!
# Segments of a text to speak

A text is cut behind its sentences, a sentence that is too long behind its clauses, and a clause that
is too long at a space, or where it has to be cut.
-/

namespace Orqara.Speech

open JsonParse

/-- `\s` -/
def isBlank (u : UInt16) : Bool := isWhiteSpace (Char.ofNat u.toNat)

def space : UInt16 := 0x20

theorem isBlank_space : isBlank space = true := by decide

def trimUnits (units : Units) : Units := trimBy isBlank units

/-- `units.replace(/\s+/g, " ")`, behind white space or not. -/
def collapse : Bool → Units → Units
  | _, [] => []
  | behindBlank, u :: units =>
    if isBlank u then if behindBlank then collapse true units else space :: collapse true units
    else u :: collapse false units

/-- `units.split(/(?<=[marks])\s+/)` -/
def splitBehind (mark : UInt16 → Bool) : Units → List Units
  | [] => [[]]
  | [u] => [[u]]
  | u :: next :: units =>
    if mark u && isBlank next then [u] :: splitBehind mark ((next :: units).dropWhile isBlank)
    else
      match splitBehind mark (next :: units) with
      | [] => [[u]]
      | chunk :: chunks => (u :: chunk) :: chunks
termination_by units => units.length
decreasing_by
  · have hle := (List.dropWhile_suffix (l := next :: units) isBlank).length_le
    simp only [List.length_cons] at hle ⊢
    omega
  · simp

def isClauseMark (u : UInt16) : Bool := u = 0x2C || u = 0x3B || u = 0x3A

def isSentenceMark (u : UInt16) : Bool := u = 0x2E || u = 0x21 || u = 0x3F

/-- The last index up to `fromIndex`, if there is one. -/
def lastIndexOf (u : UInt16) (fromIndex : ℕ) (units : Units) : Option ℕ :=
  (List.range (fromIndex + 1)).reverse.find? fun i => units[i]? = some u

def cutIndex (maxChars : ℕ) (remaining : Units) : ℕ :=
  match lastIndexOf space maxChars remaining with
  | none => maxChars
  | some idx => if idx < maxChars / 2 then maxChars else idx

theorem cutIndex_pos {maxChars : ℕ} (hmax : 2 ≤ maxChars) (remaining : Units) :
    0 < cutIndex maxChars remaining := by
  unfold cutIndex
  split
  · omega
  · split <;> omega

/-- The loop over what remains. It ends as its cuts are not at the start. -/
def cutRemaining (maxChars : ℕ) (hmax : 2 ≤ maxChars) (remaining : Units) : List Units :=
  if maxChars < remaining.length then
    let idx := cutIndex maxChars remaining
    trimUnits (remaining.take idx) :: cutRemaining maxChars hmax (trimUnits (remaining.drop idx))
  else if 0 < remaining.length then [remaining]
  else []
termination_by remaining.length
decreasing_by
  have hpos := cutIndex_pos hmax remaining
  have hle := length_trimBy_le isBlank (remaining.drop (cutIndex maxChars remaining))
  rw [List.length_drop] at hle
  show (trimBy _ _).length < _
  omega

/-- The parts so far, and the clauses that are gathered for the next one. -/
structure ClauseParts where
  parts : List Units
  current : Units

def ClauseParts.pushCurrent (state : ClauseParts) : ClauseParts where
  parts := if trimUnits state.current = [] then state.parts else state.parts ++ [trimUnits state.current]
  current := []

/-- One clause, with the fragments that it has if it is too long. -/
def ClauseParts.addClause (maxChars : ℕ) (state : ClauseParts) (clause : Units)
    (fragments : List Units) : ClauseParts :=
  let clauseText := trimUnits clause
  if clauseText = [] then state
  else if maxChars < clauseText.length then
    { parts := state.pushCurrent.parts ++ fragments, current := [] }
  else if state.current = [] then { state with current := clauseText }
  else
    let candidate := state.current ++ [space] ++ clauseText
    if candidate.length ≤ maxChars then { state with current := candidate }
    else { state.pushCurrent with current := clauseText }

theorem splitBehind_ne_nil (mark : UInt16 → Bool) (units : Units) : splitBehind mark units ≠ [] := by
  induction units using splitBehind.induct mark with
  | case1 => simp [splitBehind]
  | case2 u => simp [splitBehind]
  | case3 u next units hcut ih => simp [splitBehind, hcut]
  | case4 u next units hcut hnil ih => exact absurd hnil ih
  | case5 u next units hcut chunk chunks hrest ih => simp [splitBehind, hcut, hrest]

theorem length_splitBehind (mark : UInt16 → Bool) (units : Units) :
    ∀ chunk ∈ splitBehind mark units,
      chunk.length + (splitBehind mark units).length ≤ units.length + 1 := by
  induction units using splitBehind.induct mark with
  | case1 => simp [splitBehind]
  | case2 u => simp [splitBehind]
  | case3 u next units hcut ih =>
    have hblank : isBlank next = true := (Bool.and_eq_true_iff.mp hcut).2
    have hless := (List.dropWhile_suffix (l := units) isBlank).length_le
    rw [splitBehind, if_pos hcut]
    rw [List.dropWhile_cons_of_pos hblank] at ih ⊢
    obtain ⟨first, rest, hsplit⟩ :=
      List.exists_cons_of_ne_nil (splitBehind_ne_nil mark (units.dropWhile isBlank))
    have hfirst := ih first (by rw [hsplit]; exact List.mem_cons_self)
    intro chunk hchunk
    simp only [List.length_cons]
    rcases List.mem_cons.mp hchunk with rfl | hmem
    · simp only [List.length_cons, List.length_nil]
      omega
    · have hle := ih chunk hmem
      omega
  | case4 u next units hcut hnil ih => exact absurd hnil (splitBehind_ne_nil _ _)
  | case5 u next units hcut chunk chunks hrest ih =>
    rw [splitBehind, if_neg hcut]
    simp only [hrest, List.mem_cons, List.length_cons] at ih ⊢
    intro other hother
    have hfirst := ih chunk (.inl rfl)
    rcases hother with rfl | hmem
    · simp only [List.length_cons]
      omega
    · have hle := ih other (.inr hmem)
      omega

def splitOversizedFragment (maxChars : ℕ) (hmax : 2 ≤ maxChars) (fragment : Units) : List Units :=
  let trimmed := trimUnits fragment
  if trimmed = [] then []
  else if trimmed.length ≤ maxChars then [trimmed]
  else
    let clauseChunks := splitBehind isClauseMark trimmed
    if hmany : 1 < clauseChunks.length then
      let state := clauseChunks.attach.foldl
        (fun state clause => state.addClause maxChars clause.1
          (splitOversizedFragment maxChars hmax (trimUnits clause.1)))
        (ClauseParts.mk [] [])
      let parts := state.pushCurrent.parts
      if 1 < parts.length ∨ parts.head? ≠ some trimmed then parts
      else cutRemaining maxChars hmax trimmed
    else cutRemaining maxChars hmax trimmed
termination_by fragment.length
decreasing_by
  have hshort := length_splitBehind isClauseMark (trimUnits fragment) clause.1 clause.2
  have htrimmed := length_trimBy_le isBlank fragment
  have hclause := length_trimBy_le isBlank clause.1
  simp only [trimUnits, clauseChunks, trimmed] at hshort hmany ⊢
  omega

structure TtsSegment where
  index : ℕ
  text : Units
  deriving DecidableEq

def maxTtsSegmentChars : ℕ := 260

def splitTextForTts (text : Units) : Except String (List TtsSegment) :=
  let normalized := collapse false (trimUnits text)
  if normalized = [] then .error "Cannot synthesize empty text"
  else
    let fragments := (splitBehind isSentenceMark normalized).flatMap
      (splitOversizedFragment maxTtsSegmentChars (by decide))
    .ok (fragments.zipIdx.map fun (fragment, segmentIndex) => ⟨segmentIndex, fragment⟩)

end Orqara.Speech
