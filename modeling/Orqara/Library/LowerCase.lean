import Orqara.Library.JsonParse

/-!
# Lower-casing a JavaScript string

`toLowerCase` works on the code points of a string: most are mapped one by one, by a table that is
a parameter here, the capital I with a dot becomes two, and the capital sigma is written in its
final form at the end of a word. A text is cut anywhere between its code units, and lower-casing a
piece need not give the piece of the lower-cased text.
-/

namespace Orqara.LowerCase

open JsonParse

/-- What `toLowerCase` reads of the Unicode character database. -/
structure CaseData where
  lower : ℕ → ℕ
  cased : ℕ → Bool
  caseIgnorable : ℕ → Bool

/-- The code points of a string; half of a surrogate pair that stands alone is one by itself. -/
def codePoints : Units → List ℕ
  | [] => []
  | [u] => [u.toNat]
  | u :: v :: rest =>
    if isHighSurrogate u && isLowSurrogate v then
      (0x10000 + (u.toNat - 0xD800) * 0x400 + (v.toNat - 0xDC00)) :: codePoints rest
    else
      u.toNat :: codePoints (v :: rest)

def unitsOfPoint (c : ℕ) : Units :=
  if c < 0x10000 then [UInt16.ofNat c]
  else [UInt16.ofNat (0xD800 + (c - 0x10000) / 0x400), UInt16.ofNat (0xDC00 + (c - 0x10000) % 0x400)]

/-- A cased letter comes first, but for some characters that case ignores. -/
def casedFirst (data : CaseData) : List ℕ → Bool
  | [] => false
  | c :: rest => data.cased c || (data.caseIgnorable c && casedFirst data rest)

def CAPITAL_I_WITH_DOT : ℕ := 0x130

def CAPITAL_SIGMA : ℕ := 0x3A3

/-- One code point, with those before it in reverse and those after it. -/
def lowerPoint (data : CaseData) (before after : List ℕ) (c : ℕ) : List ℕ :=
  if c = CAPITAL_I_WITH_DOT then [0x69, 0x307]
  else if c = CAPITAL_SIGMA then
    if casedFirst data before && !casedFirst data after then [0x3C2] else [0x3C3]
  else [data.lower c]

def lowerPoints (data : CaseData) : List ℕ → List ℕ → List ℕ
  | _, [] => []
  | before, c :: after => lowerPoint data before after c ++ lowerPoints data (c :: before) after

def toLowerCase (data : CaseData) (s : Units) : Units :=
  (lowerPoints data [] (codePoints s)).flatMap unitsOfPoint

/-- Every piece of the text lower-cases to the same piece of the lower-cased text. -/
def LowersPiecewise (data : CaseData) (text : Units) : Prop :=
  ∀ start length, toLowerCase data ((text.drop start).take length) =
    ((toLowerCase data text).drop start).take length

/-! ## Texts that lower-case piece by piece -/

/-- A code unit that is a code point of its own, and is mapped without regard to its place. -/
structure Plain (u : UInt16) : Prop where
  high : isHighSurrogate u = false
  low : isLowSurrogate u = false
  notDotted : u.toNat ≠ CAPITAL_I_WITH_DOT
  notSigma : u.toNat ≠ CAPITAL_SIGMA

variable {data : CaseData} {text : Units}

theorem codePoints_plain (h : ∀ u ∈ text, Plain u) : codePoints text = text.map UInt16.toNat := by
  induction text using codePoints.induct with
  | case1 => rfl
  | case2 u => rfl
  | case3 u v rest hpair _ =>
    have hhigh := (h u (by simp)).high
    rw [hhigh, Bool.false_and] at hpair
    contradiction
  | case4 u v rest hpair ih =>
    rw [codePoints, if_neg hpair, ih fun w hw => h w (List.mem_cons_of_mem _ hw)]
    rfl

theorem lowerPoints_plain (before : List ℕ) (h : ∀ u ∈ text, Plain u) :
    lowerPoints data before (text.map UInt16.toNat) =
      text.map fun u => data.lower u.toNat := by
  induction text generalizing before with
  | nil => rfl
  | cons u text ih =>
    have hu := h u (by simp)
    rw [List.map_cons, lowerPoints, lowerPoint, if_neg hu.notDotted, if_neg hu.notSigma,
      ih _ fun v hv => h v (List.mem_cons_of_mem _ hv)]
    rfl

theorem toLowerCase_plain (hdata : ∀ c < 0x10000, data.lower c < 0x10000)
    (h : ∀ u ∈ text, Plain u) :
    toLowerCase data text = text.map fun u => UInt16.ofNat (data.lower u.toNat) := by
  have hunits : ∀ u : UInt16, unitsOfPoint (data.lower u.toNat) =
      [UInt16.ofNat (data.lower u.toNat)] := by
    intro u
    exact if_pos (hdata _ u.toNat_lt)
  rw [toLowerCase, codePoints_plain h, lowerPoints_plain _ h, List.flatMap_map]
  simp only [hunits]
  exact List.flatMap_pure_eq_map _ _

/-- A text of plain characters lower-cases piece by piece. -/
theorem lowersPiecewise_of_plain (hdata : ∀ c < 0x10000, data.lower c < 0x10000)
    (h : ∀ u ∈ text, Plain u) : LowersPiecewise data text := by
  intro start length
  have hpiece : ∀ u ∈ (text.drop start).take length, Plain u := by
    intro u hu
    exact h u (List.mem_of_mem_drop (List.mem_of_mem_take hu))
  rw [toLowerCase_plain hdata hpiece, toLowerCase_plain hdata h, List.map_take, List.map_drop]

/-- Such a text does not grow. -/
theorem LowersPiecewise.length_le (h : LowersPiecewise data text) :
    (toLowerCase data text).length ≤ text.length := by
  have hall := h 0 text.length
  rw [List.drop_zero, List.take_length, List.drop_zero] at hall
  rw [hall]
  exact List.length_take_le _ _

end Orqara.LowerCase
