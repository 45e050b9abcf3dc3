import Mathlib

/-!
# JavaScript strings

What `trim`, `length` and the default order of `sort` do to a string, and the
strings that trimming leaves as they are.
-/

namespace Orqara

/-- White space and line terminators, the characters that `trim` removes. -/
def isWhiteSpace (c : Char) : Bool :=
  (0x09 ≤ c.val && c.val ≤ 0x0D) || c.val == 0x20 || c.val == 0xA0 || c.val == 0x1680 ||
    (0x2000 ≤ c.val && c.val ≤ 0x200A) || c.val == 0x2028 || c.val == 0x2029 ||
    c.val == 0x202F || c.val == 0x205F || c.val == 0x3000 || c.val == 0xFEFF

/-- The characters without the white space at both ends. -/
def trimChars (cs : List Char) : List Char :=
  (cs.dropWhile isWhiteSpace).rdropWhile isWhiteSpace

/-- `s.trim()`. -/
def trim (s : String) : String :=
  String.ofList (trimChars s.toList)

/-- The trimmed string, unless nothing is left of it. -/
def trimNonEmpty (s : String) : Option String :=
  if (trim s).toList = [] then none else some (trim s)

/-- A string that trimming leaves as it is and that is not empty. -/
def Trimmed (s : String) : Prop := trimNonEmpty s = some s

instance (s : String) : Decidable (Trimmed s) := inferInstanceAs (Decidable (_ = _))

/-- The UTF-16 code units of one character. -/
def codeUnits (c : Char) : List ℕ :=
  if c.val.toNat < 0x10000 then [c.val.toNat]
  else [0xD800 + (c.val.toNat - 0x10000) / 0x400, 0xDC00 + (c.val.toNat - 0x10000) % 0x400]

/-- The UTF-16 code units of a string; `s.length` is their number. -/
def utf16 (s : String) : List ℕ :=
  s.toList.flatMap codeUnits

/-- The default order of `sort`. -/
def codeUnitLE (s t : String) : Bool :=
  decide (utf16 s ≤ utf16 t)

/-! ## Trimming -/

theorem dropWhile_rdropWhile (p : Char → Bool) (cs : List Char) :
    (((cs.dropWhile p).rdropWhile p).dropWhile p) = (cs.dropWhile p).rdropWhile p := by
  cases h : cs.dropWhile p with
  | nil => simp
  | cons c rest =>
    have hc : p c = false := by
      have := List.head?_dropWhile_not p cs
      simpa [h] using this
    have hstart : ((c :: rest).rdropWhile p) <+: c :: rest :=
      List.rdropWhile_prefix p (c :: rest)
    cases hr : (c :: rest).rdropWhile p with
    | nil => rfl
    | cons d others =>
      obtain rfl : d = c := (List.cons_prefix_cons.mp (hr ▸ hstart)).1
      rw [List.dropWhile_cons_of_neg (by simp [hc])]

theorem trimChars_trimChars (cs : List Char) : trimChars (trimChars cs) = trimChars cs := by
  unfold trimChars
  rw [dropWhile_rdropWhile, List.rdropWhile_idempotent]

@[simp] theorem trim_trim (s : String) : trim (trim s) = trim s := by
  simp [trim, trimChars_trimChars]

variable {s : String}

theorem trimNonEmpty_trimmed {t : String} (h : trimNonEmpty s = some t) : Trimmed t := by
  unfold trimNonEmpty at h
  split at h
  · cases h
  · cases h
    simp_all [Trimmed, trimNonEmpty]

theorem trimChars_eq_self_iff {cs : List Char} :
    trimChars cs = cs ↔
      (∀ c ∈ cs.head?, isWhiteSpace c = false) ∧ ∀ c ∈ cs.getLast?, isWhiteSpace c = false := by
  have hhead : cs.dropWhile isWhiteSpace = cs ↔ ∀ c ∈ cs.head?, isWhiteSpace c = false := by
    cases cs with
    | nil => simp
    | cons c rest => simp [List.dropWhile_eq_self_iff]
  have hlast : cs.rdropWhile isWhiteSpace = cs ↔ ∀ c ∈ cs.getLast?, isWhiteSpace c = false := by
    rw [List.rdropWhile_eq_self_iff]
    constructor
    · intro h c hc
      obtain ⟨init, rfl⟩ := List.getLast?_eq_some_iff.mp hc
      simpa using h (by simp)
    · intro h hne
      simpa using h _ (List.getLast?_eq_some_getLast hne)
  rw [← hhead, ← hlast]
  constructor
  · intro h
    have hdrop : cs.dropWhile isWhiteSpace = cs := by
      have := dropWhile_rdropWhile isWhiteSpace cs
      rwa [show (cs.dropWhile isWhiteSpace).rdropWhile isWhiteSpace = cs from h] at this
    exact ⟨hdrop, by rwa [trimChars, hdrop] at h⟩
  · intro h
    rw [trimChars, h.1, h.2]

theorem trimmed_iff :
    Trimmed s ↔ s.toList ≠ [] ∧ (∀ c ∈ s.toList.head?, isWhiteSpace c = false) ∧
      ∀ c ∈ s.toList.getLast?, isWhiteSpace c = false := by
  rw [← trimChars_eq_self_iff]
  unfold Trimmed trimNonEmpty trim
  constructor
  · intro h
    split at h
    · cases h
    · rename_i hne
      have heq := congrArg String.toList (Option.some.inj h)
      simp only [String.toList_ofList] at heq hne
      exact ⟨heq ▸ hne, heq⟩
  · rintro ⟨hne, heq⟩
    simp [heq, hne]

/-- A trimmed string stays trimmed behind a text that starts with a visible character. -/
theorem Trimmed.append (h : Trimmed s) {text : String}
    (visible : ∃ c, text.toList.head? = some c ∧ isWhiteSpace c = false) :
    Trimmed (text ++ s) := by
  obtain ⟨c, hc, hvisible⟩ := visible
  obtain ⟨hne, _, hlast⟩ := trimmed_iff.mp h
  apply trimmed_iff.mpr
  refine ⟨by simp [hne], ?_, ?_⟩
  · intro d hd
    rw [String.toList_append, List.head?_append, hc] at hd
    obtain rfl : c = d := by simpa using hd
    exact hvisible
  · intro d hd
    rw [String.toList_append, List.getLast?_append_of_ne_nil _ hne] at hd
    exact hlast d hd

/-- The head of a text with a fixed beginning. -/
theorem head?_toList_append {t : String} {c : Char} (h : s.toList.head? = some c) :
    (s ++ t).toList.head? = some c := by
  rw [String.toList_append, List.head?_append, h]
  rfl

/-- Rewriting characters one by one keeps a string trimmed when white space stays what it is. -/
theorem Trimmed.map (h : Trimmed s) {f : Char → Char} (hf : ∀ c, isWhiteSpace (f c) = isWhiteSpace c) :
    Trimmed (String.ofList (s.toList.map f)) := by
  obtain ⟨hne, hhead, hlast⟩ := trimmed_iff.mp h
  apply trimmed_iff.mpr
  simp only [String.toList_ofList]
  refine ⟨by simp [hne], ?_, ?_⟩
  · intro c hc
    simp only [List.head?_map, Option.mem_def, Option.map_eq_some_iff] at hc
    obtain ⟨d, hd, rfl⟩ := hc
    rw [hf, hhead d hd]
  · intro c hc
    simp only [List.getLast?_map, Option.mem_def, Option.map_eq_some_iff] at hc
    obtain ⟨d, hd, rfl⟩ := hc
    rw [hf, hlast d hd]

theorem Trimmed.ne_empty (h : Trimmed s) : s ≠ "" := by
  intro hs
  exact (trimmed_iff.mp h).1 (by simp [hs])

end Orqara
