import Mathlib

/-!
# Whole numbers in JavaScript

A row of decimal digits read by `Number`, which rounds to a double, and the text
that `toString` gives: the shortest decimal number that is read back as the same
double. A text is the list of its code units.
-/

namespace Orqara

/-- A double that is a whole number from zero on, or `Infinity`. -/
inductive JsNumber
  | finite (value : ℕ)
  | infinity
  deriving DecidableEq

namespace JsNumber

/-- The nearest number with 53 significant bits, the even one of two. -/
def roundSignificand (n : ℕ) : ℕ :=
  let unit := 2 ^ (n.size - 53)
  let quotient := n / unit
  let remainder := n % unit
  let rounded := if 2 * remainder < unit ∨ 2 * remainder = unit ∧ quotient % 2 = 0 then quotient
    else quotient + 1
  rounded * unit

/-- The double a decimal number is read as. -/
def round (n : ℕ) : JsNumber :=
  if roundSignificand n < 2 ^ 1024 then finite (roundSignificand n) else infinity

/-- A whole number in decimal digits. -/
def decimal (n : ℕ) : List ℕ :=
  if n = 0 then [48] else ((Nat.digits 10 n).map (· + 48)).reverse

def isDigit (c : ℕ) : Bool := 48 ≤ c && c ≤ 57

/-- The value of a row of digits. -/
def digitsValue (digits : List ℕ) : ℕ :=
  Nat.ofDigits 10 (digits.reverse.map (· - 48))

/-- `Number(text)` of a text that `/^\d+$/` accepts. -/
def ofDigits (digits : List ℕ) : JsNumber :=
  round (digitsValue digits)

/-- The numbers with at most `k` significant digits next to `n`, the nearer first and of
two equally near the one with an even last digit. -/
def nextTo (n k : ℕ) : List ℕ :=
  let unit := 10 ^ ((Nat.digits 10 n).length - k)
  let lower := n / unit * unit
  if 2 * (n - lower) < unit ∨ 2 * (n - lower) = unit ∧ n / unit % 2 = 0 then
    [lower, lower + unit]
  else [lower + unit, lower]

/-- The shortest decimal number that is read as the double. -/
def shortest (n : ℕ) : ℕ :=
  (((List.range 18).flatMap (nextTo n)).find? fun m => round m = finite n).getD n

/-- From `1e21` on the exponent is written. -/
def exponential (m : ℕ) : List ℕ :=
  let digits := decimal m
  let exponent := [101, 43] ++ decimal (digits.length - 1)
  match digits.rdropWhile (· == 48) with
  | [] => exponent
  | [digit] => digit :: exponent
  | digit :: digits => digit :: 46 :: digits ++ exponent

/-- `toString` -/
def toText : JsNumber → List ℕ
  | finite n => if shortest n < 10 ^ 21 then decimal (shortest n) else exponential (shortest n)
  | infinity => [73, 110, 102, 105, 110, 105, 116, 121]

/-- The number is written in digits alone. -/
def WrittenInDigits : JsNumber → Prop
  | finite n => shortest n < 10 ^ 21
  | infinity => False

/-- A number that some row of digits is read as. -/
def IsRead (x : JsNumber) : Prop := ∃ n, round n = x

/-! ## Rounding -/

theorem roundSignificand_of_dvd {m : ℕ} (h : 2 ^ (m.size - 53) ∣ m) : roundSignificand m = m := by
  unfold roundSignificand
  dsimp only
  rw [Nat.mod_eq_zero_of_dvd h, if_pos (.inl (by positivity))]
  exact Nat.div_mul_cancel h

/-- A rounded number has 53 significant bits, so that rounding it again changes nothing. -/
theorem roundSignificand_twice (n : ℕ) :
    roundSignificand (roundSignificand n) = roundSignificand n := by
  apply roundSignificand_of_dvd
  have hquotient : n / 2 ^ (n.size - 53) < 2 ^ 53 := by
    apply Nat.div_lt_of_lt_mul
    rw [← pow_add]
    exact (Nat.lt_size_self n).trans_le (Nat.pow_le_pow_right (by omega) (by omega))
  obtain ⟨rounded, hle, heq⟩ : ∃ rounded ≤ 2 ^ 53,
      roundSignificand n = rounded * 2 ^ (n.size - 53) := by
    unfold roundSignificand
    dsimp only
    refine ⟨_, ?_, rfl⟩
    split <;> omega
  rw [heq]
  generalize n.size - 53 = e
  rcases Nat.lt_or_eq_of_le hle with hlt | rfl
  · have hsize : (rounded * 2 ^ e).size ≤ 53 + e := by
      apply Nat.size_le.mpr
      rw [pow_add]
      exact Nat.mul_lt_mul_of_pos_right hlt (by positivity)
    exact (pow_dvd_pow 2 (by omega)).trans (Dvd.intro_left rounded rfl)
  · -- the carry out of the last bit leaves a power of two
    have hsize : (2 ^ 53 * 2 ^ e).size = 53 + e + 1 := by
      rw [← pow_add, Nat.size_pow]
    rw [hsize, ← pow_add]
    exact pow_dvd_pow 2 (by omega)

theorem round_twice {n m : ℕ} (h : round n = finite m) : round m = finite m := by
  unfold round at h
  split at h
  · rename_i hsmall
    cases h
    rw [round, roundSignificand_twice, if_pos hsmall]
  · cases h

/-- What is written is read back. -/
theorem round_shortest {n : ℕ} (h : IsRead (finite n)) : round (shortest n) = finite n := by
  obtain ⟨raw, hraw⟩ := h
  unfold shortest
  cases hfind : ((List.range 18).flatMap (nextTo n)).find? fun m => round m = finite n with
  | none => exact round_twice hraw
  | some m => simpa using List.find?_some hfind

/-! ## Digits -/

theorem decimal_ne_nil (n : ℕ) : decimal n ≠ [] := by
  unfold decimal
  split
  · simp
  · rename_i hn
    simpa using (Nat.digits_ne_nil_iff_ne_zero.mpr hn)

theorem isDigit_decimal (n : ℕ) : ∀ c ∈ decimal n, isDigit c = true := by
  intro c hc
  unfold decimal at hc
  split at hc
  · rw [List.mem_singleton.mp hc]
    rfl
  · rw [List.mem_reverse, List.mem_map] at hc
    obtain ⟨d, hd, rfl⟩ := hc
    have hlt := Nat.digits_lt_base (by omega) hd
    simp only [isDigit, Bool.and_eq_true, decide_eq_true_eq]
    omega

theorem digitsValue_decimal (n : ℕ) : digitsValue (decimal n) = n := by
  unfold digitsValue decimal
  split
  · rename_i hn
    rw [hn]
    rfl
  · rw [List.reverse_reverse, List.map_map]
    have hsame : ((· - 48) ∘ (· + 48) : ℕ → ℕ) = id := by
      funext d
      simp
    rw [hsame, List.map_id, Nat.ofDigits_digits]

theorem ofDigits_toText {n : ℕ} (h : IsRead (finite n)) (digits : WrittenInDigits (finite n)) :
    ofDigits (toText (finite n)) = finite n := by
  have hsmall : shortest n < 10 ^ 21 := digits
  rw [toText, if_pos hsmall, ofDigits, digitsValue_decimal]
  exact round_shortest h

/-- A number that is not written in digits alone has another character in its text. -/
theorem toText_not_digits {x : JsNumber} (h : ¬ WrittenInDigits x) :
    ∃ digits c rest, toText x = digits ++ c :: rest ∧ (∀ d ∈ digits, isDigit d = true) ∧
      (c = 46 ∨ c = 101 ∨ c = 73) := by
  cases x with
  | infinity => exact ⟨[], 73, _, rfl, by simp, .inr (.inr rfl)⟩
  | finite n =>
    have hlarge : ¬ shortest n < 10 ^ 21 := h
    rw [toText, if_neg hlarge]
    unfold exponential
    dsimp only
    have hdigits : ∀ d ∈ (decimal (shortest n)).rdropWhile (· == 48), isDigit d = true := by
      intro d hd
      exact isDigit_decimal _ d ((List.rdropWhile_prefix _ _).subset hd)
    split
    · exact ⟨[], 101, _, rfl, by simp, .inr (.inl rfl)⟩
    · rename_i digit heq
      rw [heq] at hdigits
      exact ⟨[digit], 101, _, rfl, hdigits, .inr (.inl rfl)⟩
    · rename_i digit digits _ heq
      rw [heq] at hdigits
      refine ⟨[digit], 46, _, rfl, ?_, .inl rfl⟩
      intro d hd
      exact hdigits d (by rw [List.mem_singleton.mp hd]; exact List.mem_cons_self)

/-- Every character of a text stands in no sequence of its own: it is printable. -/
theorem printable_toText (x : JsNumber) : ∀ c ∈ toText x, 32 < c := by
  have hdecimal : ∀ n, ∀ c ∈ decimal n, 32 < c := by
    intro n c hc
    have := isDigit_decimal n c hc
    simp only [isDigit, Bool.and_eq_true, decide_eq_true_eq] at this
    omega
  have hexponent : ∀ n, ∀ c ∈ [101, 43] ++ decimal n, 32 < c := by
    intro n c hc
    simp only [List.cons_append, List.nil_append, List.mem_cons] at hc
    rcases hc with rfl | rfl | hc
    · omega
    · omega
    · exact hdecimal n c hc
  cases x with
  | infinity => simp [toText]
  | finite n =>
    rw [toText]
    split
    · exact hdecimal _
    · unfold exponential
      dsimp only
      have hkept : ∀ d ∈ (decimal (shortest n)).rdropWhile (· == 48), 32 < d := by
        intro d hd
        exact hdecimal _ d ((List.rdropWhile_prefix _ _).subset hd)
      split
      · exact hexponent _
      · rename_i digit heq
        rw [heq] at hkept
        intro c hc
        rcases List.mem_cons.mp hc with rfl | hc
        · exact hkept c (by simp)
        · exact hexponent _ c hc
      · rename_i digit digits _ heq
        rw [heq] at hkept
        intro c hc
        rw [List.cons_append, List.cons_append, List.mem_cons, List.mem_cons, List.mem_append] at hc
        rcases hc with rfl | rfl | hc | hc
        · exact hkept c (by simp)
        · omega
        · exact hkept c (List.mem_cons_of_mem _ hc)
        · exact hexponent _ c hc

end JsNumber

end Orqara
