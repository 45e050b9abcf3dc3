import Mathlib

/-!
# Base64

Bytes as text of the standard alphabet with padding, and a decoder that passes over whatever is
not of the alphabet. Texts are UTF-16 code units.
-/

namespace Orqara.Base64

/-! ## Encoding -/

def digit (n : ℕ) : UInt16 :=
  if n < 26 then UInt16.ofNat (65 + n)
  else if n < 52 then UInt16.ofNat (71 + n)
  else if n < 62 then UInt16.ofNat (n - 4)
  else if n = 62 then 43
  else 47

def padding : UInt16 := 61

def encode : List UInt8 → List UInt16
  | [] => []
  | [a] => [digit (a.toNat / 4), digit (a.toNat % 4 * 16), padding, padding]
  | [a, b] =>
    [digit (a.toNat / 4), digit (a.toNat % 4 * 16 + b.toNat / 16), digit (b.toNat % 16 * 4), padding]
  | a :: b :: c :: bytes =>
    digit (a.toNat / 4) :: digit (a.toNat % 4 * 16 + b.toNat / 16) ::
      digit (b.toNat % 16 * 4 + c.toNat / 64) :: digit (c.toNat % 64) :: encode bytes

/-! ## Decoding -/

/-- The value of a digit, in the standard alphabet or in the one for URLs. -/
def sextet (u : UInt16) : Option ℕ :=
  let n := u.toNat
  if 65 ≤ n ∧ n ≤ 90 then some (n - 65)
  else if 97 ≤ n ∧ n ≤ 122 then some (n - 71)
  else if 48 ≤ n ∧ n ≤ 57 then some (n + 4)
  else if n = 43 ∨ n = 45 then some 62
  else if n = 47 ∨ n = 95 then some 63
  else none

/-- The bytes of a row of sextets; bits that do not make a byte are left out. -/
def bytesOf : List ℕ → List UInt8
  | a :: b :: c :: d :: rest =>
    UInt8.ofNat (a * 4 + b / 16) :: UInt8.ofNat (b % 16 * 16 + c / 4) ::
      UInt8.ofNat (c % 4 * 64 + d) :: bytesOf rest
  | [a, b, c] => [UInt8.ofNat (a * 4 + b / 16), UInt8.ofNat (b % 16 * 16 + c / 4)]
  | [a, b] => [UInt8.ofNat (a * 4 + b / 16)]
  | _ => []

def decode (text : List UInt16) : List UInt8 := bytesOf (text.filterMap sextet)

/-! ## What is encoded is decoded to itself -/

theorem sextet_digit : ∀ n < 64, sextet (digit n) = some n := by decide

theorem filterMap_digit {n : ℕ} (h : n < 64) (text : List UInt16) :
    (digit n :: text).filterMap sextet = n :: text.filterMap sextet :=
  List.filterMap_cons_some (sextet_digit n h)

theorem filterMap_padding (text : List UInt16) :
    (padding :: text).filterMap sextet = text.filterMap sextet :=
  List.filterMap_cons_none (by decide)

theorem ofNat_eq {b : UInt8} {n : ℕ} (h : n = b.toNat) : UInt8.ofNat n = b := by
  rw [h, UInt8.ofNat_toNat]

theorem decode_encode (bytes : List UInt8) : decode (encode bytes) = bytes := by
  induction bytes using encode.induct with
  | case1 => rfl
  | case2 a =>
    have ha := a.toNat_lt
    rw [decode, encode, filterMap_digit (by omega), filterMap_digit (by omega), filterMap_padding,
      filterMap_padding, List.filterMap_nil, bytesOf, ofNat_eq]
    omega
  | case3 a b =>
    have ha := a.toNat_lt
    have hb := b.toNat_lt
    rw [decode, encode, filterMap_digit (by omega), filterMap_digit (by omega),
      filterMap_digit (by omega), filterMap_padding, List.filterMap_nil, bytesOf,
      ofNat_eq (b := a), ofNat_eq (b := b)]
    · omega
    · omega
  | case4 a b c bytes ih =>
    have ha := a.toNat_lt
    have hb := b.toNat_lt
    have hc := c.toNat_lt
    rw [decode] at ih
    rw [decode, encode, filterMap_digit (by omega), filterMap_digit (by omega),
      filterMap_digit (by omega), filterMap_digit (by omega), bytesOf, ih]
    congr 1
    · apply ofNat_eq
      omega
    · congr 1
      · apply ofNat_eq
        omega
      · congr 1
        apply ofNat_eq
        omega

/-- Three bytes at most of every four sextets. -/
theorem length_bytesOf (sextets : List ℕ) : (bytesOf sextets).length * 4 ≤ sextets.length * 3 := by
  induction sextets using bytesOf.induct with
  | case1 a b c d rest ih =>
    rw [bytesOf]
    simp only [List.length_cons]
    omega
  | case2 a b c => simp [bytesOf]
  | case3 a b => simp [bytesOf]
  | case4 sextets h₁ h₂ h₃ =>
    rw [bytesOf]
    · simp
    · exact h₁
    · exact h₂
    · exact h₃

/-- What is encoded is a row of digits with padding behind it. -/
theorem encode_eq_digits (bytes : List UInt8) : ∃ (sextets : List ℕ) (n : ℕ),
    (∀ sextet ∈ sextets, sextet < 64) ∧ encode bytes = sextets.map digit ++ List.replicate n padding := by
  induction bytes using encode.induct with
  | case1 => exact ⟨[], 0, nofun, rfl⟩
  | case2 a =>
    have ha := a.toNat_lt
    refine ⟨[a.toNat / 4, a.toNat % 4 * 16], 2, ?_, rfl⟩
    simp only [List.mem_cons, List.not_mem_nil, or_false]
    omega
  | case3 a b =>
    have ha := a.toNat_lt
    have hb := b.toNat_lt
    refine ⟨[a.toNat / 4, a.toNat % 4 * 16 + b.toNat / 16, b.toNat % 16 * 4], 1, ?_, rfl⟩
    simp only [List.mem_cons, List.not_mem_nil, or_false]
    omega
  | case4 a b c bytes ih =>
    have ha := a.toNat_lt
    have hb := b.toNat_lt
    have hc := c.toNat_lt
    obtain ⟨sextets, n, hlt, heq⟩ := ih
    refine ⟨a.toNat / 4 :: (a.toNat % 4 * 16 + b.toNat / 16) :: (b.toNat % 16 * 4 + c.toNat / 64) ::
      c.toNat % 64 :: sextets, n, ?_, by rw [encode, heq]; rfl⟩
    intro sextet hmem
    simp only [List.mem_cons] at hmem
    rcases hmem with rfl | rfl | rfl | rfl | hmem
    · omega
    · omega
    · omega
    · omega
    · exact hlt sextet hmem

end Orqara.Base64
