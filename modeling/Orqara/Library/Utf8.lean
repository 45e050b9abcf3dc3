import Mathlib

/-!
# UTF-8

The encoder of text and the decoder that puts a replacement character where the bytes are not
UTF-8: one for each longest run of bytes that begins a character and does not complete it.
-/

namespace Orqara.Utf8

/-! ## Encoding -/

def encodeChar (c : Char) : List UInt8 :=
  let n := c.toNat
  if n < 0x80 then [UInt8.ofNat n]
  else if n < 0x800 then [UInt8.ofNat (0xC0 + n / 0x40), UInt8.ofNat (0x80 + n % 0x40)]
  else if n < 0x10000 then
    [UInt8.ofNat (0xE0 + n / 0x1000), UInt8.ofNat (0x80 + n / 0x40 % 0x40),
      UInt8.ofNat (0x80 + n % 0x40)]
  else
    [UInt8.ofNat (0xF0 + n / 0x40000), UInt8.ofNat (0x80 + n / 0x1000 % 0x40),
      UInt8.ofNat (0x80 + n / 0x40 % 0x40), UInt8.ofNat (0x80 + n % 0x40)]

def encode (cs : List Char) : List UInt8 := cs.flatMap encodeChar

@[simp] theorem encode_nil : encode [] = [] := rfl

@[simp] theorem encode_cons (c : Char) (cs : List Char) :
    encode (c :: cs) = encodeChar c ++ encode cs := rfl

@[simp] theorem encode_append (cs ds : List Char) : encode (cs ++ ds) = encode cs ++ encode ds :=
  List.flatMap_append

/-! ## Decoding -/

def replacement : Char := '\uFFFD'

/-- A character that has begun: how many bytes it still needs, the bits it has, and the bounds
of its next byte. -/
structure Decoder where
  needed : ℕ
  codePoint : ℕ
  lower : ℕ
  upper : ℕ
  deriving DecidableEq

def idle : Decoder where
  needed := 0
  codePoint := 0
  lower := 0x80
  upper := 0xBF

/-- The first byte of a character. -/
def first (b : ℕ) : Decoder × List Char :=
  if b < 0x80 then (idle, [Char.ofNat b])
  else if 0xC2 ≤ b ∧ b ≤ 0xDF then (⟨1, b - 0xC0, 0x80, 0xBF⟩, [])
  else if 0xE0 ≤ b ∧ b ≤ 0xEF then
    (⟨2, b - 0xE0, if b = 0xE0 then 0xA0 else 0x80, if b = 0xED then 0x9F else 0xBF⟩, [])
  else if 0xF0 ≤ b ∧ b ≤ 0xF4 then
    (⟨3, b - 0xF0, if b = 0xF0 then 0x90 else 0x80, if b = 0xF4 then 0x8F else 0xBF⟩, [])
  else (idle, [replacement])

/-- One more byte, and the characters that it completes. -/
def Decoder.next (d : Decoder) (b : ℕ) : Decoder × List Char :=
  if d.needed = 0 then first b
  else if d.lower ≤ b ∧ b ≤ d.upper then
    if d.needed = 1 then (idle, [Char.ofNat (d.codePoint * 0x40 + (b - 0x80))])
    else (⟨d.needed - 1, d.codePoint * 0x40 + (b - 0x80), 0x80, 0xBF⟩, [])
  else
    -- the byte does not belong to the character, and is read again as the first of the next one
    ((first b).1, replacement :: (first b).2)

def Decoder.run (d : Decoder) : List UInt8 → List Char
  | [] => if d.needed = 0 then [] else [replacement]
  | b :: bs => (d.next b.toNat).2 ++ (d.next b.toNat).1.run bs

def decode (bs : List UInt8) : List Char := idle.run bs

@[simp] theorem decode_nil : decode [] = [] := rfl

/-! ## Encoded text is decoded to itself -/

theorem next_idle (b : ℕ) : idle.next b = first b := rfl

open Decoder

theorem Decoder.run_more {d d' : Decoder} {b : UInt8} (h : d.next b.toNat = (d', []))
    (bs : List UInt8) : d.run (b :: bs) = d'.run bs := by
  rw [run, h]
  rfl

theorem Decoder.run_emit {d : Decoder} {b : UInt8} {c : Char} (h : d.next b.toNat = (idle, [c]))
    (bs : List UInt8) : d.run (b :: bs) = c :: decode bs := by
  rw [run, h]
  rfl

theorem toNat_ofNat {n : ℕ} (h : n < 256) : (UInt8.ofNat n).toNat = n :=
  UInt8.toNat_ofNat_of_lt h

section Run

variable {needed codePoint lower upper b : ℕ}

/-- A byte between the bounds that is not the last of its character. -/
theorem run_continue (h : 1 < needed) (hb : lower ≤ b ∧ b ≤ upper) (hbyte : b < 256)
    (bs : List UInt8) :
    run ⟨needed, codePoint, lower, upper⟩ (UInt8.ofNat b :: bs) =
      run ⟨needed - 1, codePoint * 0x40 + (b - 0x80), 0x80, 0xBF⟩ bs := by
  apply run_more
  rw [toNat_ofNat hbyte]
  unfold next
  rw [if_neg (show ¬ needed = 0 by omega), if_pos hb, if_neg (show ¬ needed = 1 by omega)]

/-- The last byte of a character. -/
theorem run_last (hb : lower ≤ b ∧ b ≤ upper) (hbyte : b < 256) {c : Char}
    (hc : codePoint * 0x40 + (b - 0x80) = c.toNat) (bs : List UInt8) :
    run ⟨1, codePoint, lower, upper⟩ (UInt8.ofNat b :: bs) = c :: decode bs := by
  apply run_emit
  rw [toNat_ofNat hbyte]
  unfold next
  rw [if_neg (show ¬ 1 = 0 by omega), if_pos hb, if_pos rfl, hc, Char.ofNat_toNat]

theorem decode_one (hb : b < 0x80) (bs : List UInt8) :
    decode (UInt8.ofNat b :: bs) = Char.ofNat b :: decode bs := by
  apply run_emit
  rw [next_idle, toNat_ofNat (show b < 256 by omega), first, if_pos hb]

theorem decode_two (hb : 0xC2 ≤ b ∧ b ≤ 0xDF) (bs : List UInt8) :
    decode (UInt8.ofNat b :: bs) = run ⟨1, b - 0xC0, 0x80, 0xBF⟩ bs := by
  apply run_more
  rw [next_idle, toNat_ofNat (show b < 256 by omega), first, if_neg (show ¬ b < 0x80 by omega),
    if_pos hb]

theorem decode_three (hb : 0xE0 ≤ b ∧ b ≤ 0xEF) (bs : List UInt8) :
    decode (UInt8.ofNat b :: bs) =
      run ⟨2, b - 0xE0, if b = 0xE0 then 0xA0 else 0x80,
        if b = 0xED then 0x9F else 0xBF⟩ bs := by
  apply run_more
  rw [next_idle, toNat_ofNat (show b < 256 by omega), first, if_neg (show ¬ b < 0x80 by omega),
    if_neg (show ¬ (0xC2 ≤ b ∧ b ≤ 0xDF) by omega), if_pos hb]

theorem decode_four (hb : 0xF0 ≤ b ∧ b ≤ 0xF4) (bs : List UInt8) :
    decode (UInt8.ofNat b :: bs) =
      run ⟨3, b - 0xF0, if b = 0xF0 then 0x90 else 0x80,
        if b = 0xF4 then 0x8F else 0xBF⟩ bs := by
  apply run_more
  rw [next_idle, toNat_ofNat (show b < 256 by omega), first, if_neg (show ¬ b < 0x80 by omega),
    if_neg (show ¬ (0xC2 ≤ b ∧ b ≤ 0xDF) by omega),
    if_neg (show ¬ (0xE0 ≤ b ∧ b ≤ 0xEF) by omega), if_pos hb]

end Run

theorem decode_encodeChar_append (c : Char) (bs : List UInt8) :
    decode (encodeChar c ++ bs) = c :: decode bs := by
  have hvalid : c.toNat < 0xD800 ∨ 0xDFFF < c.toNat ∧ c.toNat < 0x110000 := c.valid
  unfold encodeChar
  generalize hn : c.toNat = n at hvalid
  by_cases h1 : n < 0x80
  · simp only [h1, if_true, List.cons_append, List.nil_append]
    rw [decode_one h1, ← hn, Char.ofNat_toNat]
  · by_cases h2 : n < 0x800
    · simp only [h1, h2, if_true, if_false, List.cons_append, List.nil_append]
      rw [decode_two (by omega)]
      exact run_last (by omega) (by omega) (by omega) bs
    · by_cases h3 : n < 0x10000
      · simp only [h1, h2, h3, if_true, if_false, List.cons_append, List.nil_append]
        rw [decode_three (by omega)]
        -- the bounds keep out long forms and surrogates
        have hlower : (if 0xE0 + n / 0x1000 = 0xE0 then 0xA0 else 0x80) ≤
            0x80 + n / 0x40 % 0x40 := by
          by_cases h : 0xE0 + n / 0x1000 = 0xE0
          · rw [if_pos h]
            omega
          · rw [if_neg h]
            omega
        have hupper : 0x80 + n / 0x40 % 0x40 ≤
            (if 0xE0 + n / 0x1000 = 0xED then 0x9F else 0xBF) := by
          by_cases h : 0xE0 + n / 0x1000 = 0xED
          · rw [if_pos h]
            omega
          · rw [if_neg h]
            omega
        rw [run_continue (by omega) ⟨hlower, hupper⟩ (by omega)]
        exact run_last (by omega) (by omega) (by omega) bs
      · simp only [h1, h2, h3, if_false, List.cons_append, List.nil_append]
        rw [decode_four (by omega)]
        -- the bounds keep out long forms and what is beyond the last character
        have hlower : (if 0xF0 + n / 0x40000 = 0xF0 then 0x90 else 0x80) ≤
            0x80 + n / 0x1000 % 0x40 := by
          by_cases h : 0xF0 + n / 0x40000 = 0xF0
          · rw [if_pos h]
            omega
          · rw [if_neg h]
            omega
        have hupper : 0x80 + n / 0x1000 % 0x40 ≤
            (if 0xF0 + n / 0x40000 = 0xF4 then 0x8F else 0xBF) := by
          by_cases h : 0xF0 + n / 0x40000 = 0xF4
          · rw [if_pos h]
            omega
          · rw [if_neg h]
            omega
        rw [run_continue (by omega) ⟨hlower, hupper⟩ (by omega),
          run_continue (by omega) (by omega) (by omega)]
        exact run_last (by omega) (by omega) (by omega) bs

theorem decode_encode_append (cs : List Char) (bs : List UInt8) :
    decode (encode cs ++ bs) = cs ++ decode bs := by
  induction cs with
  | nil => rfl
  | cons c cs ih =>
    rw [encode_cons, List.append_assoc, decode_encodeChar_append, ih]
    rfl

@[simp] theorem decode_encode (cs : List Char) : decode (encode cs) = cs := by
  have h := decode_encode_append cs []
  rw [List.append_nil, decode_nil, List.append_nil] at h
  exact h

/-- Bytes that are the encoding of a text. -/
def WellFormed (bs : List UInt8) : Prop := encode (decode bs) = bs

instance (bs : List UInt8) : Decidable (WellFormed bs) := inferInstanceAs (Decidable (_ = _))

theorem wellFormed_iff {bs : List UInt8} : WellFormed bs ↔ ∃ cs, encode cs = bs := by
  constructor
  · intro h
    exact ⟨decode bs, h⟩
  · rintro ⟨cs, rfl⟩
    rw [WellFormed, decode_encode]

/-! ## Lengths -/

/-- A character that has begun is owed at most one replacement. -/
theorem Decoder.length_next (d : Decoder) (b : ℕ) :
    (d.next b).2.length + (if (d.next b).1.needed = 0 then 0 else 1) ≤
      1 + if d.needed = 0 then 0 else 1 := by
  have hfirst : (first b).2.length + (if (first b).1.needed = 0 then 0 else 1) ≤ 1 := by
    unfold first
    split_ifs <;> simp_all [idle]
  unfold next
  split_ifs with hneeded hbetween hlast <;> simp_all [idle]

theorem Decoder.length_run (d : Decoder) (bs : List UInt8) :
    (d.run bs).length ≤ bs.length + if d.needed = 0 then 0 else 1 := by
  induction bs generalizing d with
  | nil =>
    rw [run]
    split_ifs <;> simp
  | cons b bs ih =>
    have hnext := d.length_next b.toNat
    have hrest := ih (d.next b.toNat).1
    rw [run, List.length_append, List.length_cons]
    omega

/-- A text has no more characters than bytes. -/
theorem length_decode_le (bs : List UInt8) : (decode bs).length ≤ bs.length :=
  idle.length_run bs

/-! ## The byte order mark -/

def byteOrderMark : Char := '﻿'

/-- A text without the byte order mark that it starts with. -/
def stripMark : List Char → List Char
  | [] => []
  | c :: cs => if c = byteOrderMark then cs else c :: cs

theorem stripMark_eq_self_iff {cs : List Char} :
    stripMark cs = cs ↔ cs.head? ≠ some byteOrderMark := by
  cases cs with
  | nil => simp [stripMark]
  | cons c cs =>
    by_cases h : c = byteOrderMark
    · simp [stripMark, h]
    · simp [stripMark, h]

end Orqara.Utf8
