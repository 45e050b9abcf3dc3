import Orqara.Library.JsNumber
import Orqara.Library.JsonText
import Orqara.Library.JsString

/-!
# Reading JSON

`JSON.parse`, and the text of the objects that hold strings and whole numbers only. A string is
the list of its UTF-16 code units, so that it may have half of a surrogate pair, which is written
as an escape. A number is read as the double that is nearest to what is written.
-/

namespace Orqara.JsonParse

open List Option

abbrev Units := List UInt16

inductive Value
  | null
  | bool (b : Bool)
  /-- a finite number, or none for one that is too large -/
  | num (value : Option ℚ)
  | str (units : Units)
  | arr (items : List Value)
  /-- the members as they are written: of two with one name the last one counts -/
  | obj (members : List (Units × Value))

/-! ## Numbers -/

def roundHalfEven (q : ℚ) : ℤ :=
  let remainder := q - ⌊q⌋
  if remainder < 1 / 2 ∨ remainder = 1 / 2 ∧ ⌊q⌋ % 2 = 0 then ⌊q⌋ else ⌊q⌋ + 1

/-- The nearest double, none where it is infinite. -/
def toDouble (q : ℚ) : Option ℚ :=
  if q = 0 then some 0
  else
    let unit : ℚ := 2 ^ (max (Int.log 2 |q|) (-1022) - 52)
    let rounded := roundHalfEven (q / unit) * unit
    if |rounded| < 2 ^ 1024 then some rounded else none

theorem roundHalfEven_intCast (n : ℤ) : roundHalfEven n = n := by
  unfold roundHalfEven
  simp

/-- Whole numbers of at most 53 bits are doubles. -/
theorem toDouble_natCast {n : ℕ} (h : n < 2 ^ 53) : toDouble n = some (n : ℚ) := by
  unfold toDouble
  by_cases hn : n = 0
  · simp [hn]
  · have hcast : (n : ℚ) ≠ 0 := Nat.cast_ne_zero.mpr hn
    have hlog : Nat.log 2 n < 53 := Nat.log_lt_of_lt_pow hn h
    have hmax : max (Int.log 2 |(n : ℚ)|) (-1022) - 52 = -((52 - Nat.log 2 n : ℕ) : ℤ) := by
      rw [Nat.abs_cast, Int.log_natCast]
      omega
    rw [if_neg hcast]
    dsimp only
    rw [hmax, zpow_neg, zpow_natCast, div_inv_eq_mul]
    have hint : (n : ℚ) * 2 ^ (52 - Nat.log 2 n) = ((n * 2 ^ (52 - Nat.log 2 n) : ℕ) : ℤ) := by
      push_cast
      rfl
    rw [hint, roundHalfEven_intCast, ← hint, mul_inv_cancel_right₀ (by positivity), Nat.abs_cast,
      if_pos]
    have hlarge : (2 : ℚ) ^ 53 ≤ 2 ^ 1024 := by
      apply pow_le_pow_right₀
      · norm_num
      · norm_num
    calc (n : ℚ) < 2 ^ 53 := by exact_mod_cast h
      _ ≤ 2 ^ 1024 := hlarge

def isDigit (c : Char) : Bool := JsNumber.isDigit c.toNat

def digitsValue (digits : List Char) : ℕ := JsNumber.digitsValue (digits.map Char.toNat)

/-- A row of at least one digit, and what follows it. -/
def digitRow (cs : List Char) : Option (List Char × List Char) :=
  if cs.takeWhile isDigit = [] then none else some (cs.takeWhile isDigit, cs.dropWhile isDigit)

def integerPart : List Char → Option (ℕ × List Char)
  | '0' :: cs => some (0, cs)
  | cs => (digitRow cs).map fun row => (digitsValue row.1, row.2)

def fractionPart : List Char → Option (ℚ × List Char)
  | '.' :: cs =>
    (digitRow cs).map fun row => ((digitsValue row.1 : ℚ) / 10 ^ row.1.length, row.2)
  | cs => some (0, cs)

def exponentPart : List Char → Option (ℤ × List Char)
  | [] => some (0, [])
  | c :: cs =>
    if c = 'e' ∨ c = 'E' then
      match cs with
      | '+' :: cs => (digitRow cs).map fun row => ((digitsValue row.1 : ℤ), row.2)
      | '-' :: cs => (digitRow cs).map fun row => (-(digitsValue row.1 : ℤ), row.2)
      | cs => (digitRow cs).map fun row => ((digitsValue row.1 : ℤ), row.2)
    else some (0, c :: cs)

def magnitude (cs : List Char) : Option (ℚ × List Char) :=
  (integerPart cs).bind fun whole =>
    (fractionPart whole.2).bind fun fraction =>
      (exponentPart fraction.2).map fun exponent =>
        ((whole.1 + fraction.1) * 10 ^ exponent.1, exponent.2)

def number : List Char → Option (Option ℚ × List Char)
  | '-' :: cs => (magnitude cs).map fun read => (toDouble (-read.1), read.2)
  | cs => (magnitude cs).map fun read => (toDouble read.1, read.2)

/-! ## Strings -/

def isHighSurrogate (u : UInt16) : Bool := 0xD800 ≤ u.toNat && u.toNat ≤ 0xDBFF

def isLowSurrogate (u : UInt16) : Bool := 0xDC00 ≤ u.toNat && u.toNat ≤ 0xDFFF

/-- The UTF-16 code units of a character. -/
def unitsOf (c : Char) : Units := (codeUnits c).map UInt16.ofNat

def hexValue (c : Char) : Option ℕ :=
  let n := c.toNat
  if 48 ≤ n ∧ n ≤ 57 then some (n - 48)
  else if 97 ≤ n ∧ n ≤ 102 then some (n - 87)
  else if 65 ≤ n ∧ n ≤ 70 then some (n - 55)
  else none

/-- The code unit of four hexadecimal digits. -/
def hexUnit (a b c d : Char) : Option UInt16 :=
  (hexValue a).bind fun a => (hexValue b).bind fun b =>
    (hexValue c).bind fun c => (hexValue d).map fun d =>
      UInt16.ofNat (((a * 16 + b) * 16 + c) * 16 + d)

/-- The code unit of an escape of two characters. -/
def shortUnit (e : Char) : Option UInt16 :=
  if e = '"' ∨ e = '\\' ∨ e = '/' then some (UInt16.ofNat e.toNat)
  else if e = 'b' then some 8
  else if e = 'f' then some 12
  else if e = 'n' then some 10
  else if e = 'r' then some 13
  else if e = 't' then some 9
  else none

/-- A string up to its closing quote, and what follows it. -/
def string : List Char → Option (Units × List Char)
  | [] => none
  | '"' :: rest => some ([], rest)
  | '\\' :: 'u' :: a :: b :: c :: d :: rest =>
    (hexUnit a b c d).bind fun u => (string rest).map fun read => (u :: read.1, read.2)
  | '\\' :: e :: rest =>
    (shortUnit e).bind fun u => (string rest).map fun read => (u :: read.1, read.2)
  | c :: rest =>
    if c = '\\' ∨ c.toNat < 32 then none
    else (string rest).map fun read => (unitsOf c ++ read.1, read.2)

/-! ## Values -/

/-- The text after white space. -/
def skip (cs : List Char) : List Char :=
  cs.dropWhile fun c => c = ' ' || c = '\t' || c = '\n' || c = '\r'

mutual
/-- A value at the start of a text, and what follows it. -/
def value : ℕ → List Char → Option (Value × List Char)
  | 0, _ => none
  | fuel + 1, cs =>
    match skip cs with
    | 'n' :: 'u' :: 'l' :: 'l' :: rest => some (.null, rest)
    | 't' :: 'r' :: 'u' :: 'e' :: rest => some (.bool true, rest)
    | 'f' :: 'a' :: 'l' :: 's' :: 'e' :: rest => some (.bool false, rest)
    | '"' :: rest => (string rest).map fun read => (.str read.1, read.2)
    | '[' :: rest =>
      match skip rest with
      | ']' :: rest => some (.arr [], rest)
      | rest => (items fuel rest).map fun read => (.arr read.1, read.2)
    | '{' :: rest =>
      match skip rest with
      | '}' :: rest => some (.obj [], rest)
      | rest => (members fuel rest).map fun read => (.obj read.1, read.2)
    | rest => (number rest).map fun read => (.num read.1, read.2)

/-- The items of an array up to its closing bracket. -/
def items : ℕ → List Char → Option (List Value × List Char)
  | 0, _ => none
  | fuel + 1, cs =>
    (value fuel cs).bind fun item =>
      match skip item.2 with
      | ',' :: rest => (items fuel rest).map fun read => (item.1 :: read.1, read.2)
      | ']' :: rest => some ([item.1], rest)
      | _ => none

/-- The members of an object up to its closing brace. -/
def members : ℕ → List Char → Option (List (Units × Value) × List Char)
  | 0, _ => none
  | fuel + 1, cs =>
    match skip cs with
    | '"' :: rest =>
      (string rest).bind fun key =>
        match skip key.2 with
        | ':' :: rest =>
          (value fuel rest).bind fun member =>
            match skip member.2 with
            | ',' :: rest => (members fuel rest).map fun read => ((key.1, member.1) :: read.1, read.2)
            | '}' :: rest => some ([(key.1, member.1)], rest)
            | _ => none
        | _ => none
    | _ => none
end

/-- `JSON.parse`; a value takes at most two calls for each of its characters. -/
def parse (cs : List Char) : Option Value :=
  (value (2 * cs.length + 2) cs).bind fun read => if skip read.2 = [] then some read.1 else none

/-- A member of an object, by its name. -/
def member (members : List (Units × Value)) (key : Units) : Option Value :=
  (members.reverse.find? fun member => member.1 = key).map Prod.snd

/-! ## The text of an object -/

/-- The character of a surrogate pair. -/
def pairChar (u v : UInt16) : Char :=
  Char.ofNat (0x10000 + (u.toNat - 0xD800) * 0x400 + (v.toNat - 0xDC00))

/-- One code unit of a string; half of a surrogate pair that stands alone is escaped. -/
def escapeUnit (u : UInt16) : List Char :=
  if isHighSurrogate u || isLowSurrogate u then
    ['\\', 'u', Json.hexDigit (u.toNat / 0x1000), Json.hexDigit (u.toNat / 0x100 % 16),
      Json.hexDigit (u.toNat / 16 % 16), Json.hexDigit (u.toNat % 16)]
  else Json.escapeChar (Char.ofNat u.toNat)

/-- A string up to and including its closing quote. -/
def quoteUnits : Units → List Char
  | [] => ['"']
  | [u] => escapeUnit u ++ ['"']
  | u :: v :: us =>
    if isHighSurrogate u && isLowSurrogate v then pairChar u v :: quoteUnits us
    else escapeUnit u ++ quoteUnits (v :: us)

/-- A string or a whole number. -/
inductive Plain
  | str (units : Units)
  | num (n : ℕ)
  deriving DecidableEq

def Plain.print : Plain → List Char
  | .str units => '"' :: quoteUnits units
  | .num n => (JsNumber.decimal n).map Char.ofNat

def Plain.value : Plain → Value
  | .str units => .str units
  | .num n => .num (some n)

def printMember (member : Units × Plain) : List Char :=
  '"' :: quoteUnits member.1 ++ ':' :: member.2.print

def printMore : List (Units × Plain) → List Char
  | [] => ['}']
  | member :: rest => ',' :: printMember member ++ printMore rest

/-- `JSON.stringify` of an object of strings and whole numbers below `2 ^ 53`. -/
def stringify : List (Units × Plain) → List Char
  | [] => ['{', '}']
  | member :: rest => '{' :: printMember member ++ printMore rest

/-! ## Strings are read back -/

section Strings

theorem string_hex (a b c d : Char) (rest : List Char) :
    string ('\\' :: 'u' :: a :: b :: c :: d :: rest) =
      (hexUnit a b c d).bind fun u => (string rest).map fun read => (u :: read.1, read.2) := rfl

theorem string_escape {e : Char} (he : e ≠ 'u') (rest : List Char) :
    string ('\\' :: e :: rest) =
      (shortUnit e).bind fun u => (string rest).map fun read => (u :: read.1, read.2) := by
  rw [string]
  intro a b c d rest' h
  exact absurd h he

theorem string_plain {c : Char} (hquote : c ≠ '"') (hslash : c ≠ '\\') (hc : ¬ c.toNat < 32)
    (rest : List Char) :
    string (c :: rest) = (string rest).map fun read => (unitsOf c ++ read.1, read.2) := by
  rw [string, if_neg]
  · rintro (h | h)
    · exact hslash h
    · exact hc h
  · exact hquote
  · intro a b c' d rest' h
    exact absurd h hslash
  · intro e rest' h
    exact absurd h hslash

theorem hexValue_hexDigit : ∀ n < 16, hexValue (Json.hexDigit n) = some n := by decide

theorem hexUnit_hexDigits {n : ℕ} (hn : n < 0x10000) :
    hexUnit (Json.hexDigit (n / 0x1000)) (Json.hexDigit (n / 0x100 % 16))
      (Json.hexDigit (n / 16 % 16)) (Json.hexDigit (n % 16)) = some (UInt16.ofNat n) := by
  unfold hexUnit
  rw [hexValue_hexDigit _ (by omega), hexValue_hexDigit _ (by omega),
    hexValue_hexDigit _ (by omega), hexValue_hexDigit _ (by omega)]
  simp only [bind_some, map_some]
  congr 2
  omega

theorem shortUnit_of_shortEscape {c e : Char} (h : Json.shortEscape c = some e) :
    shortUnit e = some (UInt16.ofNat c.toNat) ∧ e ≠ 'u' := by
  unfold Json.shortEscape at h
  split_ifs at h with h1 h2 h3 h4 h5 h6 h7 <;>
    (obtain rfl := some.inj h; subst_vars; decide)

theorem toNat_ofNat_of_valid {n : ℕ} (h : n.isValidChar) : (Char.ofNat n).toNat = n := by
  rw [Char.ofNat, dif_pos h]
  rfl

/-- A code unit that is no half of a surrogate pair is a character. -/
theorem toNat_ofNat_unit {u : UInt16} (h : (isHighSurrogate u || isLowSurrogate u) = false) :
    (Char.ofNat u.toNat).toNat = u.toNat := by
  have hlt : u.toNat < 65536 := u.toNat_lt
  simp only [isHighSurrogate, isLowSurrogate, Bool.or_eq_false_iff, Bool.and_eq_false_iff,
    decide_eq_false_iff_not] at h
  apply toNat_ofNat_of_valid
  unfold Nat.isValidChar
  omega

theorem string_escapeUnit (u : UInt16) (rest : List Char) :
    string (escapeUnit u ++ rest) = (string rest).map fun read => (u :: read.1, read.2) := by
  have hlt : u.toNat < 65536 := u.toNat_lt
  unfold escapeUnit
  by_cases hsurrogate : (isHighSurrogate u || isLowSurrogate u) = true
  · rw [if_pos hsurrogate]
    simp only [cons_append, nil_append]
    rw [string_hex, hexUnit_hexDigits hlt, UInt16.ofNat_toNat]
    rfl
  · rw [if_neg hsurrogate]
    have hnat := toNat_ofNat_unit (by simpa using hsurrogate)
    generalize Char.ofNat u.toNat = c at hnat ⊢
    unfold Json.escapeChar
    cases hshort : Json.shortEscape c with
    | some e =>
      obtain ⟨hunit, hu⟩ := shortUnit_of_shortEscape hshort
      show string ('\\' :: e :: rest) = _
      rw [string_escape hu, hunit, hnat, UInt16.ofNat_toNat]
      rfl
    | none =>
      dsimp only
      by_cases hcontrol : c.toNat < 32
      · rw [if_pos hcontrol]
        have hhex := hexUnit_hexDigits (show c.toNat < 0x10000 by omega)
        have hzero : c.toNat / 0x1000 = 0 ∧ c.toNat / 0x100 % 16 = 0 ∧
            c.toNat / 16 % 16 = c.toNat / 16 := by omega
        rw [hzero.1, hzero.2.1, hzero.2.2] at hhex
        show string ('\\' :: 'u' :: Json.hexDigit 0 :: Json.hexDigit 0 :: _ :: _ :: rest) = _
        rw [string_hex, hhex, hnat, UInt16.ofNat_toNat]
        rfl
      · rw [if_neg hcontrol]
        have hquote : c ≠ '"' := by
          rintro rfl
          simp [Json.shortEscape] at hshort
        have hslash : c ≠ '\\' := by
          rintro rfl
          simp [Json.shortEscape] at hshort
        show string (c :: rest) = _
        rw [string_plain hquote hslash hcontrol]
        have hunits : unitsOf c = [u] := by
          have hsmall : c.val.toNat < 0x10000 := by
            show c.toNat < 0x10000
            omega
          rw [unitsOf, codeUnits, if_pos hsmall]
          show [UInt16.ofNat c.toNat] = [u]
          rw [hnat, UInt16.ofNat_toNat]
        rw [hunits]
        rfl

theorem unitsOf_pairChar {u v : UInt16} (hu : isHighSurrogate u = true)
    (hv : isLowSurrogate v = true) :
    unitsOf (pairChar u v) = [u, v] ∧ 0x10000 ≤ (pairChar u v).toNat := by
  simp only [isHighSurrogate, isLowSurrogate, Bool.and_eq_true, decide_eq_true_eq] at hu hv
  have hnat : (pairChar u v).toNat =
      0x10000 + (u.toNat - 0xD800) * 0x400 + (v.toNat - 0xDC00) := by
    apply toNat_ofNat_of_valid
    unfold Nat.isValidChar
    omega
  refine ⟨?_, by omega⟩
  have hlarge : ¬ (pairChar u v).val.toNat < 0x10000 := by
    show ¬ (pairChar u v).toNat < 0x10000
    omega
  rw [unitsOf, codeUnits, if_neg hlarge]
  show [UInt16.ofNat (0xD800 + ((pairChar u v).toNat - 0x10000) / 0x400),
    UInt16.ofNat (0xDC00 + ((pairChar u v).toNat - 0x10000) % 0x400)] = [u, v]
  have hhigh : 0xD800 + ((pairChar u v).toNat - 0x10000) / 0x400 = u.toNat := by omega
  have hlow : 0xDC00 + ((pairChar u v).toNat - 0x10000) % 0x400 = v.toNat := by omega
  rw [hhigh, hlow, UInt16.ofNat_toNat, UInt16.ofNat_toNat]

theorem string_quoteUnits (us : Units) (rest : List Char) :
    string (quoteUnits us ++ rest) = some (us, rest) := by
  induction us using quoteUnits.induct with
  | case1 => rfl
  | case2 u =>
    rw [quoteUnits, append_assoc, string_escapeUnit]
    rfl
  | case3 u v us hpair ih =>
    obtain ⟨hu, hv⟩ := Bool.and_eq_true_iff.mp hpair
    obtain ⟨hunits, hlarge⟩ := unitsOf_pairChar hu hv
    have hne : ∀ c : Char, c.toNat < 0x10000 → pairChar u v ≠ c := by
      intro c hc heq
      rw [heq] at hlarge
      omega
    rw [quoteUnits, if_pos hpair, cons_append,
      string_plain (hne _ (by decide)) (hne _ (by decide)) (by omega), ih, hunits]
    rfl
  | case4 u v us hpair ih =>
    rw [quoteUnits, if_neg hpair, append_assoc, string_escapeUnit, ih]
    rfl

end Strings

/-! ## Numbers are read back -/

section Numbers

/-- What follows a member of an object. -/
def Ends (rest : List Char) : Prop := ∃ c, rest.head? = some c ∧ (c = ',' ∨ c = '}')

/-- The digits of a whole number, as characters. -/
def decimalChars (n : ℕ) : List Char := (JsNumber.decimal n).map Char.ofNat

theorem toNat_decimal {n d : ℕ} (h : d ∈ JsNumber.decimal n) : (Char.ofNat d).toNat = d := by
  have hdigit := JsNumber.isDigit_decimal n d h
  simp only [JsNumber.isDigit, Bool.and_eq_true, decide_eq_true_eq] at hdigit
  apply toNat_ofNat_of_valid
  unfold Nat.isValidChar
  omega

theorem map_toNat_decimalChars (n : ℕ) :
    (decimalChars n).map Char.toNat = JsNumber.decimal n := by
  rw [decimalChars, List.map_map]
  conv_rhs => rw [← List.map_id (JsNumber.decimal n)]
  apply map_congr_left
  intro d hd
  exact toNat_decimal hd

theorem digitsValue_decimalChars (n : ℕ) : digitsValue (decimalChars n) = n := by
  rw [digitsValue, map_toNat_decimalChars, JsNumber.digitsValue_decimal]

theorem isDigit_decimalChars (n : ℕ) : ∀ c ∈ decimalChars n, isDigit c = true := by
  intro c hc
  obtain ⟨d, hd, rfl⟩ := List.mem_map.mp hc
  rw [isDigit, toNat_decimal hd]
  exact JsNumber.isDigit_decimal n d hd

/-- The digits of a whole number start with a zero only where it is zero. -/
theorem decimalChars_eq (n : ℕ) :
    n = 0 ∧ decimalChars n = ['0'] ∨
      ∃ c cs, decimalChars n = c :: cs ∧ c ≠ '0' ∧ isDigit c = true := by
  by_cases hn : n = 0
  · exact Or.inl ⟨hn, by rw [hn]; rfl⟩
  · right
    cases hchars : decimalChars n with
    | nil => exact absurd (map_eq_nil_iff.mp hchars) (JsNumber.decimal_ne_nil n)
    | cons c cs =>
      refine ⟨c, cs, rfl, ?_, ?_⟩
      · intro hzero
        have hdigits := Nat.digits_ne_nil_iff_ne_zero (b := 10).mpr hn
        have hlast := Nat.getLast_digit_ne_zero 10 hn
        have hdecimal : JsNumber.decimal n = ((Nat.digits 10 n).map (· + 48)).reverse := if_neg hn
        have hhead : (JsNumber.decimal n).head? = some 48 := by
          rw [← map_toNat_decimalChars, hchars, hzero]
          rfl
        rw [hdecimal, head?_reverse, getLast?_map,
          getLast?_eq_some_getLast hdigits] at hhead
        have hsum : (Nat.digits 10 n).getLast hdigits + 48 = 48 := some.inj hhead
        exact hlast (by omega)
      · apply isDigit_decimalChars n
        rw [hchars]
        exact mem_cons_self

variable {rest : List Char}

theorem not_isDigit_of_ends (h : Ends rest) :
    rest.takeWhile isDigit = [] ∧ rest.dropWhile isDigit = rest := by
  obtain ⟨c, hc, hend⟩ := h
  cases rest with
  | nil => cases hc
  | cons d rest =>
    have hd : isDigit d = false := by
      cases hc
      rcases hend with rfl | rfl
      · rfl
      · rfl
    constructor
    · rw [takeWhile_cons, hd]
      rfl
    · rw [dropWhile_cons, hd]
      rfl

theorem digitRow_append {ds : List Char} (hds : ∀ c ∈ ds, isDigit c = true) (hne : ds ≠ [])
    (hrest : Ends rest) : digitRow (ds ++ rest) = some (ds, rest) := by
  obtain ⟨htake, hdrop⟩ := not_isDigit_of_ends hrest
  unfold digitRow
  rw [takeWhile_append_of_pos hds, dropWhile_append_of_pos hds, htake, hdrop,
    append_nil, if_neg hne]

theorem integerPart_decimal (n : ℕ) (hrest : Ends rest) :
    integerPart (decimalChars n ++ rest) = some (n, rest) := by
  rcases decimalChars_eq n with ⟨hn, hchars⟩ | ⟨c, cs, hchars, hne, -⟩
  · rw [hchars, hn]
    rfl
  · have hrow := digitRow_append (isDigit_decimalChars n) (by rw [hchars]; exact cons_ne_nil _ _)
      hrest
    have hvalue := digitsValue_decimalChars n
    rw [hchars] at hrow hvalue ⊢
    rw [cons_append] at hrow ⊢
    rw [integerPart, hrow, map_some, hvalue]
    intro cs' heq
    exact hne (List.cons.inj heq).1

theorem fractionPart_of_ends (h : Ends rest) :
    fractionPart rest = some (0, rest) := by
  obtain ⟨c, hc, hend⟩ := h
  cases rest with
  | nil => cases hc
  | cons d rest =>
    cases hc
    rcases hend with rfl | rfl
    · rfl
    · rfl

theorem exponentPart_of_ends (h : Ends rest) :
    exponentPart rest = some (0, rest) := by
  obtain ⟨c, hc, hend⟩ := h
  cases rest with
  | nil => cases hc
  | cons d rest =>
    cases hc
    rcases hend with rfl | rfl
    · rfl
    · rfl

theorem number_decimal {n : ℕ} (hn : n < 2 ^ 53) (hrest : Ends rest) :
    number (decimalChars n ++ rest) = some (some (n : ℚ), rest) := by
  have hmagnitude : magnitude (decimalChars n ++ rest) = some ((n : ℚ), rest) := by
    unfold magnitude
    rw [integerPart_decimal n hrest]
    simp only [bind_some]
    rw [fractionPart_of_ends hrest]
    simp only [bind_some]
    rw [exponentPart_of_ends hrest]
    simp
  have hminus : ∀ cs, decimalChars n ++ rest = '-' :: cs → False := by
    intro cs heq
    have hmem : '-' ∈ decimalChars n := by
      rcases decimalChars_eq n with ⟨-, hchars⟩ | ⟨c, cs', hchars, -⟩
      · rw [hchars] at heq
        cases heq
      · rw [hchars] at heq ⊢
        rw [(List.cons.inj heq).1]
        exact mem_cons_self
    have hdigit := isDigit_decimalChars n _ hmem
    cases hdigit
  rw [number, hmagnitude, map_some, toDouble_natCast hn]
  exact hminus

end Numbers

/-! ## Objects are read back -/

section Objects

theorem skip_cons {c : Char} (h : c ≠ ' ' ∧ c ≠ '\t' ∧ c ≠ '\n' ∧ c ≠ '\r') (cs : List Char) :
    skip (c :: cs) = c :: cs := by
  unfold skip
  rw [dropWhile_cons_of_neg]
  simp [h]

section

variable (fuel : ℕ)

theorem value_string (us : Units) (rest : List Char) :
    value (fuel + 1) ('"' :: quoteUnits us ++ rest) = some (.str us, rest) := by
  rw [value, cons_append, skip_cons (by decide)]
  show (string (quoteUnits us ++ rest)).map _ = _
  rw [string_quoteUnits]
  rfl

/-- A text that starts with a digit is a number. -/
theorem value_digit {c : Char} (hc : isDigit c = true) (cs : List Char) :
    value (fuel + 1) (c :: cs) = (number (c :: cs)).map fun read => (.num read.1, read.2) := by
  simp only [isDigit, JsNumber.isDigit, Bool.and_eq_true, decide_eq_true_eq] at hc
  have hne : ∀ d : Char, (d.toNat < 48 ∨ 57 < d.toNat) → c ≠ d := by
    rintro d hd rfl
    omega
  rw [value, skip_cons ⟨hne _ (by decide), hne _ (by decide), hne _ (by decide), hne _ (by decide)⟩]
  -- a digit begins none of the other values
  split
  · next heq => exact absurd (List.cons.inj heq).1 (hne _ (by decide))
  · next heq => exact absurd (List.cons.inj heq).1 (hne _ (by decide))
  · next heq => exact absurd (List.cons.inj heq).1 (hne _ (by decide))
  · next heq => exact absurd (List.cons.inj heq).1 (hne _ (by decide))
  · next heq => exact absurd (List.cons.inj heq).1 (hne _ (by decide))
  · next heq => exact absurd (List.cons.inj heq).1 (hne _ (by decide))
  · rfl

/-- Whole numbers are small enough to be doubles. -/
def Plain.Exact : Plain → Prop
  | .str _ => True
  | .num n => n < 2 ^ 53

theorem value_print {plain : Plain} (h : plain.Exact) {rest : List Char}
    (hrest : Ends rest) : value (fuel + 1) (plain.print ++ rest) = some (plain.value, rest) := by
  cases plain with
  | str units => exact value_string fuel units rest
  | num n =>
    show value (fuel + 1) (decimalChars n ++ rest) = some (.num (some n), rest)
    have hdigit : ∃ c cs, decimalChars n ++ rest = c :: cs ∧ isDigit c = true := by
      rcases decimalChars_eq n with ⟨-, hchars⟩ | ⟨c, cs, hchars, -, hc⟩
      · rw [hchars]
        exact ⟨'0', rest, rfl, rfl⟩
      · rw [hchars]
        exact ⟨c, cs ++ rest, rfl, hc⟩
    obtain ⟨c, cs, heq, hc⟩ := hdigit
    rw [heq, value_digit fuel hc, ← heq, number_decimal h hrest]
    rfl

/-- The members of an object with their values. -/
def valuesOf (plains : List (Units × Plain)) : List (Units × Value) :=
  plains.map fun member => (member.1, member.2.value)

theorem printMember_append (member : Units × Plain) (rest : List Char) :
    printMember member ++ rest =
      '"' :: (quoteUnits member.1 ++ (':' :: (member.2.print ++ rest))) := by
  simp [printMember]

theorem members_print_last {last : Units × Plain} (h : last.2.Exact)
    (rest : List Char) :
    members (fuel + 2) (printMember last ++ '\x7d' :: rest) =
      some ([(last.1, last.2.value)], rest) := by
  have hends : Ends ('\x7d' :: rest) := ⟨'\x7d', rfl, Or.inr rfl⟩
  rw [printMember_append, members, skip_cons (by decide)]
  simp only [string_quoteUnits, bind_some]
  rw [skip_cons (by decide)]
  simp only [value_print fuel h hends, bind_some]
  rw [skip_cons (by decide)]
  rfl

end

variable {first : Units × Plain}

theorem members_print_next (fuel : ℕ) (h : first.2.Exact) (rest : List Char) :
    members (fuel + 2) (printMember first ++ ',' :: rest) =
      (members (fuel + 1) rest).map fun read =>
        ((first.1, first.2.value) :: read.1, read.2) := by
  have hends : Ends (',' :: rest) := ⟨',', rfl, Or.inl rfl⟩
  rw [printMember_append, members, skip_cons (by decide)]
  simp only [string_quoteUnits, bind_some]
  rw [skip_cons (by decide)]
  simp only [value_print fuel h hends, bind_some]
  rw [skip_cons (by decide)]
  rfl

theorem members_print {fuel : ℕ} {more : List (Units × Plain)} (hfuel : more.length + 2 ≤ fuel)
    (h : ∀ member ∈ first :: more, member.2.Exact) (rest : List Char) :
    members fuel (printMember first ++ printMore more ++ rest) =
      some (valuesOf (first :: more), rest) := by
  have hfirst := h first mem_cons_self
  induction more generalizing fuel first with
  | nil =>
    obtain ⟨spare, rfl⟩ := Nat.exists_eq_add_of_le' hfuel
    rw [append_assoc]
    exact members_print_last spare hfirst rest
  | cons second more ih =>
    rw [length_cons] at hfuel
    obtain ⟨spare, rfl⟩ := Nat.exists_eq_add_of_le' (show 2 ≤ fuel by omega)
    have hsecond := h second (mem_cons_of_mem _ mem_cons_self)
    have hrest := ih (show more.length + 2 ≤ spare + 1 by omega)
      (fun member hmember => h member (mem_cons_of_mem _ hmember)) hsecond
    rw [append_assoc]
    show members (spare + 2)
      (printMember first ++ ',' :: (printMember second ++ printMore more ++ rest)) = _
    rw [members_print_next spare hfirst, hrest]
    rfl

theorem length_le_printMore (more : List (Units × Plain)) :
    more.length ≤ (printMore more).length := by
  induction more with
  | nil => simp [printMore]
  | cons member more ih =>
    rw [printMore, cons_append, length_cons, length_cons, length_append]
    omega

theorem value_object (fuel : ℕ) (cs : List Char) :
    value (fuel + 1) ('\x7b' :: '"' :: cs) =
      (members fuel ('"' :: cs)).map fun read => (.obj read.1, read.2) := by
  have hskip : skip ('"' :: cs) = '"' :: cs := skip_cons (by decide) cs
  rw [value, skip_cons (by decide)]
  simp only [hskip]
  rfl

/-- The text of an object of strings and whole numbers is read back as that object. -/
theorem parse_stringify {plains : List (Units × Plain)}
    (h : ∀ member ∈ plains, member.2.Exact) :
    parse (stringify plains) = some (.obj (valuesOf plains)) := by
  cases plains with
  | nil => rfl
  | cons first more =>
    unfold parse
    have htext : stringify (first :: more) = '\x7b' :: (printMember first ++ printMore more) := rfl
    generalize hfuel : 2 * (stringify (first :: more)).length + 1 = fuel
    have henough : more.length + 2 ≤ fuel := by
      have hlength := length_le_printMore more
      have hquote : 0 < (printMember first).length := by simp [printMember]
      rw [htext, length_cons, length_append] at hfuel
      omega
    have hmembers := members_print henough h []
    rw [append_nil] at hmembers
    have hvalue : value (fuel + 1) (stringify (first :: more)) =
        some (.obj (valuesOf (first :: more)), []) := by
      rw [htext, printMember_append, value_object, ← printMember_append, hmembers]
      rfl
    rw [show 2 * (stringify (first :: more)).length + 2 = fuel + 1 by omega, hvalue]
    rfl

end Objects

end Orqara.JsonParse
