import Orqara.Library.Utf8

/-!
# Components of URIs

Text that is escaped so that it can stand in one component of a URI, the strict decoder of such text,
and the lenient one for the fields of a query.
-/

namespace Orqara.Uri

open Utf8 List Option

/-! ## Encoding -/

/-- The characters that stand for themselves. -/
def isUnreserved (c : Char) : Bool := c.isAlphanum || ['-', '_', '.', '!', '~', '*', '\'', '(', ')'].contains c

def hexDigit (d : ℕ) : Char := if d < 10 then Char.ofNat (48 + d) else Char.ofNat (55 + d)

def percentEncode (byte : UInt8) : List Char :=
  ['%', hexDigit (byte.toNat / 16), hexDigit (byte.toNat % 16)]

def escape (c : Char) : List Char :=
  if isUnreserved c then [c] else (encodeChar c).flatMap percentEncode

def encodeComponent (cs : List Char) : List Char := cs.flatMap escape

/-! ## Decoding -/

def hexValue (c : Char) : Option ℕ :=
  let n := c.toNat
  if 48 ≤ n ∧ n ≤ 57 then some (n - 48)
  else if 65 ≤ n ∧ n ≤ 70 then some (n - 55)
  else if 97 ≤ n ∧ n ≤ 102 then some (n - 87)
  else none

def percentByte (high low : Char) : Option UInt8 :=
  (hexValue high).bind fun h => (hexValue low).map fun l => UInt8.ofNat (16 * h + l)

def decodeBytes (bytes : List UInt8) : Option (List Char) :=
  if WellFormed bytes then some (decode bytes) else none

/-- The rest of a component, behind escaped bytes that are not decoded yet. -/
def decodeFrom (pending : List UInt8) : List Char → Option (List Char)
  | [] => decodeBytes pending
  | c :: rest =>
    if c = '%' then
      match rest with
      | high :: low :: rest =>
        (percentByte high low).bind fun byte => decodeFrom (pending ++ [byte]) rest
      | _ => none
    else
      (decodeBytes pending).bind fun before => (decodeFrom [] rest).map fun after => before ++ c :: after

/-- An escape that is not one is an error. -/
def decodeComponent (cs : List Char) : Option (List Char) := decodeFrom [] cs

/-- The byte of an escape that the text starts with. -/
def escapedByte : List Char → Option UInt8
  | '%' :: high :: low :: _ => percentByte high low
  | _ => none

/-- The bytes behind the first `skip` characters; an escape that is not one is left as it is. -/
def unescapeFrom : ℕ → List Char → List UInt8
  | _, [] => []
  | skip + 1, _ :: rest => unescapeFrom skip rest
  | 0, c :: rest =>
    match escapedByte (c :: rest) with
    | some byte => byte :: unescapeFrom 2 rest
    | none => encodeChar c ++ unescapeFrom 0 rest

def unescape (cs : List Char) : List UInt8 := unescapeFrom 0 cs

/-- A name or a value of a query. -/
def formDecode (cs : List Char) : List Char :=
  decode (unescape (cs.map fun c => if c = '+' then ' ' else c))

/-- The pairs of a query. -/
def formPairs (query : List Char) : List (List Char × List Char) :=
  ((query.splitOn '&').filter fun part => !part.isEmpty).map fun part =>
    (formDecode (part.takeWhile (· ≠ '=')), formDecode ((part.dropWhile (· ≠ '=')).drop 1))

/-- The first value of a name. -/
def formGet (name query : List Char) : Option (List Char) :=
  ((formPairs query).find? fun pair => pair.1 == name).map (·.2)

/-! ## What is escaped is decoded to itself -/

theorem hexValue_hexDigit : ∀ d < 16, hexValue (hexDigit d) = some d := by decide

theorem percentByte_hexDigits (byte : UInt8) :
    percentByte (hexDigit (byte.toNat / 16)) (hexDigit (byte.toNat % 16)) = some byte := by
  have hbyte : byte.toNat < 256 := byte.toNat_lt
  rw [percentByte, hexValue_hexDigit _ (by omega), hexValue_hexDigit _ (by omega), bind_some,
    map_some, Nat.div_add_mod, UInt8.ofNat_toNat]

theorem decodeFrom_percentEncode (pending : List UInt8) (byte : UInt8) (rest : List Char) :
    decodeFrom pending (percentEncode byte ++ rest) = decodeFrom (pending ++ [byte]) rest := by
  rw [percentEncode, cons_append, cons_append, cons_append, nil_append, decodeFrom,
    if_pos rfl, percentByte_hexDigits, bind_some]

theorem decodeFrom_bytes (pending bytes : List UInt8) (rest : List Char) :
    decodeFrom pending (bytes.flatMap percentEncode ++ rest) = decodeFrom (pending ++ bytes) rest := by
  induction bytes generalizing pending with
  | nil => rw [flatMap_nil, nil_append, append_nil]
  | cons byte bytes ih =>
    rw [flatMap_cons, append_assoc, decodeFrom_percentEncode, ih, append_assoc]
    rfl

theorem decodeBytes_encode (cs : List Char) : decodeBytes (encode cs) = some cs := by
  have hwell : WellFormed (encode cs) := wellFormed_iff.mpr ⟨cs, rfl⟩
  rw [decodeBytes, if_pos hwell, decode_encode]

variable {c : Char} {cs : List Char}

theorem ne_percent_of_unreserved (h : isUnreserved c = true) : c ≠ '%' := by
  rintro rfl
  exact absurd h (by decide)

theorem toNat_lt_of_unreserved (h : isUnreserved c = true) : c.toNat < 128 := by
  unfold isUnreserved at h
  rcases (Bool.or_eq_true _ _).mp h with halpha | hmark
  · simp only [Char.isAlphanum, Char.isAlpha, Char.isUpper, Char.isLower, Char.isDigit,
      Bool.or_eq_true, Bool.and_eq_true, decide_eq_true_eq, UInt32.le_iff_toNat_le,
      ge_iff_le] at halpha
    have hval : c.toNat = c.val.toNat := rfl
    have hZ : 'Z'.val.toNat = 90 := rfl
    have hz : 'z'.val.toNat = 122 := rfl
    have hnine : '9'.val.toNat = 57 := rfl
    omega
  · have hmem := contains_iff_mem.mp hmark
    simp only [mem_cons, not_mem_nil, or_false] at hmem
    rcases hmem with rfl | rfl | rfl | rfl | rfl | rfl | rfl | rfl | rfl <;> decide

theorem decodeFrom_encodeComponent (before cs : List Char) :
    decodeFrom (encode before) (encodeComponent cs) = some (before ++ cs) := by
  induction cs generalizing before with
  | nil => rw [append_nil]; exact decodeBytes_encode before
  | cons c cs ih =>
    rw [encodeComponent, flatMap_cons, escape]
    split_ifs with hfree
    · have hrest := ih []
      rw [singleton_append, decodeFrom.eq_def]
      dsimp only
      rw [if_neg (ne_percent_of_unreserved hfree), decodeBytes_encode, bind_some]
      rw [encode_nil, nil_append] at hrest
      rw [show decodeFrom [] (cs.flatMap escape) = some cs from hrest]
      rfl
    · have hrest := ih (before ++ [c])
      rw [encode_append, encode_cons, encode_nil, append_nil, append_assoc] at hrest
      rw [decodeFrom_bytes]
      exact hrest

@[simp] theorem decodeComponent_encodeComponent (cs : List Char) :
    decodeComponent (encodeComponent cs) = some cs :=
  decodeFrom_encodeComponent [] cs

theorem encodeComponent_of_unreserved (h : ∀ c ∈ cs, isUnreserved c = true) :
    encodeComponent cs = cs := by
  induction cs with
  | nil => rfl
  | cons c cs ih =>
    have hc := h c mem_cons_self
    have hcs := ih fun d hd => h d (mem_cons_of_mem c hd)
    rw [encodeComponent, flatMap_cons, escape, if_pos hc]
    rw [encodeComponent] at hcs
    rw [hcs, singleton_append]

/-- Only unreserved characters and the percent sign are left. -/
theorem mem_encodeComponent (h : c ∈ encodeComponent cs) :
    isUnreserved c = true ∨ c = '%' := by
  obtain ⟨d, -, hd⟩ := mem_flatMap.mp h
  rw [escape] at hd
  split_ifs at hd with hfree
  · rw [mem_singleton.mp hd]
    exact Or.inl hfree
  · obtain ⟨byte, -, hbyte⟩ := mem_flatMap.mp hd
    have hdigits : ∀ d < 16, isUnreserved (hexDigit d) = true := by decide
    have hlt : byte.toNat < 256 := byte.toNat_lt
    simp only [percentEncode, mem_cons, not_mem_nil, or_false] at hbyte
    rcases hbyte with rfl | rfl | rfl
    · exact Or.inr rfl
    · exact Or.inl (hdigits _ (by omega))
    · exact Or.inl (hdigits _ (by omega))

theorem encodeComponent_ne_nil (h : cs ≠ []) : encodeComponent cs ≠ [] := by
  intro hnil
  have hdecoded := decodeComponent_encodeComponent cs
  rw [hnil] at hdecoded
  exact h (some.inj hdecoded).symm

/-! ## The fields of a query -/

theorem unescape_percentEncode (byte : UInt8) (rest : List Char) :
    unescape (percentEncode byte ++ rest) = byte :: unescape rest := by
  rw [percentEncode, cons_append, cons_append, cons_append, nil_append, unescape,
    unescapeFrom, escapedByte, percentByte_hexDigits]
  rfl

theorem unescape_bytes (bytes : List UInt8) (rest : List Char) :
    unescape (bytes.flatMap percentEncode ++ rest) = bytes ++ unescape rest := by
  induction bytes with
  | nil => rfl
  | cons byte bytes ih =>
    rw [flatMap_cons, append_assoc, unescape_percentEncode, ih]
    rfl

theorem unescape_cons (h : c ≠ '%') (rest : List Char) :
    unescape (c :: rest) = encodeChar c ++ unescape rest := by
  have hnone : escapedByte (c :: rest) = none := by
    unfold escapedByte
    split
    · next heq => exact absurd (List.cons.inj heq).1 h
    · rfl
  rw [unescape, unescapeFrom, hnone]
  rfl

theorem unescape_encodeComponent (cs : List Char) : unescape (encodeComponent cs) = encode cs := by
  induction cs with
  | nil => rfl
  | cons c cs ih =>
    rw [encodeComponent, flatMap_cons, escape, encode_cons]
    rw [encodeComponent] at ih
    split_ifs with hfree
    · rw [singleton_append, unescape_cons (ne_percent_of_unreserved hfree), ih]
    · rw [unescape_bytes, ih]

theorem not_mem_encodeComponent (hfree : isUnreserved c = false) (hpercent : c ≠ '%') (cs : List Char) :
    c ∉ encodeComponent cs := by
  intro hmem
  rcases mem_encodeComponent hmem with h | h
  · rw [hfree] at h
    contradiction
  · exact hpercent h

theorem formDecode_encodeComponent (cs : List Char) : formDecode (encodeComponent cs) = cs := by
  have hplus : (encodeComponent cs).map (fun c => if c = '+' then ' ' else c) = encodeComponent cs := by
    conv_rhs => rw [← List.map_id (encodeComponent cs)]
    apply map_congr_left
    intro c hc
    have hc' : c ≠ '+' := by
      rintro rfl
      exact not_mem_encodeComponent (by decide) (by decide) cs hc
    rw [if_neg hc', id]
  rw [formDecode, hplus, unescape_encodeComponent, decode_encode]

/-- A query of one field. -/
theorem formGet_field {name : List Char} (hname : ∀ c ∈ name, isUnreserved c = true)
    (value : List Char) : formGet name (name ++ '=' :: encodeComponent value) = some value := by
  have hself := encodeComponent_of_unreserved hname
  have hamp : '&' ∉ name ++ '=' :: encodeComponent value := by
    intro hmem
    rcases mem_append.mp hmem with h | h
    · exact absurd (hname _ h) (by decide)
    · rcases mem_cons.mp h with h | h
      · exact absurd h (by decide)
      · exact not_mem_encodeComponent (by decide) (by decide) value h
  have hequal : ∀ c ∈ name, decide (c ≠ '=') = true := by
    intro c hc
    rw [decide_eq_true_eq]
    rintro rfl
    exact absurd (hname _ hc) (by decide)
  have hfilter : [name ++ '=' :: encodeComponent value].filter (fun part => !part.isEmpty) =
      [name ++ '=' :: encodeComponent value] := by
    simp
  have hdecoded := formDecode_encodeComponent name
  rw [hself] at hdecoded
  rw [formGet, formPairs, splitOn_eq_singleton hamp, hfilter, map_singleton, takeWhile_append_of_pos hequal,
    dropWhile_append_of_pos hequal, takeWhile_cons_of_neg (by simp),
    dropWhile_cons_of_neg (by simp), drop_one, tail_cons, append_nil,
    hdecoded, formDecode_encodeComponent, find?_cons_of_pos (by exact beq_self_eq_true name)]
  rfl

end Orqara.Uri
