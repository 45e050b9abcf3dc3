import Orqara.Stream.StreamItem

/-!
# The identity of a tool call

An identity names the turn and the call, each as a component of a URI, so that no two calls of turns
have one identity.
-/

namespace Orqara.Stream

/-! ## URI components -/

def hexValueUpper (c : Char) : ℕ := if c.toNat < 58 then c.toNat - 48 else c.toNat - 55

/-- The bytes that a component stands for. -/
def unpercent : List Char → List UInt8
  | [] => []
  | '%' :: high :: low :: rest =>
    UInt8.ofNat (16 * hexValueUpper high + hexValueUpper low) :: unpercent rest
  | c :: rest => UInt8.ofNat c.toNat :: unpercent rest

theorem hexValueUpper_hexDigitUpper : ∀ d < 16, hexValueUpper (hexDigitUpper d) = d := by decide

theorem unpercent_percentEncode (byte : UInt8) (rest : List Char) :
    unpercent (percentEncode byte ++ rest) = byte :: unpercent rest := by
  have hbyte : byte.toNat < 256 := byte.toNat_lt
  have hhigh := hexValueUpper_hexDigitUpper (byte.toNat / 16) (by omega)
  have hlow := hexValueUpper_hexDigitUpper (byte.toNat % 16) (Nat.mod_lt _ (by decide))
  simp only [percentEncode, List.cons_append, List.nil_append, unpercent, hhigh, hlow,
    Nat.div_add_mod, UInt8.ofNat_toNat]

theorem unpercent_bytes (bytes : List UInt8) (rest : List Char) :
    unpercent (bytes.flatMap percentEncode ++ rest) = bytes ++ unpercent rest := by
  induction bytes with
  | nil => rfl
  | cons byte bytes ih =>
    rw [List.flatMap_cons, List.append_assoc, unpercent_percentEncode, ih]
    rfl

variable {c : Char}

theorem toNat_lt_of_unreserved (h : isUriUnreserved c = true) : c.toNat < 128 := by
  unfold isUriUnreserved at h
  rcases (Bool.or_eq_true _ _).mp h with halpha | hmark
  · simp only [Char.isAlphanum, Char.isAlpha, Char.isUpper, Char.isLower, Char.isDigit,
      Bool.or_eq_true, Bool.and_eq_true, decide_eq_true_eq, UInt32.le_iff_toNat_le,
      ge_iff_le] at halpha
    have hval : c.toNat = c.val.toNat := rfl
    have hZ : 'Z'.val.toNat = 90 := rfl
    have hz : 'z'.val.toNat = 122 := rfl
    have hnine : '9'.val.toNat = 57 := rfl
    omega
  · have hmem : c ∈ ['-', '_', '.', '!', '~', '*', '\'', '(', ')'] := List.contains_iff_mem.mp hmark
    simp only [List.mem_cons, List.not_mem_nil, or_false] at hmem
    rcases hmem with rfl | rfl | rfl | rfl | rfl | rfl | rfl | rfl | rfl <;> simp

theorem ne_of_unreserved (h : isUriUnreserved c = true) : c ≠ '%' ∧ c ≠ '/' := by
  constructor
  · rintro rfl
    exact absurd h (by decide)
  · rintro rfl
    exact absurd h (by decide)

theorem unpercent_cons (h : c ≠ '%') (rest : List Char) :
    unpercent (c :: rest) = UInt8.ofNat c.toNat :: unpercent rest := by
  rw [unpercent.eq_def]
  split
  · contradiction
  · next high low rest' heq => exact absurd (List.cons.inj heq).1 h
  · next c' rest' _ heq =>
    obtain ⟨rfl, rfl⟩ := List.cons.inj heq
    rfl

theorem utf8EncodeChar_ascii (h : c.toNat < 128) :
    String.utf8EncodeChar c = [UInt8.ofNat c.toNat] := by
  have hle : c.val.toNat ≤ 0x7f := Nat.le_of_lt_succ h
  simp only [String.utf8EncodeChar, if_pos hle]
  rfl

/-- A component of URIs, character by character. -/
def encodeChars (cs : List Char) : List Char :=
  cs.flatMap fun c => if isUriUnreserved c then [c] else (String.utf8EncodeChar c).flatMap percentEncode

theorem unpercent_encodeChars (cs : List Char) :
    unpercent (encodeChars cs) = cs.flatMap String.utf8EncodeChar := by
  induction cs with
  | nil => rfl
  | cons c cs ih =>
    have hcons : encodeChars (c :: cs) = (if isUriUnreserved c then [c] else
      (String.utf8EncodeChar c).flatMap percentEncode) ++ encodeChars cs := rfl
    rw [hcons, List.flatMap_cons]
    split
    · next hfree =>
      rw [utf8EncodeChar_ascii (toNat_lt_of_unreserved hfree), List.singleton_append,
        unpercent_cons (ne_of_unreserved hfree).1, ih]
      rfl
    · rw [unpercent_bytes, ih]

theorem encodeChars_injective : Function.Injective encodeChars := by
  intro cs ds h
  have hbytes := congrArg unpercent h
  rw [unpercent_encodeChars, unpercent_encodeChars] at hbytes
  have hencode : cs.utf8Encode = ds.utf8Encode := congrArg List.toByteArray hbytes
  have hdecode := congrArg ByteArray.utf8Decode? hencode
  rw [List.utf8Decode?_utf8Encode, List.utf8Decode?_utf8Encode] at hdecode
  exact List.toArray_inj (Option.some.inj hdecode)

theorem slash_not_mem_encodeChars (cs : List Char) : '/' ∉ encodeChars cs := by
  intro hmem
  obtain ⟨c, -, hc⟩ := List.mem_flatMap.mp hmem
  split at hc
  · next hfree =>
    rw [← List.mem_singleton.mp hc] at hfree
    exact (ne_of_unreserved hfree).2 rfl
  · obtain ⟨byte, -, hbyte⟩ := List.mem_flatMap.mp hc
    have hdigits : ∀ d < 16, hexDigitUpper d ≠ '/' := by decide
    have hlt : byte.toNat < 256 := byte.toNat_lt
    unfold percentEncode at hbyte
    simp only [List.mem_cons, List.not_mem_nil, or_false] at hbyte
    rcases hbyte with h | h | h
    · exact absurd h (by decide)
    · exact hdigits _ (by omega) h.symm
    · exact hdigits _ (Nat.mod_lt _ (by decide)) h.symm

/-! ## Identities -/

theorem append_slash_inj {as bs as' bs' : List Char} (ha : '/' ∉ as) (ha' : '/' ∉ as')
    (h : as ++ '/' :: bs = as' ++ '/' :: bs') : as = as' ∧ bs = bs' := by
  induction as generalizing as' with
  | nil =>
    cases as' with
    | nil => exact ⟨rfl, (List.cons.inj h).2⟩
    | cons a' as' => exact absurd ((List.cons.inj h).1 ▸ List.mem_cons_self) ha'
  | cons a as ih =>
    cases as' with
    | nil => exact absurd ((List.cons.inj h).1.symm ▸ List.mem_cons_self) ha
    | cons a' as' =>
      obtain ⟨rfl, hrest⟩ := List.cons.inj h
      obtain ⟨rfl, rfl⟩ := ih (fun hm => ha (List.mem_cons_of_mem _ hm))
        (fun hm => ha' (List.mem_cons_of_mem _ hm)) hrest
      exact ⟨rfl, rfl⟩

theorem toList_agentToolCallIdentity {callId turn : String} (h : turn ≠ "") :
    (agentToolCallIdentity callId (some turn)).toList =
      "turn:".toList ++ (encodeChars turn.toList ++ '/' :: encodeChars callId.toList) := by
  have hturn : nonEmpty (some turn) = some turn := by simp [nonEmpty, h]
  unfold agentToolCallIdentity
  rw [hturn]
  simp [encodeURIComponent, encodeChars]

/-- The identity of a call of a turn determines both. -/
theorem agentToolCallIdentity_inj {callId callId' turn turn' : String} (h : turn ≠ "")
    (h' : turn' ≠ "")
    (heq : agentToolCallIdentity callId (some turn) = agentToolCallIdentity callId' (some turn')) :
    turn = turn' ∧ callId = callId' := by
  have hlist := congrArg String.toList heq
  rw [toList_agentToolCallIdentity h, toList_agentToolCallIdentity h'] at hlist
  obtain ⟨hturn, hcall⟩ := append_slash_inj (slash_not_mem_encodeChars _)
    (slash_not_mem_encodeChars _) (List.append_cancel_left hlist)
  exact ⟨String.toList_injective (encodeChars_injective hturn),
    String.toList_injective (encodeChars_injective hcall)⟩

end Orqara.Stream
