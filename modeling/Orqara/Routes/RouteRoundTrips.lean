import Orqara.Routes.HostRoutes

/-!
# Routes that are read back

An id that stands in its segment as it is may look like the Base64 form of another one. All other ids
are read back as they are, and so is what is to be opened.
-/

namespace Orqara.Routes

open Base64 List Option

variable {id value : Text} {decoded : Text}

/-! ## Trimming -/

theorem isWhiteSpace_of_unreserved {c : Char} (h : Uri.isUnreserved c = true) : isWhiteSpace c = false := by
  have hall : ∀ n < 128, Uri.isUnreserved (Char.ofNat n) = true → isWhiteSpace (Char.ofNat n) = false := by
    decide
  have hc := hall c.toNat (Uri.toNat_lt_of_unreserved h)
  rw [Char.ofNat_toNat] at hc
  exact hc h

theorem trimBy_of_unreserved (h : ∀ c ∈ value, Uri.isUnreserved c = true) :
    trimBy isWhiteSpace value = value := by
  apply TrimmedBy.trimBy_eq
  constructor
  · exact fun c hc => isWhiteSpace_of_unreserved (h c (mem_of_mem_head? hc))
  · exact fun c hc => isWhiteSpace_of_unreserved (h c (mem_of_mem_getLast? hc))

theorem trimBy_trimBy (value : Text) :
    trimBy isWhiteSpace (trimBy isWhiteSpace value) = trimBy isWhiteSpace value :=
  (trimmedBy_trimBy isWhiteSpace value).trimBy_eq

theorem trimNonEmpty_of_trimmed (h : trimBy isWhiteSpace value = value) (hne : value ≠ []) :
    trimNonEmpty value = some value := by
  rw [trimNonEmpty, h, if_neg]
  simpa using hne

theorem trimNonEmpty_eq (h : trimBy isWhiteSpace value ≠ []) :
    trimNonEmpty value = some (trimBy isWhiteSpace value) := by
  rw [trimNonEmpty, if_neg]
  simpa using h

theorem decodeSegment_encodeSegment (value : Text) : decodeSegment (encodeSegment value) = value := by
  rw [decodeSegment, encodeSegment, Uri.decodeComponent_encodeComponent, getD_some]

/-! ## Base64 -/

/-- A digit of the alphabet for URLs. -/
def urlDigit (n : ℕ) : Char :=
  let c := Char.ofNat (Base64.digit n).toNat
  if c = '+' then '-' else if c = '/' then '_' else c

theorem urlDigit_facts : ∀ n < 64, urlDigit n ≠ '=' ∧ Uri.isUnreserved (urlDigit n) = true ∧
    ((urlDigit n).isAlphanum || urlDigit n = '_' || urlDigit n = '-') = true := by
  decide

theorem sextet_urlDigit : ∀ n < 64, sextet (UInt16.ofNat (if urlDigit n = '-' then '+'
    else if urlDigit n = '_' then '/' else urlDigit n).toNat) = some n := by
  decide

theorem toBase64UrlNoPad_eq (value : Text) : ∃ sextets : List ℕ, (∀ n ∈ sextets, n < 64) ∧
    toBase64UrlNoPad value = sextets.map urlDigit ∧ bytesOf sextets = Utf8.encode value := by
  obtain ⟨sextets, count, hlt, heq⟩ := encode_eq_digits (Utf8.encode value)
  refine ⟨sextets, hlt, ?_, ?_⟩
  · have hpadding : (List.replicate count padding).map (fun unit => Char.ofNat unit.toNat) =
        List.replicate count '=' := by
      rw [map_replicate]
      rfl
    have hkept : ∀ l : List Char, (∀ c ∈ l, c ≠ '=') → ∀ n,
        (l ++ List.replicate n '=').rdropWhile (· = '=') = l := by
      intro l hl n
      induction n with
      | zero =>
        rw [replicate_zero, append_nil, rdropWhile_eq_self_iff]
        intro hne
        simpa using hl _ (getLast_mem hne)
      | succ n ih =>
        rw [replicate_succ', ← append_assoc, rdropWhile_concat_pos _ _ _ (by simp), ih]
    rw [toBase64UrlNoPad, heq, map_append, map_append, hpadding, map_replicate,
      List.map_map, List.map_map, if_neg (by decide), if_neg (by decide)]
    apply hkept
    intro c hc
    obtain ⟨n, hn, rfl⟩ := List.mem_map.mp hc
    exact (urlDigit_facts n (hlt n hn)).1
  · have hdecoded := decode_encode (Utf8.encode value)
    have hdigits : (sextets.map digit).filterMap sextet = sextets := by
      rw [filterMap_map]
      conv_rhs => rw [← filterMap_some (l := sextets)]
      apply filterMap_congr
      exact fun n hn => sextet_digit n (hlt n hn)
    have hpadding : (List.replicate count padding).filterMap sextet = [] := by
      rw [filterMap_replicate_of_none (by decide)]
    rw [heq, decode, filterMap_append, hdigits, hpadding, append_nil] at hdecoded
    exact hdecoded

theorem unreserved_toBase64UrlNoPad (value : Text) :
    ∀ c ∈ toBase64UrlNoPad value, Uri.isUnreserved c = true := by
  obtain ⟨sextets, hlt, heq, -⟩ := toBase64UrlNoPad_eq value
  intro c hc
  rw [heq] at hc
  obtain ⟨n, hn, rfl⟩ := List.mem_map.mp hc
  exact (urlDigit_facts n (hlt n hn)).2.1

section

variable (hne : value ≠ [])
include hne

theorem toBase64UrlNoPad_ne_nil : toBase64UrlNoPad value ≠ [] := by
  obtain ⟨sextets, -, heq, hbytes⟩ := toBase64UrlNoPad_eq value
  intro hnil
  rw [hnil] at heq
  rw [map_eq_nil_iff.mp heq.symm] at hbytes
  apply hne
  have hdecoded := Utf8.decode_encode value
  rw [← hbytes] at hdecoded
  exact hdecoded.symm

theorem isBase64Url_toBase64UrlNoPad : isBase64Url (toBase64UrlNoPad value) = true := by
  obtain ⟨sextets, hlt, heq, -⟩ := toBase64UrlNoPad_eq value
  rw [isBase64Url, Bool.and_eq_true, List.all_eq_true]
  constructor
  · simpa using toBase64UrlNoPad_ne_nil hne
  · intro c hc
    rw [heq] at hc
    obtain ⟨n, hn, rfl⟩ := List.mem_map.mp hc
    exact (urlDigit_facts n (hlt n hn)).2.2

omit hne in
/-- The padding that is put behind a text has no sextets. -/
theorem decode_padded (l : Text) (n : ℕ) :
    decode ((l ++ List.replicate n '=').map fun c => UInt16.ofNat c.toNat) =
      bytesOf (l.filterMap fun c => sextet (UInt16.ofNat c.toNat)) := by
  rw [decode, filterMap_map, filterMap_append, filterMap_replicate_of_none,
    append_nil]
  · rfl
  · decide

theorem decodeBase64UrlNoPadUtf8_toBase64UrlNoPad :
    decodeBase64UrlNoPadUtf8 (toBase64UrlNoPad value) = some value := by
  have htrim := trimBy_of_unreserved (unreserved_toBase64UrlNoPad value)
  have hurl := isBase64Url_toBase64UrlNoPad hne
  obtain ⟨sextets, hlt, heq, hbytes⟩ := toBase64UrlNoPad_eq value
  have hsextets : ((sextets.map urlDigit).map fun c => if c = '-' then '+' else if c = '_' then '/'
      else c).filterMap (fun c => sextet (UInt16.ofNat c.toNat)) = sextets := by
    rw [filterMap_map, filterMap_map]
    conv_rhs => rw [← filterMap_some (l := sextets)]
    apply filterMap_congr
    exact fun n hn => sextet_urlDigit n (hlt n hn)
  rw [decodeBase64UrlNoPadUtf8, htrim, hurl]
  dsimp only
  rw [if_neg (by decide), decode_padded, heq, hsextets, hbytes, Utf8.decode_encode]

theorem tryDecode_toBase64UrlNoPad :
    tryDecodeBase64UrlNoPadUtf8 (toBase64UrlNoPad value) = some value := by
  have htrim := trimBy_of_unreserved (unreserved_toBase64UrlNoPad value)
  rw [tryDecodeBase64UrlNoPadUtf8, htrim, decodeBase64UrlNoPadUtf8_toBase64UrlNoPad hne, filter_some_pos (by simpa using hne),
    filter_some_pos (by exact beq_self_eq_true _)]

end

theorem toBase64UrlNoPad_injective {a b : Text} (ha : a ≠ []) (hb : b ≠ [])
    (h : toBase64UrlNoPad a = toBase64UrlNoPad b) : a = b := by
  have hdecoded := decodeBase64UrlNoPadUtf8_toBase64UrlNoPad ha
  rw [h, decodeBase64UrlNoPadUtf8_toBase64UrlNoPad hb] at hdecoded
  exact (some.inj hdecoded).symm

/-- Base64 is longer than what it says. -/
theorem length_decodeBase64 (h : decodeBase64UrlNoPadUtf8 value = some decoded) :
    decoded.length < value.length := by
  unfold decodeBase64UrlNoPadUtf8 at h
  dsimp only at h
  split_ifs at h with hurl
  have hne : trimBy isWhiteSpace value ≠ [] := by
    intro hnil
    rw [hnil] at hurl
    exact hurl rfl
  have hlength := length_trimBy_le isWhiteSpace value
  have hpos := length_pos_iff.mpr hne
  generalize trimBy isWhiteSpace value = normalized at h hlength hpos
  rw [← some.inj h, decode_padded]
  generalize hsextets : List.filterMap _ (normalized.map _) = sextets
  have hcount : sextets.length ≤ normalized.length := by
    rw [← hsextets]
    apply le_trans (length_filterMap_le _ _)
    rw [length_map]
  have hbytes := length_bytesOf sextets
  have hchars := Utf8.length_decode_le (bytesOf sextets)
  omega

theorem tryDecode_eq_some (h : tryDecodeBase64UrlNoPadUtf8 value = some decoded) :
    decodeBase64UrlNoPadUtf8 (trimBy isWhiteSpace value) = some decoded ∧ decoded ≠ [] := by
  obtain ⟨hinner, -⟩ := filter_eq_some_iff.mp h
  obtain ⟨hdecoded, hne⟩ := filter_eq_some_iff.mp hinner
  exact ⟨hdecoded, by simpa using hne⟩

/-! ## Workspace ids -/

/-- The id looks like the Base64 form of a path in an older link. -/
def looksLikeLegacyPath (id : Text) : Bool :=
  (nonEmpty (decodeBase64UrlNoPadUtf8 id)).any isCleanLegacyPathDecode

/-- An id that does not look like the form of another one. -/
def isReadable (id : Text) : Bool :=
  !isUrlSafeWorkspaceId id || (!base64WorkspaceIdPrefix.isPrefixOf id && !looksLikeLegacyPath id)

theorem unreserved_of_urlSafe (h : isUrlSafeWorkspaceId id = true) :
    ∀ c ∈ id, Uri.isUnreserved c = true := by
  intro c hc
  rw [isUrlSafeWorkspaceId, Bool.and_eq_true, List.all_eq_true] at h
  have hsafe := h.2 c hc
  rw [Uri.isUnreserved]
  simp only [Bool.or_eq_true, decide_eq_true_eq] at hsafe
  rcases hsafe with (((halpha | rfl) | rfl) | rfl) | rfl
  · rw [halpha, Bool.true_or]
  · decide
  · decide
  · decide
  · decide

theorem encodeWorkspaceId_eq (htrim : trimBy isWhiteSpace id = id) (hne : id ≠ []) :
    encodeWorkspaceIdForPathSegment id = if isUrlSafeWorkspaceId id then id
      else base64WorkspaceIdPrefix ++ toBase64UrlNoPad id := by
  rw [encodeWorkspaceIdForPathSegment, trimNonEmpty_of_trimmed htrim hne]

theorem encodeWorkspaceId_spec (htrim : trimBy isWhiteSpace id = id) (hne : id ≠ []) :
    (∀ c ∈ encodeWorkspaceIdForPathSegment id, Uri.isUnreserved c = true) ∧
      encodeWorkspaceIdForPathSegment id ≠ [] := by
  rw [encodeWorkspaceId_eq htrim hne]
  split_ifs with hsafe
  · exact ⟨unreserved_of_urlSafe hsafe, hne⟩
  · refine ⟨?_, by simp [base64WorkspaceIdPrefix]⟩
    intro c hc
    rcases mem_append.mp hc with hstart | hpayload
    · simp only [base64WorkspaceIdPrefix, mem_cons, not_mem_nil, or_false] at hstart
      rcases hstart with rfl | rfl | rfl | rfl <;> decide
    · exact unreserved_toBase64UrlNoPad id c hpayload

/-- What the decoder makes of a segment of unreserved characters. -/
def readSegment (decoded : Text) : Option Text :=
  if base64WorkspaceIdPrefix.isPrefixOf decoded then
    let payload := decoded.drop base64WorkspaceIdPrefix.length
    (nonEmpty ((tryDecodeBase64UrlNoPadUtf8 payload).orElse fun _ =>
      decodeBase64UrlNoPadUtf8 payload)).map (trimBy isWhiteSpace)
  else
    match (nonEmpty (tryDecodeBase64UrlNoPadUtf8 decoded)).filter isCleanLegacyPathDecode with
    | some path => some (trimBy isWhiteSpace path)
    | none =>
      match (nonEmpty (decodeBase64UrlNoPadUtf8 decoded)).filter isCleanLegacyPathDecode with
      | some path => some (trimBy isWhiteSpace path)
      | none => some (trimBy isWhiteSpace decoded)

theorem decodeSegment_of_unreserved (hfree : ∀ c ∈ value, Uri.isUnreserved c = true) :
    decodeSegment value = value := by
  have hround := decodeSegment_encodeSegment value
  rw [encodeSegment, Uri.encodeComponent_of_unreserved hfree] at hround
  exact hround

theorem decodeWorkspaceId_eq (hfree : ∀ c ∈ value, Uri.isUnreserved c = true) (hne : value ≠ []) :
    decodeWorkspaceIdFromPathSegment value = readSegment value := by
  have hself := trimNonEmpty_of_trimmed (trimBy_of_unreserved hfree) hne
  have hdecoded := decodeSegment_of_unreserved hfree
  rw [decodeWorkspaceIdFromPathSegment, hself, bind_some, hdecoded, hself, bind_some]
  rfl

theorem readSegment_prefixed (hne : id ≠ []) (htrim : trimBy isWhiteSpace id = id) :
    readSegment (base64WorkspaceIdPrefix ++ toBase64UrlNoPad id) = some id := by
  have hstart : base64WorkspaceIdPrefix.isPrefixOf (base64WorkspaceIdPrefix ++ toBase64UrlNoPad id) = true :=
    isPrefixOf_iff_prefix.mpr (prefix_append _ _)
  have hfound : nonEmpty (some id) = some id := filter_some_pos (by simpa using hne)
  rw [readSegment, if_pos hstart, drop_left]
  dsimp only
  rw [tryDecode_toBase64UrlNoPad hne, orElse_some, hfound, map_some, htrim]

/-- What is read from Base64 is shorter. -/
theorem length_read (h : (tryDecodeBase64UrlNoPadUtf8 value).orElse
    (fun _ => decodeBase64UrlNoPadUtf8 value) = some decoded) : decoded.length < value.length := by
  cases htry : tryDecodeBase64UrlNoPadUtf8 value with
  | none =>
    rw [htry, orElse_none] at h
    exact length_decodeBase64 h
  | some strict =>
    rw [htry, orElse_some] at h
    have hlength := length_decodeBase64 (tryDecode_eq_some htry).1
    have htrimmed := length_trimBy_le isWhiteSpace value
    rw [← some.inj h]
    omega

/-- An id that has the prefix is read as another one, or not at all. -/
theorem readSegment_of_prefix (hstart : base64WorkspaceIdPrefix.isPrefixOf id = true) :
    readSegment id ≠ some id := by
  intro h
  rw [readSegment, if_pos hstart] at h
  obtain ⟨decoded, hdecoded, htrim⟩ := map_eq_some_iff.mp h
  have hlength := length_read (filter_eq_some_iff.mp hdecoded).1
  have htrimmed := length_trimBy_le isWhiteSpace decoded
  rw [htrim] at htrimmed
  rw [length_drop] at hlength
  omega

theorem readSegment_legacy (hstart : base64WorkspaceIdPrefix.isPrefixOf id = false)
    (hlegacy : looksLikeLegacyPath id = true) : readSegment id ≠ some id := by
  have hshorter : ∀ path : Text, path.length < id.length → some (trimBy isWhiteSpace path) ≠ some id := by
    intro path hlength heq
    have htrimmed := length_trimBy_le isWhiteSpace path
    rw [some.inj heq] at htrimmed
    omega
  rw [readSegment, hstart, if_neg Bool.false_ne_true]
  split
  · rename_i path hpath
    have hstrict := (filter_eq_some_iff.mp (filter_eq_some_iff.mp hpath).1).1
    apply hshorter
    apply length_read
    rw [hstrict, orElse_some]
  · split
    · rename_i path hpath
      have hrelaxed := (filter_eq_some_iff.mp (filter_eq_some_iff.mp hpath).1).1
      exact hshorter path (length_decodeBase64 hrelaxed)
    · rename_i hnone
      -- the path that the id looks like would have been found
      rw [looksLikeLegacyPath, Option.any_eq_true] at hlegacy
      obtain ⟨path, hpath, hclean⟩ := hlegacy
      rw [hpath, filter_some_pos hclean] at hnone
      contradiction

theorem readSegment_plain (hstart : base64WorkspaceIdPrefix.isPrefixOf id = false)
    (hlegacy : looksLikeLegacyPath id = false) (htrim : trimBy isWhiteSpace id = id) :
    readSegment id = some id := by
  have hrelaxed : (nonEmpty (decodeBase64UrlNoPadUtf8 id)).filter isCleanLegacyPathDecode = none := by
    rw [looksLikeLegacyPath, Option.any_eq_false] at hlegacy
    rw [filter_eq_none_iff]
    simpa using hlegacy
  have hstrict : (nonEmpty (tryDecodeBase64UrlNoPadUtf8 id)).filter isCleanLegacyPathDecode = none := by
    cases htry : tryDecodeBase64UrlNoPadUtf8 id with
    | none => rfl
    | some decoded =>
      have hdecoded := (tryDecode_eq_some htry).1
      rw [htrim] at hdecoded
      rw [hdecoded] at hrelaxed
      exact hrelaxed
  rw [readSegment, hstart, if_neg Bool.false_ne_true, hstrict, hrelaxed, htrim]

/-- An id is read back just when it does not look like another one. -/
theorem decodeWorkspaceId_encode_iff (htrim : trimBy isWhiteSpace id = id) (hne : id ≠ []) :
    decodeWorkspaceIdFromPathSegment (encodeWorkspaceIdForPathSegment id) = some id ↔
      isReadable id = true := by
  obtain ⟨hfree, hsegment⟩ := encodeWorkspaceId_spec htrim hne
  rw [decodeWorkspaceId_eq hfree hsegment, encodeWorkspaceId_eq htrim hne, isReadable]
  cases hsafe : isUrlSafeWorkspaceId id with
  | false =>
    rw [if_neg Bool.false_ne_true, readSegment_prefixed hne htrim]
    simp
  | true =>
    rw [if_pos rfl]
    cases hstart : base64WorkspaceIdPrefix.isPrefixOf id with
    | true => simpa using readSegment_of_prefix hstart
    | false =>
      cases hlegacy : looksLikeLegacyPath id with
      | true => simpa using readSegment_legacy hstart hlegacy
      | false => simpa using readSegment_plain hstart hlegacy htrim

end Orqara.Routes
