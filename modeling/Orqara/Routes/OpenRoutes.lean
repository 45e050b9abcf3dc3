import Orqara.Routes.RouteRoundTrips

/-!
# What a route says

The server, the workspace and what is to be opened are read from a route just when neither the
workspace nor one that is to be set up has an id that looks like the form of another one.
-/

namespace Orqara.Routes

open List Option

variable {serverId workspaceId other value : Text} {intent : WorkspaceOpenIntent} {segment : Text}

/-! ## Characters -/

theorem not_mem_encodeSegment {c : Char} (hfree : Uri.isUnreserved c = false) (hpercent : c ≠ '%')
    (value : Text) : c ∉ encodeSegment value :=
  Uri.not_mem_encodeComponent hfree hpercent value

/-! ## Intents -/

/-- An intent with its payload trimmed. -/
def WorkspaceOpenIntent.trimmed (intent : WorkspaceOpenIntent) : WorkspaceOpenIntent :=
  { intent with payload := trimBy isWhiteSpace intent.payload }

section

variable (kind : OpenIntentKind)

theorem unreserved_name : ∀ c ∈ kind.name, Uri.isUnreserved c = true := by
  have hall : kind.name.all Uri.isUnreserved = true := by cases kind <;> rfl
  exact List.all_eq_true.mp hall

theorem find_name :
    (OpenIntentKind.all.find? fun known => known.name == kind.name) = some kind := by
  cases kind <;> rfl

/-- What is read of the payload of an intent. -/
def readPayload (kind : OpenIntentKind) (payload : Text) : Option WorkspaceOpenIntent :=
  match kind with
  | .agent | .terminal | .draft => some ⟨kind, payload⟩
  | .file => (nonEmpty (decodeFilePathFromPathSegment payload)).map fun path => ⟨kind, path⟩
  | .setup => (nonEmpty (decodeWorkspaceIdFromPathSegment payload)).map fun id => ⟨kind, id⟩

theorem trimBy_text (h : trimBy isWhiteSpace value ≠ []) :
    trimBy isWhiteSpace (kind.name ++ ':' :: value) = kind.name ++ ':' :: value.rdropWhile isWhiteSpace := by
  have hdrop : (kind.name ++ ':' :: value).dropWhile isWhiteSpace = kind.name ++ ':' :: value := by
    cases kind <;> rfl
  have hend : (':' :: value).rdropWhile isWhiteSpace = ':' :: value.rdropWhile isWhiteSpace :=
    rdropWhile_append [':'] (rdropWhile_ne_nil h)
  rw [trimBy, hdrop, rdropWhile_append kind.name (by rw [hend]; exact cons_ne_nil _ _),
    hend]

theorem parseWorkspaceOpenIntent_text (h : trimBy isWhiteSpace value ≠ []) :
    parseWorkspaceOpenIntent (kind.name ++ ':' :: value) =
      readPayload kind (trimBy isWhiteSpace value) := by
  have htext := trimBy_text kind h
  have hne : trimBy isWhiteSpace (kind.name ++ ':' :: value) ≠ [] := by
    rw [htext]
    exact append_ne_nil_of_right_ne_nil _ (cons_ne_nil _ _)
  have hcolon : ∀ c ∈ kind.name, decide (c ≠ ':') = true := by
    intro c hc
    rw [decide_eq_true_eq]
    rintro rfl
    exact absurd (unreserved_name kind _ hc) (by decide)
  have hlength : value.rdropWhile isWhiteSpace ≠ [] := rdropWhile_ne_nil h
  have hpayload := trimBy_rdropWhile isWhiteSpace value
  rw [parseWorkspaceOpenIntent, trimNonEmpty_eq hne, bind_some, htext]
  dsimp only
  rw [takeWhile_append_of_pos hcolon, dropWhile_append_of_pos hcolon,
    takeWhile_cons_of_neg (by simp), dropWhile_cons_of_neg (by simp), append_nil,
    if_neg, drop_one, tail_cons, trimNonEmpty_eq (hpayload ▸ h), bind_some, hpayload,
    find_name, bind_some]
  · cases kind <;> rfl
  · have hpos := length_pos_iff.mpr hlength
    have hname : kind.name.isEmpty = false := by cases kind <;> rfl
    rw [hname]
    simp only [isEmpty_cons, Bool.or_false, Bool.false_or, decide_eq_true_eq, length_cons]
    omega

end

section

variable (h : trimBy isWhiteSpace value ≠ [])
include h

theorem encodeFilePath_eq :
    encodeFilePathForPathSegment value = toBase64UrlNoPad (trimBy isWhiteSpace value) := by
  rw [encodeFilePathForPathSegment, trimNonEmpty_eq h]

theorem decodeFilePath_encode :
    decodeFilePathFromPathSegment (encodeFilePathForPathSegment value) =
      some (trimBy isWhiteSpace value) := by
  have hfree := unreserved_toBase64UrlNoPad (trimBy isWhiteSpace value)
  have hself := trimNonEmpty_of_trimmed (trimBy_of_unreserved hfree) (toBase64UrlNoPad_ne_nil h)
  have hdecoded := decodeSegment_of_unreserved hfree
  rw [encodeFilePath_eq h, decodeFilePathFromPathSegment, hself, bind_some, hdecoded, hself,
    bind_some, tryDecode_toBase64UrlNoPad h]

theorem encodeWorkspaceId_trim :
    encodeWorkspaceIdForPathSegment value =
      encodeWorkspaceIdForPathSegment (trimBy isWhiteSpace value) := by
  have htrimmed := trimNonEmpty_of_trimmed (trimBy_trimBy value) h
  rw [encodeWorkspaceIdForPathSegment, trimNonEmpty_eq h, encodeWorkspaceIdForPathSegment, htrimmed]

end

/-- An intent is read back, but for a workspace id that looks like another one. -/
theorem parse_text_iff (h : trimBy isWhiteSpace intent.payload ≠ []) :
    parseWorkspaceOpenIntent intent.text = some intent.trimmed ↔
      (intent.kind = .setup → isReadable (trimBy isWhiteSpace intent.payload) = true) := by
  obtain ⟨kind, payload⟩ := intent
  have hsome : ∀ value : Text, value ≠ [] → nonEmpty (some value) = some value := fun value hne =>
    filter_some_pos (by simpa using hne)
  cases kind with
  | agent | terminal | draft =>
    refine iff_of_true ?_ nofun
    exact parseWorkspaceOpenIntent_text _ h
  | file =>
    refine iff_of_true ?_ nofun
    have hfree := unreserved_toBase64UrlNoPad (trimBy isWhiteSpace payload)
    have hpayload : trimBy isWhiteSpace (encodeFilePathForPathSegment payload) =
        encodeFilePathForPathSegment payload := by
      rw [encodeFilePath_eq h]
      exact trimBy_of_unreserved hfree
    have hne : encodeFilePathForPathSegment payload ≠ [] := by
      rw [encodeFilePath_eq h]
      exact toBase64UrlNoPad_ne_nil h
    have hparse := parseWorkspaceOpenIntent_text .file (hpayload.symm ▸ hne)
    rw [hpayload, readPayload, decodeFilePath_encode h, hsome _ h] at hparse
    exact hparse
  | setup =>
    have htrim := trimBy_trimBy payload
    obtain ⟨hfree, hne⟩ := encodeWorkspaceId_spec htrim h
    have hpayload := trimBy_of_unreserved hfree
    have hparse := parseWorkspaceOpenIntent_text .setup (hpayload.symm ▸ hne)
    rw [hpayload, ← encodeWorkspaceId_trim h] at hparse
    change parseWorkspaceOpenIntent (OpenIntentKind.name .setup ++ ':' ::
      encodeWorkspaceIdForPathSegment payload) = _ ↔ _
    rw [hparse, readPayload, encodeWorkspaceId_trim h]
    have hiff := decodeWorkspaceId_encode_iff htrim h
    constructor
    · intro hread _
      obtain ⟨id, hid, heq⟩ := map_eq_some_iff.mp hread
      have hideq : id = trimBy isWhiteSpace payload := congrArg WorkspaceOpenIntent.payload heq
      apply hiff.mp
      rw [← hideq] at hid ⊢
      exact (filter_eq_some_iff.mp hid).1
    · intro hreadable
      rw [hiff.mpr (hreadable rfl), hsome _ h]
      rfl

/-! ## Routes -/

/-- The route of a server and the segment of a workspace. -/
def routeOf (serverId segment : Text) : Text :=
  '/' :: (hostSegment ++ '/' :: (encodeSegment serverId ++ '/' :: (workspaceSegment ++ '/' :: segment)))

section

variable (hserver : trimBy isWhiteSpace serverId ≠ [])
include hserver

section

variable (hworkspace : trimBy isWhiteSpace workspaceId ≠ [])
include hworkspace

theorem buildHostWorkspaceRoute_eq : buildHostWorkspaceRoute serverId workspaceId =
      routeOf (trimBy isWhiteSpace serverId)
        (encodeWorkspaceIdForPathSegment (trimBy isWhiteSpace workspaceId)) := by
  obtain ⟨hfree, hne⟩ := encodeWorkspaceId_spec (trimBy_trimBy workspaceId) hworkspace
  rw [buildHostWorkspaceRoute, trimNonEmpty_eq hserver, trimNonEmpty_eq hworkspace]
  dsimp only
  rw [if_neg (by simpa using hne), encodeSegment, encodeSegment, Uri.encodeComponent_of_unreserved hfree,
    routeOf, encodeSegment]
  simp only [append_assoc, cons_append]

omit hworkspace in
omit hserver in
theorem not_mem_routeOf {c : Char} (hfree : Uri.isUnreserved c = false) (hpercent : c ≠ '%')
    (hslash : c ≠ '/') (hsegment : ∀ d ∈ segment, Uri.isUnreserved d = true) :
    c ∉ routeOf serverId segment := by
  have hword : ∀ word : Text, word.all Uri.isUnreserved = true → c ∉ word := by
    intro word hword hmem
    have hc := List.all_eq_true.mp hword c hmem
    rw [hfree] at hc
    contradiction
  have hhost : c ∉ hostSegment := hword hostSegment rfl
  have hworkspace : c ∉ workspaceSegment := hword workspaceSegment rfl
  have hlast : c ∉ segment := hword segment (List.all_eq_true.mpr hsegment)
  have hserver := not_mem_encodeSegment hfree hpercent serverId
  simp only [routeOf, mem_cons, mem_append, not_or]
  exact ⟨hslash, hhost, hslash, hserver, hslash, hworkspace, hslash, hlast⟩

omit hworkspace in
omit hserver in
theorem matchHostWorkspace_routeOf (hserver : serverId ≠ [])
    (hsegment : ∀ d ∈ segment, Uri.isUnreserved d = true) (hne : segment ≠ []) :
    matchHostWorkspace (routeOf serverId segment) = some (encodeSegment serverId, segment) := by
  have hencoded : encodeSegment serverId ≠ [] := Uri.encodeComponent_ne_nil hserver
  have hslash : '/' ∉ segment := fun hmem => absurd (hsegment _ hmem) (by decide)
  have hserverSlash : '/' ∉ encodeSegment serverId := not_mem_encodeSegment (by decide) (by decide) serverId
  have hsplit : (routeOf serverId segment).splitOn '/' =
      [[], hostSegment, encodeSegment serverId, workspaceSegment, segment] := by
    have hempty : '/' ∉ ([] : Text) := not_mem_nil
    have hfirst := splitOn_append_cons_self_of_not_mem hempty
      (hostSegment ++ '/' :: (encodeSegment serverId ++ '/' :: (workspaceSegment ++ '/' :: segment)))
    rw [nil_append] at hfirst
    rw [routeOf, hfirst, splitOn_append_cons_self_of_not_mem (by decide),
      splitOn_append_cons_self_of_not_mem hserverSlash,
      splitOn_append_cons_self_of_not_mem (by decide), splitOn_eq_singleton hslash]
  rw [matchHostWorkspace, hsplit]
  exact if_pos ⟨rfl, rfl, rfl, hencoded, hne⟩

omit hworkspace in
omit hserver in
/-- The query of a route. -/
theorem route_parts {base query : Text} (hbase : '#' ∉ base ∧ '?' ∉ base) (hquery : '#' ∉ query) :
    stripSearchAndHash (base ++ '?' :: query) = base ∧ extractSearch (base ++ '?' :: query) = query := by
  have hnone : ∀ c ∈ base, (decide (c ≠ '#') && decide (c ≠ '?')) = true := by
    intro c hc
    have hhash : c ≠ '#' := fun heq => hbase.1 (heq ▸ hc)
    have hmark : c ≠ '?' := fun heq => hbase.2 (heq ▸ hc)
    simp [hhash, hmark]
  have hmark : ∀ c ∈ base, decide (c ≠ '?') = true := by
    intro c hc
    exact (Bool.and_eq_true_iff.mp (hnone c hc)).2
  have hhash : ∀ c ∈ query, decide (c ≠ '#') = true := by
    intro c hc
    simpa using fun heq : c = '#' => hquery (heq ▸ hc)
  constructor
  · rw [stripSearchAndHash, takeWhile_append_of_pos hnone, takeWhile_cons_of_neg (by decide),
      append_nil]
  · rw [extractSearch, dropWhile_append_of_pos hmark, dropWhile_cons_of_neg (by decide),
      drop_one, tail_cons, takeWhile_eq_self_iff.mpr hhash]

/-- The query that asks to open something. -/
def openQuery (text : Text) : Text := openParam ++ '=' :: Uri.encodeComponent (trimBy isWhiteSpace text)

theorem buildHostWorkspaceOpenRoute_eq (hvalue : trimBy isWhiteSpace value ≠ []) :
    buildHostWorkspaceOpenRoute serverId workspaceId value =
      routeOf (trimBy isWhiteSpace serverId)
        (encodeWorkspaceIdForPathSegment (trimBy isWhiteSpace workspaceId)) ++ '?' :: openQuery value := by
  have hroot : routeOf (trimBy isWhiteSpace serverId)
      (encodeWorkspaceIdForPathSegment (trimBy isWhiteSpace workspaceId)) ≠ rootRoute := by
    intro hroot
    have htail := (List.cons.inj hroot).2
    exact absurd htail (by simp [hostSegment])
  rw [buildHostWorkspaceOpenRoute, trimNonEmpty_eq hvalue]
  dsimp only
  rw [buildHostWorkspaceRoute_eq hserver hworkspace, if_neg hroot, openQuery]
  simp only [append_assoc, cons_append]

omit hworkspace in
omit hserver in
theorem hash_not_mem_openQuery (value : Text) : '#' ∉ openQuery value := by
  intro hmem
  rcases mem_append.mp hmem with hname | hrest
  · exact absurd hname (by decide)
  · rcases mem_cons.mp hrest with hequal | hencoded
    · exact absurd hequal (by decide)
    · exact Uri.not_mem_encodeComponent (by decide) (by decide) _ hencoded

omit hworkspace in
omit hserver in
theorem searchParam_openQuery (value : Text) :
    searchParam (openQuery value) openParam = some (trimBy isWhiteSpace value) := by
  have hhead : (openQuery value).head? ≠ some '?' := by
    rw [openQuery]
    simp [openParam]
  rw [searchParam, if_neg hhead, openQuery]
  exact Uri.formGet_field (List.all_eq_true.mp (by rfl)) _

omit hworkspace in
omit hserver in
theorem parseWorkspaceOpenIntent_trim (value : Text) :
    parseWorkspaceOpenIntent (trimBy isWhiteSpace value) = parseWorkspaceOpenIntent value := by
  rw [parseWorkspaceOpenIntent, trimNonEmpty, trimBy_trimBy, parseWorkspaceOpenIntent, trimNonEmpty]

omit hworkspace in
omit hserver in
theorem route_parts_openRoute (serverId workspaceId value : Text) (hworkspace : trimBy isWhiteSpace workspaceId ≠ []) :
    let base := routeOf (trimBy isWhiteSpace serverId)
      (encodeWorkspaceIdForPathSegment (trimBy isWhiteSpace workspaceId))
    stripSearchAndHash (base ++ '?' :: openQuery value) = base ∧
      extractSearch (base ++ '?' :: openQuery value) = openQuery value := by
  obtain ⟨hfree, -⟩ := encodeWorkspaceId_spec (trimBy_trimBy workspaceId) hworkspace
  apply route_parts _ (hash_not_mem_openQuery value)
  exact ⟨not_mem_routeOf (by decide) (by decide) (by decide) hfree,
    not_mem_routeOf (by decide) (by decide) (by decide) hfree⟩

/-- The intent is read from the route as from its text. -/
theorem parseIntent_route (hvalue : trimBy isWhiteSpace value ≠ []) :
    parseHostWorkspaceOpenIntentFromPathname (buildHostWorkspaceOpenRoute serverId workspaceId value) =
      parseWorkspaceOpenIntent value := by
  have hparts := (route_parts_openRoute serverId workspaceId value hworkspace).2
  have hquery : (openQuery value).isEmpty = false := rfl
  rw [buildHostWorkspaceOpenRoute_eq hserver hworkspace hvalue, parseHostWorkspaceOpenIntentFromPathname,
    getHostWorkspaceOpenParamFromPathname]
  rw [hparts, hquery, if_neg Bool.false_ne_true, searchParam_openQuery]
  rw [← parseWorkspaceOpenIntent_trim value]
  cases hparse : parseWorkspaceOpenIntent (trimBy isWhiteSpace value) with
  | none => simp [Option.filter, hparse]
  | some intent => simp [Option.filter, hparse]

theorem parseRoute_route (hvalue : trimBy isWhiteSpace value ≠ []) :
    parseHostWorkspaceRouteFromPathname (buildHostWorkspaceOpenRoute serverId workspaceId value) =
      some ⟨trimBy isWhiteSpace serverId, trimBy isWhiteSpace workspaceId⟩ ↔
        isReadable (trimBy isWhiteSpace workspaceId) = true := by
  obtain ⟨hfree, hne⟩ := encodeWorkspaceId_spec (trimBy_trimBy workspaceId) hworkspace
  have hparts := (route_parts_openRoute serverId workspaceId value hworkspace).1
  rw [buildHostWorkspaceOpenRoute_eq hserver hworkspace hvalue, parseHostWorkspaceRouteFromPathname,
    hparts, matchHostWorkspace_routeOf hserver hfree hne, bind_some, decodeSegment_encodeSegment,
    trimNonEmpty_of_trimmed (trimBy_trimBy serverId) hserver, bind_some,
    ← decodeWorkspaceId_encode_iff (trimBy_trimBy workspaceId) hworkspace]
  constructor
  · intro hread
    obtain ⟨id, hid, heq⟩ := map_eq_some_iff.mp hread
    have hideq : id = trimBy isWhiteSpace workspaceId := congrArg HostWorkspaceRoute.workspaceId heq
    rw [hideq] at hid
    exact (filter_eq_some_iff.mp hid).1
  · intro hread
    rw [hread, nonEmpty, filter_some_pos (by simpa using hworkspace)]
    rfl

end

end

/-! ## Different workspaces -/

theorem routeOf_injective {server segment' : Text} (h : routeOf server segment = routeOf server segment') :
    segment = segment' := by
  simp only [routeOf, List.cons.injEq, append_cancel_left_eq, true_and] at h
  exact h

/-- The form of an id that does not stand in its segment as it is. -/
def prefixedForm (id : Text) : Text := base64WorkspaceIdPrefix ++ toBase64UrlNoPad id

theorem hasPrefix_prefixedForm (id : Text) : base64WorkspaceIdPrefix.isPrefixOf (prefixedForm id) = true :=
  isPrefixOf_iff_prefix.mpr (prefix_append _ _)

theorem isUrlSafe_prefixedForm (id : Text) : isUrlSafeWorkspaceId (prefixedForm id) = true := by
  obtain ⟨sextets, hlt, heq, -⟩ := toBase64UrlNoPad_eq id
  rw [isUrlSafeWorkspaceId, Bool.and_eq_true]
  refine ⟨rfl, ?_⟩
  rw [prefixedForm, all_append, Bool.and_eq_true]
  refine ⟨rfl, List.all_eq_true.mpr fun c hc => ?_⟩
  rw [heq] at hc
  obtain ⟨n, hn, rfl⟩ := List.mem_map.mp hc
  have hdigit := (urlDigit_facts n (hlt n hn)).2.2
  simp only [Bool.or_eq_true, decide_eq_true_eq] at hdigit ⊢
  rcases hdigit with (halpha | hline) | hdash
  · exact Or.inl (Or.inl (Or.inl (Or.inl halpha)))
  · exact Or.inl (Or.inl (Or.inr hline))
  · exact Or.inr hdash

section Encode

variable {a b : Text}

theorem encodeWorkspaceId_inj (ha : trimBy isWhiteSpace a = a ∧ a ≠ []) (hb : trimBy isWhiteSpace b = b ∧ b ≠ [])
    (hreadable : isReadable a = true) (hform : isUrlSafeWorkspaceId a = true ∨ b ≠ prefixedForm a)
    (h : encodeWorkspaceIdForPathSegment b = encodeWorkspaceIdForPathSegment a) : b = a := by
  rw [encodeWorkspaceId_eq ha.1 ha.2, encodeWorkspaceId_eq hb.1 hb.2] at h
  split_ifs at h with hsafeb hsafea hsafea
  · exact h
  · exact absurd h (hform.resolve_left hsafea)
  · -- a readable id does not have the prefix
    have hstart := hasPrefix_prefixedForm b
    rw [prefixedForm, h] at hstart
    rw [isReadable, hsafea, hstart] at hreadable
    contradiction
  · exact toBase64UrlNoPad_injective hb.2 ha.2 (append_cancel_left h)

/-- The prefixed form of an id has the same segment as the id. -/
theorem encodeWorkspaceId_prefixedForm (ha : trimBy isWhiteSpace a = a ∧ a ≠ [])
    (hsafe : isUrlSafeWorkspaceId a = false) : encodeWorkspaceIdForPathSegment (prefixedForm a) =
      encodeWorkspaceIdForPathSegment a := by
  have hform := isUrlSafe_prefixedForm a
  have htrim := trimBy_of_unreserved (unreserved_of_urlSafe hform)
  have hne : prefixedForm a ≠ [] := by simp [prefixedForm, base64WorkspaceIdPrefix]
  rw [encodeWorkspaceId_eq htrim hne, hform, if_pos rfl, encodeWorkspaceId_eq ha.1 ha.2, hsafe,
    if_neg Bool.false_ne_true, prefixedForm]

end Encode

/-! ## Round trips -/

/-- A route says what it was built from, and the route of another workspace is another one. -/
structure RoundTrips (serverId workspaceId other : Text) (intent : WorkspaceOpenIntent) : Prop where
  route : parseHostWorkspaceRouteFromPathname (buildHostWorkspaceOpenRoute serverId workspaceId intent.text) =
    some ⟨trimBy isWhiteSpace serverId, trimBy isWhiteSpace workspaceId⟩
  opened : parseHostWorkspaceOpenIntentFromPathname
    (buildHostWorkspaceOpenRoute serverId workspaceId intent.text) = some intent.trimmed
  distinct : trimBy isWhiteSpace other ≠ trimBy isWhiteSpace workspaceId →
    buildHostWorkspaceOpenRoute serverId other intent.text ≠
      buildHostWorkspaceOpenRoute serverId workspaceId intent.text

theorem trimBy_intentText (intent : WorkspaceOpenIntent) : trimBy isWhiteSpace intent.text ≠ [] := by
  intro hnil
  rw [trimBy_eq_nil_iff, content_eq_nil_iff] at hnil
  have hcolon := hnil ':' (mem_append_right _ mem_cons_self)
  exact absurd hcolon (by decide)

theorem roundTrips_iff (hserver : trimBy isWhiteSpace serverId ≠ [])
    (hworkspace : trimBy isWhiteSpace workspaceId ≠ []) (hother : trimBy isWhiteSpace other ≠ [])
    (hpayload : trimBy isWhiteSpace intent.payload ≠ []) :
    RoundTrips serverId workspaceId other intent ↔
      isReadable (trimBy isWhiteSpace workspaceId) = true ∧
      (intent.kind = .setup → isReadable (trimBy isWhiteSpace intent.payload) = true) ∧
      (isUrlSafeWorkspaceId (trimBy isWhiteSpace workspaceId) = true ∨
        trimBy isWhiteSpace other ≠ prefixedForm (trimBy isWhiteSpace workspaceId)) := by
  have hroute := parseRoute_route hserver hworkspace (trimBy_intentText intent)
  have hintent := parseIntent_route hserver hworkspace (trimBy_intentText intent)
  have hparse := parse_text_iff hpayload
  have hthis := buildHostWorkspaceOpenRoute_eq hserver hworkspace (trimBy_intentText intent)
  have hthat := buildHostWorkspaceOpenRoute_eq hserver hother (trimBy_intentText intent)
  have htrimmed : trimBy isWhiteSpace (trimBy isWhiteSpace workspaceId) = trimBy isWhiteSpace workspaceId ∧
      trimBy isWhiteSpace workspaceId ≠ [] := ⟨trimBy_trimBy workspaceId, hworkspace⟩
  constructor
  · intro h
    refine ⟨hroute.mp h.route, hparse.mp (hintent.symm.trans h.opened), ?_⟩
    by_contra hcase
    rw [not_or, Bool.not_eq_true, not_not] at hcase
    -- the other id is the prefixed form of this one
    have hne : trimBy isWhiteSpace other ≠ trimBy isWhiteSpace workspaceId := by
      intro heq
      have hsafe := isUrlSafe_prefixedForm (trimBy isWhiteSpace workspaceId)
      rw [← hcase.2, heq, hcase.1] at hsafe
      contradiction
    apply h.distinct hne
    rw [hthis, hthat, hcase.2, encodeWorkspaceId_prefixedForm htrimmed hcase.1]
  · rintro ⟨hreadable, hsetup, hform⟩
    refine ⟨hroute.mpr hreadable, hintent.trans (hparse.mpr hsetup), fun hne heq => hne ?_⟩
    rw [hthis, hthat] at heq
    have hbase := routeOf_injective (List.append_cancel_right heq)
    exact encodeWorkspaceId_inj htrimmed ⟨trimBy_trimBy other, hother⟩ hreadable hform hbase

/-- An agent in a workspace whose id has to be escaped. -/
theorem roundTrips_teamSetup : RoundTrips [' ', 'l', 'o'] ['a', ' ', 'b'] ['1'] ⟨.agent, ['x', '#']⟩ ↔
    isReadable (trimBy isWhiteSpace ['a', ' ', 'b']) = true ∧
    (OpenIntentKind.agent = .setup → isReadable (trimBy isWhiteSpace ['x', '#']) = true) ∧
    (isUrlSafeWorkspaceId (trimBy isWhiteSpace ['a', ' ', 'b']) = true ∨
      trimBy isWhiteSpace ['1'] ≠ prefixedForm (trimBy isWhiteSpace ['a', ' ', 'b'])) :=
  roundTrips_iff (by decide) (by decide) (by decide) (by decide)

/-- An id with the prefix is taken for the Base64 form of another one. -/
theorem prefixedId_lost : ¬ RoundTrips ['l'] ['b', '6', '4', '_', 'a', 'b', 'c'] ['1'] ⟨.agent, ['x']⟩ := by
  intro h
  have hroute : parseHostWorkspaceRouteFromPathname (buildHostWorkspaceOpenRoute ['l']
      ['b', '6', '4', '_', 'a', 'b', 'c'] (WorkspaceOpenIntent.text ⟨.agent, ['x']⟩)) ≠
        some ⟨['l'], ['b', '6', '4', '_', 'a', 'b', 'c']⟩ := by
    decide +kernel
  exact hroute h.route

end Orqara.Routes
