import Orqara.Speech.SpeechSegments

/-!
# What is in the segments of a text

Every cut goes through white space or between two characters, so that the segments hold all of the
text but its white space.
-/

namespace Orqara.Speech

open JsonParse List

variable {maxChars : ℕ} {units source : Units} {u : UInt16}

/-! ## White space and cuts -/

theorem content_collapse (behindBlank : Bool) (units : Units) :
    content isBlank (collapse behindBlank units) = content isBlank units := by
  induction units generalizing behindBlank with
  | nil => cases behindBlank <;> rfl
  | cons u units ih =>
    cases h : isBlank u with
    | true =>
      rw [content_cons_of_blank h]
      cases behindBlank with
      | true => simp [collapse, h, ih]
      | false => simp [collapse, h, content_cons_of_blank isBlank_space, ih]
    | false =>
      simp only [collapse, h, Bool.false_eq_true, if_false]
      rw [content_cons, ih, ← content_cons]

/-- The only white space that is left are spaces. -/
theorem eq_space_of_mem_collapse {behindBlank : Bool} (h : u ∈ collapse behindBlank units)
    (hblank : isBlank u = true) : u = space := by
  induction units generalizing behindBlank with
  | nil => cases behindBlank <;> contradiction
  | cons v units ih =>
    cases hv : isBlank v with
    | true =>
      cases behindBlank with
      | true =>
        simp only [collapse, hv, if_true] at h
        exact ih h
      | false =>
        simp only [collapse, hv, if_true, Bool.false_eq_true, if_false, mem_cons] at h
        exact h.elim id ih
    | false =>
      simp only [collapse, hv, Bool.false_eq_true, if_false, mem_cons] at h
      rcases h with rfl | h
      · rw [hv] at hblank
        contradiction
      · exact ih h

theorem content_splitBehind (mark : UInt16 → Bool) (units : Units) :
    content isBlank (splitBehind mark units).flatten = content isBlank units := by
  induction units using splitBehind.induct mark with
  | case1 => simp [splitBehind]
  | case2 u => simp [splitBehind]
  | case3 u next units hcut ih =>
    rw [splitBehind, if_pos hcut, flatten_cons, content_append, ih, content_dropWhile,
      ← content_append, singleton_append]
  | case4 u next units hcut hnil ih => exact absurd hnil (splitBehind_ne_nil _ _)
  | case5 u next units hcut chunk chunks hrest ih =>
    rw [hrest] at ih
    rw [splitBehind, if_neg hcut, hrest]
    show content isBlank (u :: (chunk :: chunks).flatten) = _
    rw [content_cons, ih, ← content_cons]

theorem mem_of_mem_splitBehind (mark : UInt16 → Bool) (units : Units) :
    ∀ chunk ∈ splitBehind mark units, ∀ u ∈ chunk, u ∈ units := by
  induction units using splitBehind.induct mark with
  | case1 => simp [splitBehind]
  | case2 u => simp [splitBehind]
  | case3 u next units hcut ih =>
    rw [splitBehind, if_pos hcut]
    intro chunk hchunk v hv
    rcases mem_cons.mp hchunk with rfl | hmem
    · rw [mem_singleton.mp hv]
      exact mem_cons_self
    · have hrest := ih chunk hmem v hv
      exact mem_cons_of_mem _ ((dropWhile_suffix _).subset hrest)
  | case4 u next units hcut hnil ih => exact absurd hnil (splitBehind_ne_nil _ _)
  | case5 u next units hcut chunk chunks hrest ih =>
    rw [hrest] at ih
    rw [splitBehind, if_neg hcut, hrest]
    intro other hother v hv
    rcases mem_cons.mp hother with rfl | hmem
    · rcases mem_cons.mp hv with rfl | hv
      · exact mem_cons_self
      · exact mem_cons_of_mem _ (ih chunk mem_cons_self v hv)
    · exact mem_cons_of_mem _ (ih other (mem_cons_of_mem _ hmem) v hv)

/-! ## Fragments -/

/-- A fragment of a text. -/
structure Fragment (maxChars : ℕ) (source part : Units) : Prop where
  trimmed : TrimmedBy isBlank part
  ne_nil : part ≠ []
  length_le : part.length ≤ maxChars
  mem : ∀ u ∈ part, u ∈ source ∨ u = space

/-- Fragments that hold all of a text. -/
structure Fragments (maxChars : ℕ) (source : Units) (parts : List Units) : Prop where
  each : ∀ part ∈ parts, Fragment maxChars source part
  whole : content isBlank parts.flatten = content isBlank source

theorem Fragment.mono {source' part : Units} (h : Fragment maxChars source part)
    (hsub : ∀ u ∈ source, u ∈ source') : Fragment maxChars source' part where
  trimmed := h.trimmed
  ne_nil := h.ne_nil
  length_le := h.length_le
  mem := fun u hu => (h.mem u hu).imp_left (hsub u)

theorem le_of_lastIndexOf {fromIndex idx : ℕ} (h : lastIndexOf u fromIndex units = some idx) :
    idx ≤ fromIndex := by
  have hmem := mem_of_find?_eq_some h
  rw [mem_reverse, mem_range] at hmem
  omega

theorem cutIndex_le (maxChars : ℕ) (units : Units) : cutIndex maxChars units ≤ maxChars := by
  unfold cutIndex
  split
  · exact le_rfl
  · next idx hidx =>
    have hle := le_of_lastIndexOf hidx
    split <;> omega

theorem fragments_cutRemaining (hmax : 2 ≤ maxChars) (units : Units) (h : TrimmedBy isBlank units) :
    Fragments maxChars units (cutRemaining maxChars hmax units) := by
  induction units using cutRemaining.induct maxChars hmax with
  | case1 units hlong idx ih =>
    have hrest := ih (trimmedBy_trimBy isBlank _)
    have hpos : 0 < idx := cutIndex_pos hmax units
    have hne : units.take idx ≠ [] := by
      intro hnil
      have hlength := congrArg List.length hnil
      rw [length_take, length_nil] at hlength
      omega
    have hcontent : content isBlank (units.take idx) ≠ [] := by
      obtain ⟨first, rest, hunits⟩ := exists_cons_of_ne_nil hne
      have hhead : units.head? = some first := by
        have hfirst := head?_take (l := units) (i := idx)
        rw [if_neg hpos.ne', hunits] at hfirst
        exact hfirst.symm
      rw [hunits, Ne, content_eq_nil_iff]
      intro hall
      have hblank := hall first mem_cons_self
      rw [h.head first hhead] at hblank
      contradiction
    rw [cutRemaining, if_pos hlong]
    constructor
    · intro part hpart
      rcases mem_cons.mp hpart with rfl | hmem
      · refine ⟨trimmedBy_trimBy _ _, fun hnil => hcontent (trimBy_eq_nil_iff.mp hnil), ?_, ?_⟩
        · have hle := length_trimBy_le isBlank (units.take idx)
          rw [length_take] at hle
          have hcut : idx ≤ maxChars := cutIndex_le maxChars units
          exact hle.trans (by omega)
        · exact fun v hv => .inl (mem_of_mem_take (mem_of_mem_trimBy hv))
      · exact (hrest.each part hmem).mono fun v hv => mem_of_mem_drop (mem_of_mem_trimBy hv)
    · rw [flatten_cons, content_append, hrest.whole, trimUnits, trimUnits, content_trimBy,
        content_trimBy, ← content_append, take_append_drop]
  | case2 units hshort hpos =>
    rw [cutRemaining, if_neg hshort, if_pos hpos]
    constructor
    · intro part hpart
      rw [mem_singleton.mp hpart]
      exact ⟨h, ne_nil_of_length_pos hpos, not_lt.mp hshort, fun v hv => .inl hv⟩
    · simp
  | case3 units hshort hzero =>
    have hnil : units = [] := length_eq_zero_iff.mp (Nat.eq_zero_of_not_pos hzero)
    rw [cutRemaining, if_neg hshort, if_neg hzero, hnil]
    exact ⟨nofun, rfl⟩

/-! ## Clauses -/

/-- The parts and the gathered clauses hold all of the clauses so far. -/
structure Gathered (maxChars : ℕ) (source consumed : Units) (state : ClauseParts) : Prop where
  each : ∀ part ∈ state.parts, Fragment maxChars source part
  current : state.current = [] ∨ Fragment maxChars source state.current
  whole : content isBlank (state.parts.flatten ++ state.current) = content isBlank consumed

variable {consumed : Units} {state : ClauseParts}

section

variable (h : Gathered maxChars source consumed state)
include h

theorem Gathered.trimmed_current :
    trimUnits state.current = state.current := by
  rcases h.current with hnil | hfragment
  · rw [hnil]
    rfl
  · exact hfragment.trimmed.trimBy_eq

theorem Gathered.pushCurrent :
    Gathered maxChars source consumed state.pushCurrent := by
  unfold ClauseParts.pushCurrent
  rw [h.trimmed_current]
  split
  · next hnil =>
    refine ⟨h.each, .inl rfl, ?_⟩
    have hwhole := h.whole
    rwa [hnil] at hwhole
  · next hne =>
    refine ⟨?_, .inl rfl, ?_⟩
    · intro part hpart
      rcases mem_append.mp hpart with hmem | hmem
      · exact h.each part hmem
      · rw [mem_singleton.mp hmem]
        exact h.current.resolve_left hne
    · rw [flatten_append, append_nil, flatten_singleton]
      exact h.whole

theorem Gathered.addClause {clause : Units} {fragments : List Units} (hsub : ∀ u ∈ clause, u ∈ source)
    (hfragments : Fragments maxChars (trimUnits clause) fragments) :
    Gathered maxChars source (consumed ++ clause) (state.addClause maxChars clause fragments) := by
  have htrimmed := trimmedBy_trimBy isBlank clause
  have hcontent : content isBlank (trimUnits clause) = content isBlank clause := content_trimBy _
  have hmem : ∀ u ∈ trimUnits clause, u ∈ source := fun v hv => hsub v (mem_of_mem_trimBy hv)
  have hpushed := h.pushCurrent
  unfold ClauseParts.addClause
  simp only []
  split
  · next hnil =>
    refine ⟨h.each, h.current, ?_⟩
    rw [h.whole, content_append, trimBy_eq_nil_iff.mp hnil, append_nil]
  next hne =>
  split
  · refine ⟨?_, .inl rfl, ?_⟩
    · intro part hpart
      rcases mem_append.mp hpart with hold | hnew
      · exact hpushed.each part hold
      · exact (hfragments.each part hnew).mono hmem
    · have hwhole : content isBlank (state.pushCurrent.parts.flatten ++ []) = _ := hpushed.whole
      rw [append_nil] at hwhole
      rw [append_nil, flatten_append, content_append, content_append, hwhole,
        hfragments.whole, hcontent]
  next hshort =>
  have hclause : Fragment maxChars source (trimUnits clause) :=
    ⟨htrimmed, hne, not_lt.mp hshort, fun v hv => .inl (hmem v hv)⟩
  split
  · next hempty =>
    refine ⟨h.each, .inr hclause, ?_⟩
    have hwhole := h.whole
    rw [hempty, append_nil] at hwhole
    rw [content_append, content_append, hwhole, hcontent]
  next hfull =>
  have hcurrent := h.current.resolve_left hfull
  split
  · next hfits =>
    refine ⟨h.each, .inr ⟨?_, by simp, hfits, ?_⟩, ?_⟩
    · exact hcurrent.trimmed.append htrimmed hfull hne [space]
    · intro v hv
      rcases mem_append.mp hv with hv | hv
      · rcases mem_append.mp hv with hv | hv
        · exact hcurrent.mem v hv
        · exact .inr (mem_singleton.mp hv)
      · exact hclause.mem v hv
    · have hwhole := h.whole
      simp only [content_append] at hwhole ⊢
      rw [content_cons_of_blank isBlank_space, hcontent, content_nil, append_nil,
        ← append_assoc, hwhole]
  · refine ⟨hpushed.each, .inr hclause, ?_⟩
    have hwhole : content isBlank (state.pushCurrent.parts.flatten ++ []) = _ := hpushed.whole
    rw [append_nil] at hwhole
    rw [content_append, content_append, hwhole, hcontent]

theorem Gathered.foldl {split : Units → List Units} {clauses : List Units}
    (hsub : ∀ clause ∈ clauses, ∀ u ∈ clause, u ∈ source)
    (hsplit : ∀ clause ∈ clauses, Fragments maxChars (trimUnits clause) (split clause)) :
    Gathered maxChars source (consumed ++ clauses.flatten)
      (clauses.foldl (fun state clause => state.addClause maxChars clause (split clause)) state) := by
  induction clauses generalizing consumed state with
  | nil => simpa using h
  | cons clause clauses ih =>
    have hfirst := h.addClause (hsub clause mem_cons_self) (hsplit clause mem_cons_self)
    have hrest := ih hfirst (fun c hc => hsub c (mem_cons_of_mem _ hc))
      (fun c hc => hsplit c (mem_cons_of_mem _ hc))
    rw [flatten_cons, ← append_assoc]
    exact hrest

end

theorem fragments_splitOversizedFragment (hmax : 2 ≤ maxChars) (fragment : Units) :
    Fragments maxChars fragment (splitOversizedFragment maxChars hmax fragment) := by
  induction hlength : fragment.length using Nat.strong_induction_on generalizing fragment with
  | _ n ih =>
    have htrimmed := trimmedBy_trimBy isBlank fragment
    have hcontent : content isBlank (trimUnits fragment) = content isBlank fragment := content_trimBy _
    have hmem : ∀ u ∈ trimUnits fragment, u ∈ fragment := fun v hv => mem_of_mem_trimBy hv
    have hcut : Fragments maxChars fragment (cutRemaining maxChars hmax (trimUnits fragment)) := by
      have hparts := fragments_cutRemaining hmax (trimUnits fragment) htrimmed
      exact ⟨fun part hpart => (hparts.each part hpart).mono hmem, hparts.whole.trans hcontent⟩
    rw [splitOversizedFragment]
    simp only []
    split
    · next hnil => exact ⟨nofun, (trimBy_eq_nil_iff.mp hnil).symm⟩
    next hne =>
    split
    · next hshort =>
      refine ⟨?_, ?_⟩
      · intro part hpart
        rw [mem_singleton.mp hpart]
        exact ⟨htrimmed, hne, hshort, fun v hv => .inl (hmem v hv)⟩
      · rw [flatten_singleton, hcontent]
    split
    · next hmany =>
      split
      · let split : Units → List Units := fun clause =>
          splitOversizedFragment maxChars hmax (trimUnits clause)
        let clauses := splitBehind isClauseMark (trimUnits fragment)
        have hstart : Gathered maxChars fragment [] ⟨[], []⟩ := ⟨nofun, .inl rfl, rfl⟩
        have hsub : ∀ clause ∈ clauses, ∀ u ∈ clause, u ∈ fragment := fun clause hclause u hu =>
          hmem u (mem_of_mem_splitBehind _ _ clause hclause u hu)
        have hsplit : ∀ clause ∈ clauses, Fragments maxChars (trimUnits clause) (split clause) := by
          intro clause hclause
          apply ih _ ?_ (trimUnits clause) rfl
          have hshort := length_splitBehind isClauseMark (trimUnits fragment) clause hclause
          have hfragment := length_trimBy_le isBlank fragment
          have hclauseLength := length_trimBy_le isBlank clause
          simp only [trimUnits] at hshort hmany ⊢
          omega
        have hall := (hstart.foldl hsub hsplit).pushCurrent
        rw [nil_append] at hall
        have hwhole : content isBlank (_ ++ []) = content isBlank clauses.flatten := hall.whole
        rw [append_nil, content_splitBehind, hcontent] at hwhole
        have hattached := foldl_attach (l := clauses) (b := ClauseParts.mk [] [])
          (f := fun state clause => state.addClause maxChars clause (split clause))
        rw [hattached]
        exact ⟨hall.each, hwhole⟩
      · exact hcut
    · exact hcut

/-! ## The text -/

theorem Fragments.flatMap {split : Units → List Units} {sentences : List Units}
    (h : ∀ sentence ∈ sentences, Fragments maxChars sentence (split sentence)) :
    Fragments maxChars sentences.flatten (sentences.flatMap split) := by
  constructor
  · intro part hpart
    obtain ⟨sentence, hsentence, hmem⟩ := mem_flatMap.mp hpart
    exact ((h sentence hsentence).each part hmem).mono fun u hu =>
      mem_flatten.mpr ⟨sentence, hsentence, hu⟩
  · induction sentences with
    | nil => rfl
    | cons sentence sentences ih =>
      have hfirst := (h sentence mem_cons_self).whole
      have hrest := ih fun s hs => h s (mem_cons_of_mem _ hs)
      rw [flatMap_cons, flatten_append, flatten_cons, content_append, content_append,
        hfirst, hrest]

/-- A text that is not blank has segments with the indexes in order, none of them empty, untrimmed or
too long, and together they are the text without its white space. -/
theorem splitTextForTts_segments (text : Units) (hvisible : ∃ u ∈ text, isBlank u = false) :
    ∃ segments, splitTextForTts text = .ok segments ∧
      segments.map (·.index) = List.range segments.length ∧
      (∀ segment ∈ segments, segment.text ≠ [] ∧ trimUnits segment.text = segment.text ∧
        segment.text.length ≤ 260) ∧
      (segments.flatMap (·.text)).filter (· ≠ space) = text.filter fun u => !isBlank u := by
  have hnormalized : content isBlank (collapse false (trimUnits text)) = content isBlank text := by
    rw [content_collapse]
    exact content_trimBy text
  have hne : collapse false (trimUnits text) ≠ [] := by
    intro hnil
    rw [hnil, content_nil] at hnormalized
    obtain ⟨u, hu, hseen⟩ := hvisible
    have hblank := content_eq_nil_iff.mp hnormalized.symm u hu
    rw [hseen] at hblank
    contradiction
  let sentences := splitBehind isSentenceMark (collapse false (trimUnits text))
  let fragments := sentences.flatMap (splitOversizedFragment maxTtsSegmentChars (by decide))
  have hfragments : Fragments maxTtsSegmentChars sentences.flatten fragments :=
    Fragments.flatMap fun sentence _ => fragments_splitOversizedFragment _ sentence
  have hspaces : ∀ u ∈ fragments.flatten, isBlank u = true → u = space := by
    intro u hu hblank
    obtain ⟨fragment, hfragment, humem⟩ := List.mem_flatten.mp hu
    rcases (hfragments.each fragment hfragment).mem u humem with hsource | hspace
    · obtain ⟨sentence, hsentence, husentence⟩ := List.mem_flatten.mp hsource
      exact eq_space_of_mem_collapse (mem_of_mem_splitBehind _ _ sentence hsentence u husentence) hblank
    · exact hspace
  have htexts : (fragments.zipIdx.map fun numbered =>
      TtsSegment.mk numbered.2 numbered.1).flatMap (·.text) = fragments.flatten := by
    rw [List.flatMap_def, List.map_map]
    exact congrArg List.flatten (List.zipIdx_map_fst 0 fragments)
  refine ⟨fragments.zipIdx.map fun numbered => ⟨numbered.2, numbered.1⟩, ?_, ?_, ?_, ?_⟩
  · rw [splitTextForTts]
    exact if_neg hne
  · rw [List.map_map, List.length_map, List.length_zipIdx, List.range_eq_range']
    exact List.zipIdx_map_snd 0 fragments
  · intro segment hsegment
    obtain ⟨⟨fragment, i⟩, hmem, rfl⟩ := List.mem_map.mp hsegment
    have hfragment := hfragments.each fragment (List.fst_mem_of_mem_zipIdx hmem)
    exact ⟨hfragment.ne_nil, hfragment.trimmed.trimBy_eq, hfragment.length_le⟩
  · rw [htexts]
    have hfilter : fragments.flatten.filter (· ≠ space) = content isBlank fragments.flatten := by
      apply List.filter_congr
      intro u hu
      by_cases hspace : u = space
      · simp [hspace, isBlank_space]
      · have hseen : isBlank u ≠ true := fun hblank => hspace (hspaces u hu hblank)
        simp [hspace, hseen]
    rw [hfilter, hfragments.whole, content_splitBehind, hnormalized]
    rfl

theorem splitTextForTts_segments_hi :
    ∃ segments, splitTextForTts [0x20, 0x48, 0x69, 0x2E] = .ok segments ∧
      segments.map (·.index) = List.range segments.length ∧
      (∀ segment ∈ segments, segment.text ≠ [] ∧ trimUnits segment.text = segment.text ∧
        segment.text.length ≤ 260) ∧
      (segments.flatMap (·.text)).filter (· ≠ space) =
        ([0x20, 0x48, 0x69, 0x2E] : Units).filter fun u => !isBlank u :=
  splitTextForTts_segments [0x20, 0x48, 0x69, 0x2E] ⟨0x48, by decide, by decide⟩

end Orqara.Speech
