import Orqara.Providers.ChunkGroups

/-!
# Delivery of frames

However the bytes are cut between characters, the frames are those that the lines carry, if and
only if no group that comes to its end starts while another one is pending. Where a cut falls inside
a character, both of its parts become replacement characters.
-/

namespace Orqara.Providers

open JsonParse Option

def framesOf (received : List Received) : List Frame := received.filterMap Received.frame?

theorem framesOf_append (received more : List Received) :
    framesOf (received ++ more) = framesOf received ++ framesOf more := List.filterMap_append

/-! ## Lines -/

/-- What `consumeChunk` does with a chunk that has been read. -/
def advance (assembly : Option ChunkAssembly) : Option Chunk → Option ChunkAssembly × List Received
  | none => (none, [])
  | some c =>
    match assembly with
    | none =>
      if c.header.index ≠ 0 then (none, [])
      else pushChunk ⟨c.header.id, c.header.count, c.header.byteLength, [], 0⟩ c.header c.bytes
    | some assembly => pushChunk assembly c.header c.bytes

/-- The frames that the decoder receives for some lines. -/
def framesFrom (assembly : Option ChunkAssembly) : List Line → List Frame
  | [] => []
  | .frame message :: lines => message :: framesFrom assembly lines
  | .chunk c :: lines => framesOf (advance assembly c).2 ++ framesFrom (advance assembly c).1 lines
  | .other :: lines => framesFrom assembly lines

theorem valid_of_chunkHeader {frame : Frame} {header : ChunkHeader}
    (h : chunkHeader frame = some header) : header.Valid := by
  obtain ⟨id, -, h⟩ := bind_eq_some_iff.mp h
  obtain ⟨index, -, h⟩ := bind_eq_some_iff.mp h
  obtain ⟨count, -, h⟩ := bind_eq_some_iff.mp h
  obtain ⟨byteLength, -, h⟩ := bind_eq_some_iff.mp h
  obtain ⟨data, -, h⟩ := bind_eq_some_iff.mp h
  simp only at h
  split at h
  · next hvalid =>
    rw [← some.inj h]
    exact hvalid
  · cases h

theorem consumeChunk_eq (assembly : Option ChunkAssembly) (frame : Frame) :
    (consumeChunk assembly frame).1 = (advance assembly (readChunk frame)).1 ∧
      framesOf (consumeChunk assembly frame).2 =
        framesOf (advance assembly (readChunk frame)).2 := by
  unfold consumeChunk readChunk
  cases hheader : chunkHeader frame with
  | none => exact ⟨rfl, rfl⟩
  | some header =>
    simp only [dif_pos (valid_of_chunkHeader hheader)]
    cases hbytes : chunkBytes header.data with
    | none => exact ⟨rfl, rfl⟩
    | some bytes =>
      cases assembly with
      | none =>
        by_cases hfirst : header.index = 0
        · simp [advance, hfirst]
        · simp [advance, hfirst, framesOf, Received.frame?]
      | some assembly => exact ⟨rfl, rfl⟩

theorem consumeLines_eq (assembly : Option ChunkAssembly) (lines : List (List Char)) :
    framesOf (consumeLines assembly lines).2 = framesFrom assembly (lines.map readLine) := by
  induction lines generalizing assembly with
  | nil => rfl
  | cons line lines ih =>
    rw [consumeLines, List.map_cons, readLine]
    by_cases hblank : trimChars (chomp line) = []
    · rw [if_pos hblank, if_pos hblank]
      exact ih assembly
    · rw [if_neg hblank, if_neg hblank, framesOf_append, consumeLine]
      cases hparse : parse (chomp line) with
      | none => exact ih assembly
      | some parsed =>
        simp only [bind_some]
        cases hobject : objectFrame parsed with
        | none => exact ih assembly
        | some frame =>
          by_cases hchunk : isChunk frame = true
          · obtain ⟨hassembly, hframes⟩ := consumeChunk_eq assembly frame
            simp only [if_pos hchunk]
            rw [ih, hframes, hassembly]
            rfl
          · simp only [if_neg hchunk]
            exact congrArg (frame :: ·) (ih assembly)

/-! ## Assemblies and groups -/

/-- An assembly has the chunks of a group. -/
structure Tracks (assembly : ChunkAssembly) (group : List Chunk) : Prop where
  headed : HeadedBy assembly group
  parts : assembly.parts = group.map Chunk.bytes
  bytes : assembly.bytes = total group

/-- A chunk that belongs to an assembly. -/
theorem pushChunk_spec {assembly : ChunkAssembly} {group : List Chunk} {c : Chunk}
    (h : Tracks assembly group) (hindex : c.header.index = group.length)
    (hheader : c.header.id = assembly.id ∧ c.header.count = assembly.count ∧
      c.header.byteLength = assembly.byteLength) :
    framesOf (pushChunk assembly c.header c.bytes).2 = (carries (group ++ [c])).toList ∧
      (∀ next, (pushChunk assembly c.header c.bytes).1 = some next → Tracks next (group ++ [c])) ∧
      ((pushChunk assembly c.header c.bytes).1 = none →
        ∀ lines, ¬ Becomes (group ++ [c]) lines) := by
  obtain ⟨hid, hcount, hbyteLength⟩ := hheader
  have hlength : assembly.parts.length = group.length := by
    rw [h.parts, List.length_map]
  have htotal := total_append_singleton group c
  have hlt : c.header.index < c.header.count := c.valid.2.2.2.2.1
  have hheaded : HeadedBy assembly (group ++ [c]) := by
    intro d hd
    rcases List.mem_append.mp hd with hold | hnew
    · exact h.headed d hold
    · rw [List.mem_singleton.mp hnew]
      exact ⟨hid, hcount, hbyteLength⟩
  have hlonger : (group ++ [c]).length = group.length + 1 := by simp
  have hne : group ++ [c] ≠ [] := by simp
  unfold pushChunk
  rw [if_neg (by simp [hid, hcount, hbyteLength, hlength, hindex])]
  simp only [List.length_append, List.length_singleton, hlength, h.bytes, ← htotal]
  rw [carries_append_singleton, hcount, hbyteLength]
  by_cases hover : assembly.byteLength < total (group ++ [c])
  · rw [if_pos hover, if_neg (by omega)]
    exact ⟨rfl, nofun, fun _ => not_becomes hne hheaded (.inr hover)⟩
  · rw [if_neg hover]
    by_cases hmore : group.length + 1 < assembly.count
    · rw [if_pos hmore, if_neg (by omega)]
      refine ⟨rfl, ?_, nofun⟩
      intro next hnext
      rw [← some.inj hnext]
      exact ⟨hheaded, by rw [h.parts, List.map_append]; rfl, rfl⟩
    · have hdead := not_becomes hne hheaded (.inl (by omega))
      rw [if_neg hmore]
      by_cases hdiffers : total (group ++ [c]) = assembly.byteLength
      · rw [if_neg (not_not_intro hdiffers), if_pos ⟨by omega, hdiffers⟩]
        refine ⟨?_, nofun, fun _ => hdead⟩
        rw [finishAssembly, h.parts, List.map_append, List.map_singleton]
        cases payload (group.map Chunk.bytes ++ [c.bytes]).flatten with
        | none => rfl
        | some message => rfl
      · rw [if_pos hdiffers, if_neg fun hboth => hdiffers hboth.2]
        exact ⟨rfl, nofun, fun _ => hdead⟩

/-! ## Delivered and carried frames -/

/-- No group that comes to its end starts while another one is pending. -/
def Uninterrupted (assembly : Option ChunkAssembly) : List Line → Prop
  | [] => True
  | .chunk c :: lines =>
    (∀ d, c = some d → d.header.index = 0 → assembly.isSome → ¬ Becomes [d] lines) ∧
      Uninterrupted (advance assembly c).1 lines
  | _ :: lines => Uninterrupted assembly lines

/-- How the decoder and the open group go on with a chunk. -/
inductive Advance (assembly : Option ChunkAssembly) (group : List Chunk) (c : Option Chunk) : Prop
  /-- the decoder has what the group has, or nothing will come of the group -/
  | along (hframes : framesOf (advance assembly c).2 = (carries (extend group c)).toList)
    (htracks : ∀ next, (advance assembly c).1 = some next → Tracks next (extend group c))
    (hnothing : (advance assembly c).1 = none → extend group c ≠ [] →
      ∀ lines, ¬ Becomes (extend group c) lines)
    (hbefore : assembly = none → group ≠ [] → ¬ group.length < (extend group c).length)
    (hopen : ∀ next, (advance assembly c).1 = some next → extend group c ≠ [])
    (hstart : ∀ d, c = some d → d.header.index = 0 → assembly = none)
  /-- the group goes on without the decoder -/
  | behind (hassembly : assembly = none) (hgroup : group ≠ [])
    (hlonger : group.length < (extend group c).length)
    (hnext : (advance assembly c).1 = none) (hframes : framesOf (advance assembly c).2 = [])
  /-- the decoder gives up what is pending, and the chunk -/
  | lost {d : Chunk} (hassembly : assembly.isSome) (hchunk : c = some d)
    (hindex : d.header.index = 0) (hnext : (advance assembly c).1 = none)
    (hframes : framesOf (advance assembly c).2 = [])

/-- There is no open group after the chunk. -/
theorem advance_of_nil {assembly : Option ChunkAssembly} {group : List Chunk} {c : Option Chunk}
    (hextend : extend group c = []) (hnext : (advance assembly c).1 = none)
    (hframes : framesOf (advance assembly c).2 = [])
    (hstart : ∀ d, c = some d → d.header.index ≠ 0) : Advance assembly group c := by
  apply Advance.along
  · rw [hframes, hextend]
    rfl
  · intro next hsome
    rw [hnext] at hsome
    cases hsome
  · exact fun _ hne => absurd hextend hne
  · intro _ _ hlonger
    rw [hextend] at hlonger
    exact absurd hlonger (Nat.not_lt_zero _)
  · intro next hsome
    rw [hnext] at hsome
    cases hsome
  · exact fun d hd hindex => absurd hindex (hstart d hd)

theorem advance_none_cases (group : List Chunk) (d : Chunk) :
    Advance none group (some d) := by
  by_cases hindex : d.header.index = 0
  · have hextend : extend group (some d) = [d] := by rw [extend_some, if_pos hindex]
    have hadvance : advance none (some d) =
        pushChunk ⟨d.header.id, d.header.count, d.header.byteLength, [], 0⟩ d.header d.bytes := by
      rw [advance]
      simp only [if_neg (not_not_intro hindex)]
    have hfresh : Tracks ⟨d.header.id, d.header.count, d.header.byteLength, [], 0⟩ [] :=
      ⟨nofun, rfl, rfl⟩
    obtain ⟨hframes, htracks, hnothing⟩ := pushChunk_spec hfresh hindex ⟨rfl, rfl, rfl⟩
    apply Advance.along
    · rw [hadvance, hextend]
      exact hframes
    · rw [hadvance, hextend]
      exact htracks
    · rw [hadvance, hextend]
      exact fun hnone _ => hnothing hnone
    · intro _ hne hlonger
      have hpos := List.length_pos_iff.mpr hne
      rw [hextend, List.length_singleton] at hlonger
      omega
    · intro _ _
      rw [hextend]
      simp
    · exact fun _ _ _ => rfl
  · have hadvance : advance none (some d) = (none, []) := by
      rw [advance]
      simp only [if_pos hindex]
    by_cases hlonger : group ≠ [] ∧ group.length < (extend group (some d)).length
    · exact .behind rfl hlonger.1 hlonger.2 (by rw [hadvance]) (by rw [hadvance]; rfl)
    · have hextend : extend group (some d) = [] := by
        rw [extend_some, if_neg hindex] at hlonger ⊢
        by_cases hnext : group.length = d.header.index ∧ ∀ e ∈ group, SameGroup e d
        · rw [if_pos hnext] at hlonger
          refine absurd ⟨?_, by simp⟩ hlonger
          rintro rfl
          exact hindex hnext.1.symm
        · rw [if_neg hnext]
      refine advance_of_nil hextend (by rw [hadvance]) (by rw [hadvance]; rfl) ?_
      intro e he
      rw [← some.inj he]
      exact hindex

theorem advance_some_cases {assembly : ChunkAssembly} {group : List Chunk} (d : Chunk)
    (h : Tracks assembly group) (hne : group ≠ []) : Advance (some assembly) group (some d) := by
  have hlength : assembly.parts.length = group.length := by
    rw [h.parts, List.length_map]
  have hpos := List.length_pos_iff.mpr hne
  by_cases hmatch : (d.header.id = assembly.id ∧ d.header.count = assembly.count ∧
      d.header.byteLength = assembly.byteLength) ∧ d.header.index = group.length
  · obtain ⟨hheader, hindex⟩ := hmatch
    have hextend : extend group (some d) = group ++ [d] := by
      rw [extend_some, if_neg (by omega), if_pos]
      refine ⟨hindex.symm, ?_⟩
      intro e he
      obtain ⟨hid, hcount, hbytes⟩ := h.headed e he
      exact ⟨hid.trans hheader.1.symm, hcount.trans hheader.2.1.symm,
        hbytes.trans hheader.2.2.symm⟩
    obtain ⟨hframes, htracks, hnothing⟩ := pushChunk_spec h hindex hheader
    apply Advance.along
    · rw [hextend]
      exact hframes
    · rw [hextend]
      exact htracks
    · rw [hextend]
      exact fun hnone _ => hnothing hnone
    · exact nofun
    · intro _ _
      rw [hextend]
      simp
    · intro e he hfirst
      rw [← some.inj he] at hfirst
      omega
  · have hadvance : advance (some assembly) (some d) = (none, [.problem .outOfOrderChunk]) := by
      rw [advance]
      simp only [pushChunk, hlength]
      apply if_pos
      by_contra hsame
      push Not at hsame
      exact hmatch ⟨⟨hsame.1.symm, hsame.2.1.symm, hsame.2.2.1.symm⟩, hsame.2.2.2.symm⟩
    by_cases hindex : d.header.index = 0
    · exact .lost rfl rfl hindex (by rw [hadvance]) (by rw [hadvance]; rfl)
    · refine advance_of_nil ?_ (by rw [hadvance]) (by rw [hadvance]; rfl) ?_
      · rw [extend_some, if_neg hindex, if_neg]
        rintro ⟨hnext, hsame⟩
        obtain ⟨first, hfirst⟩ := List.exists_mem_of_ne_nil group hne
        obtain ⟨hid, hcount, hbytes⟩ := h.headed first hfirst
        obtain ⟨hid', hcount', hbytes'⟩ := hsame first hfirst
        exact hmatch ⟨⟨hid'.symm.trans hid, hcount'.symm.trans hcount, hbytes'.symm.trans hbytes⟩,
          hnext.symm⟩
      · intro e he
        rw [← some.inj he]
        exact hindex

theorem advance_cases {assembly : Option ChunkAssembly} {group : List Chunk} (c : Option Chunk)
    (h : ∀ a, assembly = some a → Tracks a group ∧ group ≠ []) : Advance assembly group c := by
  cases c with
  | none => exact advance_of_nil rfl rfl rfl nofun
  | some d =>
    cases assembly with
    | none => exact advance_none_cases group d
    | some a => exact advance_some_cases d (h a rfl).1 (h a rfl).2

/-- The frames are the carried ones exactly where the decoder is not behind the open group, and
loses no group that comes to its end. -/
theorem framesFrom_spec {assembly : Option ChunkAssembly} {group : List Chunk} (lines : List Line)
    (h : ∀ a, assembly = some a → Tracks a group ∧ group ≠ []) :
    (framesFrom assembly lines).length ≤ (carried group lines).length ∧
      (framesFrom assembly lines = carried group lines ↔
        (assembly = none → group ≠ [] → ¬ Becomes group lines) ∧ Uninterrupted assembly lines) := by
  induction lines generalizing assembly group with
  | nil => exact ⟨le_refl 0, fun _ => ⟨fun _ _ => id, trivial⟩, fun _ => rfl⟩
  | cons line lines ih =>
    cases line with
    | other => exact ih h
    | frame message =>
      obtain ⟨hlength, hiff⟩ := ih h
      refine ⟨Nat.succ_le_succ hlength, ?_⟩
      rw [framesFrom, carried, List.cons.injEq]
      exact ⟨fun heq => hiff.mp heq.2, fun hboth => ⟨rfl, hiff.mpr hboth⟩⟩
    | chunk c =>
      rw [framesFrom, carried, Uninterrupted, Becomes]
      cases advance_cases c h with
      | along hframes htracks hnothing hbefore hopen hstart =>
        obtain ⟨hlength, hiff⟩ := @ih (advance assembly c).1 (extend group c)
          fun a ha => ⟨htracks a ha, hopen a ha⟩
        rw [hframes, List.length_append, List.length_append, List.append_right_inj, hiff]
        refine ⟨by omega, ?_⟩
        constructor
        · rintro ⟨-, hrest⟩
          refine ⟨fun hnone hne hboth => hbefore hnone hne hboth.1, ?_, hrest⟩
          intro d hd hindex hpending
          rw [hstart d hd hindex] at hpending
          cases hpending
        · rintro ⟨-, -, hrest⟩
          exact ⟨fun hnone hne => hnothing hnone hne lines, hrest⟩
      | behind hassembly hgroup hlonger hnext hframes =>
        obtain ⟨hlength, hiff⟩ := @ih none (extend group c) nofun
        have hne : extend group c ≠ [] := List.length_pos_iff.mp (Nat.zero_lt_of_lt hlonger)
        rw [hnext, hframes, List.nil_append, List.length_append]
        refine ⟨by omega, ?_⟩
        cases hcarries : carries (extend group c) with
        | none =>
          rw [toList_none, List.nil_append, hiff]
          constructor
          · rintro ⟨hbehind, hrest⟩
            refine ⟨?_, ?_, hrest⟩
            · rintro - - ⟨-, hsome | hbecomes⟩
              · cases hsome
              · exact hbehind rfl hne hbecomes
            · intro d _ _ hpending
              rw [hassembly] at hpending
              cases hpending
          · rintro ⟨hbehind, -, hrest⟩
            exact ⟨fun _ _ hbecomes => hbehind hassembly hgroup ⟨hlonger, .inr hbecomes⟩, hrest⟩
        | some message =>
          -- the decoder has one frame less
          constructor
          · intro heq
            rw [heq, List.length_append] at hlength
            exact absurd hlength (by simp)
          · rintro ⟨hbehind, -⟩
            exact absurd ⟨hlonger, .inl rfl⟩ (hbehind hassembly hgroup)
      | @lost d hassembly hchunk hindex hnext hframes =>
        subst hchunk
        obtain ⟨hlength, hiff⟩ := @ih none [d] nofun
        have hextend : extend group (some d) = [d] := by rw [extend_some, if_pos hindex]
        have hcarries : carries [d] = none := by
          have hcount : 2 ≤ d.header.count := d.valid.2.2.1
          have hfirst := carries_append_singleton [] d
          rw [List.nil_append, List.length_nil, if_neg (by omega)] at hfirst
          exact hfirst
        rw [hnext, hframes, hextend, hcarries, toList_none, List.nil_append, List.nil_append,
          hiff]
        refine ⟨hlength, ?_⟩
        constructor
        · rintro ⟨hbehind, hrest⟩
          refine ⟨?_, ?_, hrest⟩
          · intro hnone
            rw [hnone] at hassembly
            cases hassembly
          · intro e he _ _
            rw [← some.inj he]
            exact hbehind rfl (by simp)
        · rintro ⟨-, hstart, hrest⟩
          exact ⟨fun _ _ => hstart d rfl hindex hassembly, hrest⟩

/-! ## Chunks of the pipe -/

theorem splitLines_append (text more : List Char) :
    splitLines (text ++ more) =
      ((splitLines text).1 ++ (splitLines ((splitLines text).2 ++ more)).1,
        (splitLines ((splitLines text).2 ++ more)).2) := by
  induction text with
  | nil => rfl
  | cons c text ih =>
    rw [List.cons_append, splitLines, splitLines]
    by_cases hc : c = '\n'
    · rw [if_pos hc, if_pos hc, ih]
      rfl
    · rw [if_neg hc, if_neg hc, ih]
      cases hsplit : splitLines text with
      | mk lines rest =>
        cases lines with
        | nil =>
          simp only [List.nil_append, List.cons_append]
          rw [splitLines, if_neg hc]
        | cons line lines => rfl

/-- What follows the last line is no line. -/
theorem splitLines_rest (text : List Char) : (splitLines (splitLines text).2).1 = [] := by
  induction text with
  | nil => rfl
  | cons c text ih =>
    rw [splitLines]
    by_cases hc : c = '\n'
    · rw [if_pos hc]
      exact ih
    · rw [if_neg hc]
      cases hsplit : splitLines text with
      | mk lines rest =>
        rw [hsplit] at ih
        cases lines with
        | cons line lines => exact ih
        | nil =>
          have hnone : (splitLines rest).1 = [] := ih
          show (splitLines (c :: rest)).1 = []
          rw [splitLines, if_neg hc]
          cases hrest : splitLines rest with
          | mk lines' rest' =>
            rw [hrest] at hnone
            cases lines' with
            | nil => rfl
            | cons line lines' => cases hnone

theorem consumeLines_append (assembly : Option ChunkAssembly) (lines more : List (List Char)) :
    consumeLines assembly (lines ++ more) =
      ((consumeLines (consumeLines assembly lines).1 more).1,
        (consumeLines assembly lines).2 ++
          (consumeLines (consumeLines assembly lines).1 more).2) := by
  induction lines generalizing assembly with
  | nil => rfl
  | cons line lines ih =>
    rw [List.cons_append, consumeLines, consumeLines]
    by_cases hblank : trimChars (chomp line) = []
    · rw [if_pos hblank, if_pos hblank]
      exact ih assembly
    · rw [if_neg hblank, if_neg hblank]
      simp only [ih, List.append_assoc]

/-- The decoder receives what it receives for the whole text at once. -/
theorem handleStdoutChunks_eq (decoder : JsonlFrameDecoder) (chunks : List (List UInt8))
    (h : (splitLines decoder.lineBuffer).1 = []) :
    (handleStdoutChunks decoder chunks).2 =
      (consumeLines decoder.assembly
        (splitLines (decoder.lineBuffer ++ (chunks.map Utf8.decode).flatten)).1).2 := by
  induction chunks generalizing decoder with
  | nil =>
    rw [List.map_nil, List.flatten_nil, List.append_nil, h]
    rfl
  | cons chunk chunks ih =>
    show (decoder.write (Utf8.decode chunk)).2 ++
      (handleStdoutChunks (decoder.write (Utf8.decode chunk)).1 chunks).2 = _
    rw [ih _ (splitLines_rest _), List.map_cons, List.flatten_cons, ← List.append_assoc,
      splitLines_append (decoder.lineBuffer ++ Utf8.decode chunk), consumeLines_append]
    rfl

/-- The lines of a stream. -/
def linesOf (text : List Char) : List Line := (splitLines text).1.map readLine

theorem dispatched_eq (chunks : List (List UInt8)) :
    dispatched chunks = framesFrom none (linesOf (chunks.map Utf8.decode).flatten) := by
  unfold dispatched
  rw [handleStdoutChunks_eq ⟨[], none⟩ chunks rfl]
  exact consumeLines_eq none _

theorem decode_flatten {chunks : List (List UInt8)} (h : ∀ chunk ∈ chunks, Utf8.WellFormed chunk) :
    Utf8.decode chunks.flatten = (chunks.map Utf8.decode).flatten := by
  induction chunks with
  | nil => rfl
  | cons chunk chunks ih =>
    have hchunk : Utf8.encode (Utf8.decode chunk) = chunk := h chunk List.mem_cons_self
    have happend := Utf8.decode_encode_append (Utf8.decode chunk) chunks.flatten
    rw [hchunk] at happend
    rw [List.flatten_cons, happend, List.map_cons, List.flatten_cons,
      ih fun other hother => h other (List.mem_cons_of_mem chunk hother)]

/-- The frames do not depend on the chunks, and are those that the lines carry. -/
structure DeliversFrames (chunks : List (List UInt8)) : Prop where
  uncut : dispatched chunks = dispatched [chunks.flatten]
  carried : dispatched [chunks.flatten] = carried [] (linesOf (Utf8.decode chunks.flatten))

/-- Where no cut falls inside a character. -/
theorem deliversFrames_iff (chunks : List (List UInt8))
    (hwhole : ∀ chunk ∈ chunks, Utf8.WellFormed chunk) :
    DeliversFrames chunks ↔ Uninterrupted none (linesOf (Utf8.decode chunks.flatten)) := by
  have hone : dispatched [chunks.flatten] =
      framesFrom none (linesOf (Utf8.decode chunks.flatten)) := by
    rw [dispatched_eq, List.map_singleton, List.flatten_singleton]
  have huncut : dispatched chunks = dispatched [chunks.flatten] := by
    rw [hone, dispatched_eq, decode_flatten hwhole]
  have hframes := (@framesFrom_spec none [] (linesOf (Utf8.decode chunks.flatten)) nofun).2
  constructor
  · intro h
    exact (hframes.mp (hone.symm.trans h.carried)).2
  · intro h
    exact ⟨huncut, hone.trans (hframes.mpr ⟨fun _ hne => absurd rfl hne, h⟩)⟩

def isChunkLine : Line → Bool
  | .chunk _ => true
  | _ => false

theorem uninterrupted_of_frames {lines : List Line} (h : lines.any isChunkLine = false)
    (assembly : Option ChunkAssembly) : Uninterrupted assembly lines := by
  induction lines with
  | nil => trivial
  | cons line lines ih =>
    obtain ⟨hline, hrest⟩ := Bool.or_eq_false_iff.mp h
    cases line with
    | chunk c => cases hline
    | frame message => exact ih hrest
    | other => exact ih hrest

/-! ## A cut inside a character -/

/-- The line of an object with one member, `é`. -/
def accentedLine : List UInt8 := Utf8.encode "\x7b\"a\":\"é\"\x7d\n".toList

theorem cutCharacter_changes_frame :
    ¬ ∀ chunks : List (List UInt8), Utf8.WellFormed chunks.flatten →
      (∀ line ∈ (splitLines (Utf8.decode chunks.flatten)).1, (parse line).isSome) →
      DeliversFrames chunks := by
  intro hall
  have hcut := (hall [accentedLine.take 7, accentedLine.drop 7] (by decide +kernel)
    (by decide +kernel)).uncut
  have hfields := congrArg (List.map fun frame => stringField frame "a") hcut
  revert hfields
  decide +kernel

/-- The line in two chunks, cut before the character. -/
def cutBefore : List (List UInt8) := [accentedLine.take 6, accentedLine.drop 6]

theorem deliversFrames_iff_cutBefore :
    (dispatched cutBefore).map (stringField · "a") = [some (units "é")] ∧
      DeliversFrames cutBefore := by
  have hwhole : ∀ chunk ∈ cutBefore, Utf8.WellFormed chunk := by decide +kernel
  have hframes : (linesOf (Utf8.decode cutBefore.flatten)).any isChunkLine = false := by
    decide +kernel
  refine ⟨by decide +kernel, ?_⟩
  have hiff := deliversFrames_iff cutBefore hwhole
  generalize linesOf (Utf8.decode cutBefore.flatten) = lines at hiff hframes
  exact hiff.mpr (uninterrupted_of_frames hframes none)

end Orqara.Providers
