import Orqara.Speech.Pcm16MonoResampler

/-!
# Resampling in chunks

How a stream is cut into chunks does not show in what is resampled: there is one sample for each
position before the last sample, read off the stream as a whole.
-/

namespace Orqara.Speech

open Pcm16MonoResampler List Option

variable {r r' : Pcm16MonoResampler} {samples chunk : List (BitVec 16)} {src : List ℚ} {pos : ℚ} {step : ℚ}

/-! ## Positions -/

/-- How many positions are before the last of `n` samples. -/
def positionCount (step : ℚ) (n : ℕ) : ℕ := ⌈((n : ℚ) - 1) / step⌉₊

theorem lt_positionCount (hstep : 0 < step) (n k : ℕ) :
    k < positionCount step n ↔ k * step < (n : ℚ) - 1 := by
  rw [positionCount, Nat.lt_ceil, lt_div_iff₀ hstep]

theorem positionCount_eq (hstep : 0 < step) {n k : ℕ} (hle : (n : ℚ) - 1 ≤ k * step)
    (hlt : ∀ j < k, j * step < (n : ℚ) - 1) : positionCount step n = k := by
  apply le_antisymm
  · by_contra hnot
    have hbefore := (lt_positionCount hstep n k).mp (not_le.mp hnot)
    linarith
  · by_contra hnot
    have hbefore := hlt _ (not_le.mp hnot)
    exact lt_irrefl _ ((lt_positionCount hstep n _).mpr hbefore)

/-- The samples of a stream at the positions before its last sample. -/
def resampled (step : ℚ) (samples : List (BitVec 16)) : List ℤ :=
  (List.range (positionCount step samples.length)).map fun k : ℕ =>
    sampleAt (samples.map normalized) (k * step)

theorem produce_eq (r : Pcm16MonoResampler) (src : List ℚ) (pos : ℚ) :
    ∃ k : ℕ, r.produce src pos =
        ((List.range k).map fun j : ℕ => sampleAt src (pos + j * r.step), pos + k * r.step) ∧
      (src.length : ℚ) - 1 ≤ pos + k * r.step ∧
      ∀ j < k, pos + j * r.step < (src.length : ℚ) - 1 := by
  induction pos using produce.induct r src with
  | case1 pos hlt ih =>
    obtain ⟨k, hrest, hend, hbefore⟩ := ih
    refine ⟨k + 1, ?_, ?_, ?_⟩
    · rw [produce, if_pos hlt, hrest, range_succ_eq_map, map_cons, List.map_map]
      simp only [Function.comp_def, Nat.cast_succ, Nat.cast_zero, zero_mul, add_zero]
      have hshift (j : ℕ) : pos + r.step + j * r.step = pos + (j + 1) * r.step := by ring
      simp only [hshift]
    · push_cast
      linarith
    · intro j hj
      cases j with
      | zero => simpa using hlt
      | succ j =>
        have hearlier := hbefore j (by omega)
        push_cast
        linarith
  | case2 pos hge =>
    refine ⟨0, ?_, ?_, nofun⟩
    · rw [produce, if_neg hge]
      simp
    · simpa using hge

/-! ## A sample in its surroundings -/

theorem sampleAt_append (more : List ℚ) (hpos : pos < (src.length : ℚ) - 1) (hnonneg : 0 ≤ pos) :
    sampleAt (src ++ more) pos = sampleAt src pos := by
  have hfloor : (⌊pos⌋.toNat : ℚ) ≤ pos := by
    rw [← Int.cast_natCast, Int.toNat_of_nonneg (Int.floor_nonneg.mpr hnonneg)]
    exact Int.floor_le pos
  have hlt : ⌊pos⌋.toNat + 1 < src.length := by
    have hcast : ((⌊pos⌋.toNat + 1 : ℕ) : ℚ) < (src.length : ℚ) := by
      push_cast
      linarith
    exact_mod_cast hcast
  have hfirst : (src ++ more).getD ⌊pos⌋.toNat 0 = src.getD ⌊pos⌋.toNat 0 :=
    getD_append _ _ _ _ (by omega)
  have hsecond : (src ++ more).getD (⌊pos⌋.toNat + 1) 0 = src.getD (⌊pos⌋.toNat + 1) 0 :=
    getD_append _ _ _ _ hlt
  simp only [sampleAt, hfirst, hsecond]

theorem sampleAt_drop (src : List ℚ) {base : ℕ} (hpos : (base : ℚ) ≤ pos) :
    sampleAt (src.drop base) (pos - base) = sampleAt src pos := by
  have hle : (base : ℤ) ≤ ⌊pos⌋ := Int.le_floor.mpr (by exact_mod_cast hpos)
  have hfloor : ⌊pos - base⌋.toNat + base = ⌊pos⌋.toNat := by
    rw [Int.floor_sub_natCast]
    omega
  have hfrac : pos - base - (⌊pos - base⌋.toNat : ℚ) = pos - (⌊pos⌋.toNat : ℚ) := by
    rw [← hfloor]
    push_cast
    ring
  have hget (i : ℕ) : (src.drop base).getD (⌊pos - base⌋.toNat + i) 0 =
      src.getD (⌊pos⌋.toNat + i) 0 := by
    rw [getD_eq_getElem?_getD, getD_eq_getElem?_getD, getElem?_drop, ← hfloor]
    congr 2
    omega
  have hfirst := hget 0
  simp only [Nat.add_zero] at hfirst
  simp only [sampleAt, hfrac, hfirst, hget 1]

/-! ## One chunk -/

/-- A stream of one sample has no position before its last sample. -/
theorem positionCount_one (hstep : 0 < step) : positionCount step 1 = 0 := by
  apply positionCount_eq hstep
  · simp
  · exact nofun

theorem positionCount_zero (hstep : 0 < step) : positionCount step 0 = 0 := by
  apply positionCount_eq hstep
  · simp
  · exact nofun

/-- The next position is not before the last sample. -/
theorem base_le_positionCount (hstep : 0 < step) (n : ℕ) :
    ((n - 1 : ℕ) : ℚ) ≤ positionCount step n * step := by
  cases n with
  | zero => simp [positionCount_zero hstep]
  | succ n =>
    by_contra hnot
    apply lt_irrefl (positionCount step (n + 1))
    rw [lt_positionCount hstep]
    push_cast
    simpa using hnot

/-- What is kept after a stream: its last sample, and how far the next position is from it. -/
structure Resumed (r : Pcm16MonoResampler) (samples : List (BitVec 16)) : Prop where
  carry : r.carrySample = samples.getLast?
  pos : r.pos = positionCount r.step samples.length * r.step - (samples.length - 1 : ℕ)

theorem Resumed.next (r : Pcm16MonoResampler) (hsame : r'.step = r.step)
    (hcarry : r'.carrySample = samples.getLast?)
    (hpos : r'.pos = positionCount r.step samples.length * r.step - (samples.length - 1 : ℕ)) :
    Resumed r' samples := ⟨hcarry, by rw [hsame, hpos]⟩

theorem resumed_nil (hpos : r.pos = 0) (hcarry : r.carrySample = none) : Resumed r [] where
  carry := hcarry
  pos := by
    simp [hpos, positionCount_zero r.step_pos]

theorem toList_getLast?_append (xs ys : List (BitVec 16)) :
    xs.getLast?.toList ++ ys = (xs ++ ys).drop (xs.length - 1) := by
  induction xs using List.reverseRecOn with
  | nil => rfl
  | append_singleton xs x _ => simp [drop_append]

/-- The samples at the positions from `m` on follow those before. -/
theorem resampled_append (hstep : 0 < step) {m k : ℕ} (hbefore : positionCount step samples.length = m)
    (hafter : positionCount step (samples ++ chunk).length = m + k) :
    resampled step (samples ++ chunk) = resampled step samples ++
      (List.range k).map fun j : ℕ =>
        sampleAt ((samples ++ chunk).map normalized) ((m + j : ℕ) * step) := by
  rw [resampled, resampled, hafter, hbefore, range_add, map_append, List.map_map]
  congr 1
  apply map_congr_left
  intro j hj
  have hlt : (j : ℚ) * step < (samples.length : ℚ) - 1 := by
    rw [← lt_positionCount hstep, hbefore]
    exact mem_range.mp hj
  rw [map_append]
  apply sampleAt_append
  · rwa [length_map]
  · exact mul_nonneg (Nat.cast_nonneg j) hstep.le

theorem resumed_processChunk (h : Resumed r samples) (chunk : List (BitVec 16)) :
    ∃ out r', r.processChunk (writeInt16s chunk) =
        .ok (writeInt16s (out.map (BitVec.ofInt 16)), r') ∧
      resampled r.step (samples ++ chunk) = resampled r.step samples ++ out ∧
      r'.step = r.step ∧ Resumed r' (samples ++ chunk) := by
  have hstep := r.step_pos
  by_cases hempty : chunk = []
  · subst hempty
    exact ⟨[], r, by simp [processChunk, writeInt16s], by simp, rfl, by simpa using h⟩
  have hlength : chunk.length ≠ 0 := by simpa using hempty
  have heven : ¬ (writeInt16s chunk).length = 0 ∧ ¬ (writeInt16s chunk).length % 2 ≠ 0 := by
    rw [length_writeInt16s]
    omega
  simp only [processChunk, if_neg heven.1, if_neg heven.2, readInt16s_writeInt16s, h.carry]
  by_cases hshort : samples = [] ∧ chunk.length = 1
  · obtain ⟨rfl, hone⟩ := hshort
    have hnone : positionCount r.step ([] ++ chunk).length = 0 := by
      rw [nil_append, hone, positionCount_one hstep]
    refine ⟨[], { r with carrySample := chunk.getLast? }, by simp [hone, writeInt16s], ?_, rfl, ?_⟩
    · rw [resampled, resampled, hnone, length_nil, positionCount_zero hstep]
      rfl
    · have hpos := h.pos
      rw [length_nil, positionCount_zero hstep] at hpos
      refine Resumed.next r rfl rfl (hpos.trans ?_)
      rw [hnone, nil_append, hone]
  · have hlong : 2 ≤ samples.length + chunk.length := by
      by_contra hnot
      refine hshort ⟨length_eq_zero_iff.mp ?_, ?_⟩ <;> omega
    have hsrcLen : ¬ chunk.length + (if samples.getLast?.isSome then 1 else 0) < 2 := by
      cases samples with
      | nil =>
        simp only [length_nil] at hlong
        simp only [getLast?_nil, isSome_none, Bool.false_eq_true, if_false]
        omega
      | cons sample samples =>
        simp only [getLast?_isSome, ne_eq, reduceCtorEq, not_false_eq_true, if_true]
        omega
    rw [if_neg hsrcLen, toList_getLast?_append, map_drop]
    obtain ⟨k, hproduce, hend, hbefore⟩ :=
      produce_eq r (((samples ++ chunk).map normalized).drop (samples.length - 1)) r.pos
    have hsrc : (((((samples ++ chunk).map normalized).drop (samples.length - 1)).length : ℕ) : ℚ) =
        (samples ++ chunk).length - (samples.length - 1 : ℕ) := by
      rw [length_drop, length_map, Nat.cast_sub]
      rw [length_append]
      omega
    rw [hsrc] at hend hbefore
    have hcarried : ((samples.length - 1 : ℕ) : ℚ) ≤
        positionCount r.step samples.length * r.step := base_le_positionCount hstep _
    have hpos := h.pos
    have hafter : positionCount r.step (samples ++ chunk).length =
        positionCount r.step samples.length + k := by
      apply positionCount_eq hstep
      · push_cast at hend ⊢
        linarith
      · intro j hj
        by_cases hold : j < positionCount r.step samples.length
        · have hlt := (lt_positionCount hstep _ _).mp hold
          rw [length_append]
          push_cast
          have hmore : (0 : ℚ) ≤ chunk.length := Nat.cast_nonneg _
          linarith
        · obtain ⟨i, rfl⟩ := Nat.exists_eq_add_of_le (not_lt.mp hold)
          have hlt := hbefore i (by omega)
          push_cast at hlt ⊢
          linarith
    have hnonneg : ¬ r.pos + k * r.step - (((samples ++ chunk).length : ℚ) -
        (samples.length - 1 : ℕ) - 1) < 0 := by
      linarith
    simp only [hproduce, hsrc, if_neg hnonneg]
    refine ⟨_, _, rfl, ?_, rfl, Resumed.next r rfl ?_ ?_⟩
    · rw [resampled_append hstep rfl hafter]
      congr 1
      apply map_congr_left
      intro j _
      have hat : r.pos + j * r.step =
          ((positionCount r.step samples.length + j : ℕ) : ℚ) * r.step - (samples.length - 1 : ℕ) := by
        rw [hpos]
        push_cast
        ring
      rw [hat, sampleAt_drop]
      push_cast
      have hmore : 0 ≤ (j : ℚ) * r.step := mul_nonneg (Nat.cast_nonneg j) hstep.le
      linarith
    · rw [getLast?_append_of_ne_nil _ hempty]
    · have hlast : (((samples ++ chunk).length - 1 : ℕ) : ℚ) = (samples ++ chunk).length - 1 := by
        rw [Nat.cast_sub, Nat.cast_one]
        rw [length_append]
        omega
      rw [hafter, hlast, hpos]
      push_cast
      ring

/-! ## Streams -/

theorem resumed_processChunks (h : Resumed r samples) (chunks : List (List (BitVec 16))) :
    ∃ out r', r.processChunks (chunks.map writeInt16s) =
        .ok (writeInt16s (out.map (BitVec.ofInt 16)), r') ∧
      resampled r.step (samples ++ chunks.flatten) = resampled r.step samples ++ out := by
  induction chunks generalizing r samples with
  | nil => exact ⟨[], r, rfl, by simp⟩
  | cons chunk chunks ih =>
    obtain ⟨out, next, hchunk, hout, hsame, hnext⟩ := resumed_processChunk h chunk
    obtain ⟨rest, last, hrest, hmore⟩ := ih hnext
    refine ⟨out ++ rest, last, ?_, ?_⟩
    · rw [map_cons, processChunks, hchunk]
      show (next.processChunks _ >>= _) = _
      rw [hrest, map_append, writeInt16s_append]
      rfl
    · rw [hsame, append_assoc] at hmore
      rw [flatten_cons, hmore, hout, append_assoc]

/-- The value of a stream at a position, on the line between the two samples around it. -/
def interpolated (samples : List (BitVec 16)) (position : ℚ) : ℚ :=
  let i := ⌊position⌋.toNat
  normalized (samples.getD i 0) +
    (normalized (samples.getD (i + 1) 0) - normalized (samples.getD i 0)) * Int.fract position

theorem normalized_mem (sample : BitVec 16) : -1 ≤ normalized sample ∧ normalized sample < 1 := by
  have hlow := BitVec.le_toInt sample
  have hhigh : sample.toInt < 2 ^ (16 - 1) := BitVec.toInt_lt
  have hlow' : ((-32768 : ℤ) : ℚ) ≤ sample.toInt := by exact_mod_cast hlow
  have hhigh' : (sample.toInt : ℚ) < ((32768 : ℤ) : ℚ) := by exact_mod_cast hhigh
  push_cast at hlow' hhigh'
  rw [normalized, le_div_iff₀ (by norm_num), div_lt_iff₀ (by norm_num)]
  constructor <;> linarith

theorem interpolated_mem (samples : List (BitVec 16)) (position : ℚ) :
    -1 ≤ interpolated samples position ∧ interpolated samples position ≤ 1 := by
  obtain ⟨hlow₀, hhigh₀⟩ := normalized_mem (samples.getD ⌊position⌋.toNat 0)
  obtain ⟨hlow₁, hhigh₁⟩ := normalized_mem (samples.getD (⌊position⌋.toNat + 1) 0)
  have hfract := Int.fract_nonneg position
  have hfract' := (Int.fract_lt_one position).le
  simp only [interpolated]
  constructor <;> nlinarith

theorem sampleAt_eq (samples : List (BitVec 16)) {position : ℚ} (h : 0 ≤ position) :
    sampleAt (samples.map normalized) position = jsRound (interpolated samples position * 32767) := by
  have hfrac : position - (⌊position⌋.toNat : ℚ) = Int.fract position := by
    rw [← Int.cast_natCast, Int.toNat_of_nonneg (Int.floor_nonneg.mpr h)]
    exact Int.self_sub_floor position
  have hget (i : ℕ) : (samples.map normalized).getD i 0 = normalized (samples.getD i 0) := by
    have hzero : normalized 0 = 0 := by simp [normalized]
    rw [← hzero, List.getD_map]
  obtain ⟨hlow, hhigh⟩ := interpolated_mem samples position
  simp only [interpolated] at hlow hhigh
  simp only [sampleAt, hfrac, hget, interpolated, min_eq_right hhigh, max_eq_right hlow]

/-- A sample that is read off fits 16 bits. -/
theorem toInt_jsRound (samples : List (BitVec 16)) (position : ℚ) :
    (BitVec.ofInt 16 (jsRound (interpolated samples position * 32767))).toInt =
      jsRound (interpolated samples position * 32767) := by
  obtain ⟨hlow, hhigh⟩ := interpolated_mem samples position
  have hlow' : -32768 ≤ jsRound (interpolated samples position * 32767) := by
    apply Int.le_floor.mpr
    push_cast
    linarith
  have hhigh' : jsRound (interpolated samples position * 32767) < 32768 := by
    apply Int.floor_lt.mpr
    push_cast
    linarith
  rw [BitVec.toInt_ofInt]
  exact Int.bmod_eq_of_le (by simpa using hlow') (by simpa using hhigh')

/-- However a stream is cut into chunks, a new resampler gives one sample for each position before the
last sample, on the line between the two samples around it. -/
theorem resampling_chunks (r : Pcm16MonoResampler) (chunks : List (List (BitVec 16))) :
    ∃ (out : List (BitVec 16)) (n : ℕ),
      (∃ r', r.reset.processChunks (chunks.map writeInt16s) = .ok (writeInt16s out, r')) ∧
      (∃ r', r.reset.processChunk (writeInt16s chunks.flatten) = .ok (writeInt16s out, r')) ∧
      (∀ k : ℕ, k < n ↔ k * (r.inputRate / r.outputRate) < (chunks.flatten.length : ℚ) - 1) ∧
      (∀ k < n, ⌊(k : ℚ) * (r.inputRate / r.outputRate)⌋.toNat + 1 < chunks.flatten.length) ∧
      out.map BitVec.toInt = (List.range n).map fun k : ℕ =>
        jsRound (interpolated chunks.flatten (k * (r.inputRate / r.outputRate)) * 32767) := by
  have hstart : Resumed r.reset [] := resumed_nil rfl rfl
  have hcount := lt_positionCount r.step_pos chunks.flatten.length
  obtain ⟨out, last, hchunks, hout⟩ := resumed_processChunks hstart chunks
  obtain ⟨whole, only, hwhole, hwholeOut, -, -⟩ := resumed_processChunk hstart chunks.flatten
  have hsame : whole = out := List.append_cancel_left (hwholeOut.symm.trans hout)
  have hnone : resampled r.step [] = [] := by
    rw [resampled, List.length_nil, positionCount_zero r.step_pos]
    rfl
  have hresampled : resampled r.step chunks.flatten = out := by
    have hall : resampled r.step ([] ++ chunks.flatten) = resampled r.step [] ++ out := hout
    rwa [hnone, List.nil_append, List.nil_append] at hall
  refine ⟨out.map (BitVec.ofInt 16), positionCount r.step chunks.flatten.length, ⟨last, hchunks⟩,
    ⟨only, hsame ▸ hwhole⟩, hcount, ?_, ?_⟩
  · intro k hk
    have hlt := (hcount k).mp hk
    have hnonneg : 0 ≤ (k : ℚ) * r.step := mul_nonneg (Nat.cast_nonneg k) r.step_pos.le
    have hfloor := Int.floor_le ((k : ℚ) * r.step)
    have hbelow : ⌊(k : ℚ) * r.step⌋ + 1 < (chunks.flatten.length : ℤ) := by
      have hcast : ((⌊(k : ℚ) * r.step⌋ + 1 : ℤ) : ℚ) < ((chunks.flatten.length : ℤ) : ℚ) := by
        push_cast
        linarith
      exact_mod_cast hcast
    have hstep : r.inputRate / r.outputRate = r.step := rfl
    rw [hstep]
    have hfloorNonneg := Int.floor_nonneg.mpr hnonneg
    omega
  · rw [← hresampled, resampled, List.map_map, List.map_map]
    apply List.map_congr_left
    intro k _
    have hnonneg : 0 ≤ (k : ℚ) * r.step := mul_nonneg (Nat.cast_nonneg k) r.step_pos.le
    show (BitVec.ofInt 16 (sampleAt _ _)).toInt = _
    rw [sampleAt_eq _ hnonneg, toInt_jsRound]
    rfl

end Orqara.Speech
