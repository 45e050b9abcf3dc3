import Mathlib

/-!
# Resampling of speech

Samples are read off the line through their neighbours, in steps of the input rate over the output
rate. What is kept between two chunks is the last sample and the position after it.
-/

namespace Orqara.Speech

/-! ## Buffers -/

/-- The little-endian samples in a buffer of an even length. -/
def readInt16s : List UInt8 → List (BitVec 16)
  | low :: high :: rest => BitVec.ofNat 16 (low.toNat + 256 * high.toNat) :: readInt16s rest
  | _ => []

def writeInt16 (sample : BitVec 16) : List UInt8 :=
  [UInt8.ofNat (sample.toNat % 256), UInt8.ofNat (sample.toNat / 256)]

def writeInt16s (samples : List (BitVec 16)) : List UInt8 := samples.flatMap writeInt16

@[simp] theorem writeInt16s_append (xs ys : List (BitVec 16)) :
    writeInt16s (xs ++ ys) = writeInt16s xs ++ writeInt16s ys := List.flatMap_append

theorem readInt16s_writeInt16s (samples : List (BitVec 16)) :
    readInt16s (writeInt16s samples) = samples := by
  induction samples with
  | nil => rfl
  | cons sample samples ih =>
    have hbits : BitVec.ofNat 16 ((UInt8.ofNat (sample.toNat % 256)).toNat +
        256 * (UInt8.ofNat (sample.toNat / 256)).toNat) = sample := by
      apply BitVec.eq_of_toNat_eq
      have hlt := sample.isLt
      simp only [UInt8.toNat_ofNat', BitVec.toNat_ofNat]
      omega
    show _ :: readInt16s (writeInt16s samples) = _
    rw [hbits, ih]

theorem length_writeInt16s (samples : List (BitVec 16)) :
    (writeInt16s samples).length = 2 * samples.length := by
  simp only [writeInt16s, writeInt16, List.length_flatMap, List.length_cons, List.length_nil,
    List.map_const', List.sum_replicate, smul_eq_mul]
  omega

/-! ## The resampler -/

structure Pcm16MonoResampler where
  inputRate : ℚ
  outputRate : ℚ
  inputRate_pos : 0 < inputRate
  outputRate_pos : 0 < outputRate
  pos : ℚ
  carrySample : Option (BitVec 16)

namespace Pcm16MonoResampler

def step (r : Pcm16MonoResampler) : ℚ := r.inputRate / r.outputRate

theorem step_pos (r : Pcm16MonoResampler) : 0 < r.step := div_pos r.inputRate_pos r.outputRate_pos

def reset (r : Pcm16MonoResampler) : Pcm16MonoResampler := { r with pos := 0, carrySample := none }

/-- Half is rounded up. -/
def jsRound (x : ℚ) : ℤ := ⌊x + 1 / 2⌋

def normalized (sample : BitVec 16) : ℚ := sample.toInt / 32768

/-- The sample at a position between two samples. -/
def sampleAt (src : List ℚ) (pos : ℚ) : ℤ :=
  let i := ⌊pos⌋.toNat
  let frac := pos - i
  let s0 := src.getD i 0
  let s1 := src.getD (i + 1) 0
  let sample := s0 + (s1 - s0) * frac
  let clamped := max (-1) (min 1 sample)
  jsRound (clamped * 32767)

theorem ceil_sub_one_lt {a : ℚ} (h : 0 < a) : ⌈a - 1⌉₊ < ⌈a⌉₊ := by
  rw [Nat.lt_ceil]
  by_cases hle : 0 ≤ a - 1
  · have hlt := Nat.ceil_lt_add_one hle
    linarith
  · rw [Nat.ceil_eq_zero.mpr (le_of_not_ge hle)]
    simpa using h

/-- The samples up to the last position, and the first position that is not before it. -/
def produce (r : Pcm16MonoResampler) (src : List ℚ) (pos : ℚ) : List ℤ × ℚ :=
  if pos < (src.length : ℚ) - 1 then
    let rest := r.produce src (pos + r.step)
    (sampleAt src pos :: rest.1, rest.2)
  else ([], pos)
termination_by ⌈((src.length : ℚ) - 1 - pos) / r.step⌉₊
decreasing_by
  next hlt =>
    have hstep := r.step_pos
    have hleft : 0 < ((src.length : ℚ) - 1 - pos) / r.step := div_pos (by linarith) hstep
    have hless : ((src.length : ℚ) - 1 - (pos + r.step)) / r.step =
        ((src.length : ℚ) - 1 - pos) / r.step - 1 := by
      field_simp
      ring
    rw [hless]
    exact ceil_sub_one_lt hleft

/-- The samples are exact where the code has 32-bit floats. -/
def processChunk (r : Pcm16MonoResampler) (pcm16le : List UInt8) :
    Except String (List UInt8 × Pcm16MonoResampler) :=
  if pcm16le.length = 0 then .ok ([], r)
  else if pcm16le.length % 2 ≠ 0 then
    .error ("PCM16 chunk byteLength must be even, got " ++ toString pcm16le.length)
  else
    let srcChunk := readInt16s pcm16le
    let srcLen := srcChunk.length + (if r.carrySample.isSome then 1 else 0)
    if srcLen < 2 then
      .ok ([], { r with
        carrySample := if srcChunk.length = 0 then r.carrySample else srcChunk.getLast? })
    else
      let src := (r.carrySample.toList ++ srcChunk).map normalized
      let produced := r.produce src r.pos
      let pos := produced.2 - ((src.length : ℚ) - 1)
      .ok (writeInt16s (produced.1.map (BitVec.ofInt 16)),
        { r with pos := if pos < 0 then 0 else pos, carrySample := srcChunk.getLast? })

def processChunks (r : Pcm16MonoResampler) : List (List UInt8) →
    Except String (List UInt8 × Pcm16MonoResampler)
  | [] => .ok ([], r)
  | chunk :: chunks => do
    let (out, r) ← r.processChunk chunk
    let (rest, r) ← r.processChunks chunks
    .ok (out ++ rest, r)

end Pcm16MonoResampler

end Orqara.Speech
