import Orqara.Providers.JsonlFrameDecoder

/-!
# Chunk groups

Which frames the lines of a stream carry: the ordinary ones, and one for each group of chunks that
is complete, in order and not interrupted by another chunk. The decoder gives up a pending group
where another one starts, and with it the first chunk of the new one.
-/

namespace Orqara.Providers

open JsonParse

structure Chunk where
  header : ChunkHeader
  bytes : List UInt8
  valid : header.Valid

/-- A line as it bears on the frames. -/
inductive Line
  | frame (message : Frame)
  /-- a chunk, or none for an invalid one -/
  | chunk (chunk : Option Chunk)
  /-- neither an object nor a chunk -/
  | other

def readChunk (frame : Frame) : Option Chunk :=
  match chunkHeader frame with
  | none => none
  | some header =>
    if h : header.Valid then (chunkBytes header.data).map fun bytes => ⟨header, bytes, h⟩ else none

def readLine (line : List Char) : Line :=
  if trimChars (chomp line) = [] then .other
  else
    match (parse (chomp line)).bind objectFrame with
    | none => .other
    | some frame => if isChunk frame then .chunk (readChunk frame) else .frame frame

/-! ## What the chunks carry -/

def SameGroup (c d : Chunk) : Prop :=
  c.header.id = d.header.id ∧ c.header.count = d.header.count ∧
    c.header.byteLength = d.header.byteLength

instance (c d : Chunk) : Decidable (SameGroup c d) := inferInstanceAs (Decidable (_ ∧ _))

/-- The open group after another chunk: it goes on, begins anew, or there is none. -/
def extend (group : List Chunk) : Option Chunk → List Chunk
  | none => []
  | some c =>
    if c.header.index = 0 then [c]
    else if group.length = c.header.index ∧ ∀ d ∈ group, SameGroup d c then group ++ [c]
    else []

section

variable (group : List Chunk)

theorem extend_some (c : Chunk) :
    extend group (some c) =
      if c.header.index = 0 then [c]
      else if group.length = c.header.index ∧ ∀ d ∈ group, SameGroup d c then group ++ [c]
      else [] := rfl

def total (group : List Chunk) : ℕ := (group.map fun c => c.bytes.length).sum

/-- The object that a group carries when it has all of its chunks and bytes. -/
def carries (group : List Chunk) : Option Frame :=
  match group.getLast? with
  | none => none
  | some c =>
    if group.length = c.header.count ∧ total group = c.header.byteLength then
      payload (group.map Chunk.bytes).flatten
    else none

/-- The frames of the lines after an open group. -/
def carried (group : List Chunk) : List Line → List Frame
  | [] => []
  | .frame message :: lines => message :: carried group lines
  | .chunk c :: lines => (carries (extend group c)).toList ++ carried (extend group c) lines
  | .other :: lines => carried group lines

/-! ## Groups that come to their end -/

/-- An open group grows by the lines that follow until it carries an object. -/
def Becomes (group : List Chunk) : List Line → Prop
  | [] => False
  | .chunk c :: lines =>
    group.length < (extend group c).length ∧
      ((carries (extend group c)).isSome ∨ Becomes (extend group c) lines)
  | _ :: lines => Becomes group lines

/-- The chunks of a group have the header of an assembly. -/
def HeadedBy (assembly : ChunkAssembly) (group : List Chunk) : Prop :=
  ∀ c ∈ group, c.header.id = assembly.id ∧ c.header.count = assembly.count ∧
    c.header.byteLength = assembly.byteLength

theorem carries_append_singleton (c : Chunk) :
    carries (group ++ [c]) =
      if group.length + 1 = c.header.count ∧ total (group ++ [c]) = c.header.byteLength then
        payload ((group ++ [c]).map Chunk.bytes).flatten
      else none := by
  rw [carries, List.getLast?_append_of_ne_nil, List.length_append]
  · rfl
  · simp

theorem total_append_singleton (c : Chunk) :
    total (group ++ [c]) = total group + c.bytes.length := by
  simp [total]

end

/-- A group that goes on has one more chunk of the same header. -/
theorem extend_of_length_lt {group : List Chunk} {c : Option Chunk} (hne : group ≠ [])
    (h : group.length < (extend group c).length) :
    ∃ d, c = some d ∧ extend group c = group ++ [d] ∧ d.header.index = group.length ∧
      ∀ e ∈ group, SameGroup e d := by
  have hpos := List.length_pos_iff.mpr hne
  cases c with
  | none => exact absurd h (Nat.not_lt_zero _)
  | some d =>
    rw [extend_some] at h ⊢
    split_ifs at h ⊢ with hfirst hnext
    · rw [List.length_singleton] at h
      omega
    · exact ⟨d, rfl, rfl, hnext.1.symm, hnext.2⟩
    · exact absurd h (Nat.not_lt_zero _)

/-- A group with all of its chunks, or with too many bytes, comes to nothing. -/
theorem not_becomes {assembly : ChunkAssembly} {group : List Chunk} (hne : group ≠ [])
    (hheaded : HeadedBy assembly group)
    (hover : assembly.count ≤ group.length ∨ assembly.byteLength < total group)
    (lines : List Line) : ¬ Becomes group lines := by
  induction lines generalizing group with
  | nil => exact id
  | cons line lines ih =>
    cases line with
    | frame message => exact ih hne hheaded hover
    | other => exact ih hne hheaded hover
    | chunk c =>
      rintro ⟨hlonger, hbecomes⟩
      obtain ⟨d, -, hextend, hindex, hsame⟩ := extend_of_length_lt hne hlonger
      obtain ⟨first, hfirst⟩ := List.exists_mem_of_ne_nil group hne
      have hheader := hheaded first hfirst
      have hd : d.header.id = assembly.id ∧ d.header.count = assembly.count ∧
          d.header.byteLength = assembly.byteLength := by
        obtain ⟨hid, hcount, hbytes⟩ := hsame first hfirst
        exact ⟨hid.symm.trans hheader.1, hcount.symm.trans hheader.2.1,
          hbytes.symm.trans hheader.2.2⟩
      have hlt : d.header.index < d.header.count := d.valid.2.2.2.2.1
      have hbytes : assembly.byteLength < total group := by
        rcases hover with hcount | hbytes
        · omega
        · exact hbytes
      have hmore := total_append_singleton group d
      rw [hextend] at hbecomes
      rcases hbecomes with hcarries | hbecomes
      · rw [carries_append_singleton, if_neg] at hcarries
        · cases hcarries
        · omega
      · apply ih (by simp) _ (.inr (by omega)) hbecomes
        intro e he
        rcases List.mem_append.mp he with hold | hnew
        · exact hheaded e hold
        · rw [List.mem_singleton.mp hnew]
          exact hd

end Orqara.Providers
