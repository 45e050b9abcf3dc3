import Orqara.Library.Base64
import Orqara.Library.JsonParse
import Orqara.Library.Utf8

/-!
# Frames of a provider process

What a provider writes to its output, as the frames that are dispatched. Each chunk of the pipe
becomes text by itself, the text becomes lines, and a line is a frame or one piece of a frame that
was too long for a line. Of an object of the parser a property is the last member of that name.
-/

namespace Orqara.Providers

open JsonParse

abbrev Frame := List (Units × Value)

def units (s : String) : Units := s.toList.flatMap unitsOf

def v2FrameBytes : ℕ := 1024 * 1024

def v2ReassembledBytes : ℕ := 64 * 1024 * 1024

def v2ChunkBytes : ℕ := 256 * 1024

def v2Base64Chars : ℕ := (v2ChunkBytes + 2) / 3 * 4

def v2MaxChunks : ℕ := v2ReassembledBytes / v2ChunkBytes

inductive JsonlFrameProblem
  | invalidJson
  | invalidChunk
  | invalidBase64
  | outOfOrderChunk
  | chunkLengthMismatch
  | invalidChunkPayload
  deriving DecidableEq

structure ChunkHeader where
  id : Units
  index : ℕ
  count : ℕ
  byteLength : ℕ
  data : Units

structure ChunkAssembly where
  id : Units
  count : ℕ
  byteLength : ℕ
  parts : List (List UInt8)
  bytes : ℕ

/-- What the receiver of a decoder is given. -/
inductive Received
  | frame (message : Frame)
  | problem (problem : JsonlFrameProblem)

def objectFrame : Value → Option Frame
  | .obj members => some members
  | _ => none

/-! ## Chunks -/

/-- A property that is a string. -/
def stringField (frame : Frame) (name : String) : Option Units :=
  match member frame (units name) with
  | some (.str value) => some value
  | _ => none

/-- A property that is a safe integer and not negative. -/
def countField (frame : Frame) (name : String) : Option ℕ :=
  match member frame (units name) with
  | some (.num (some value)) =>
    if value.den = 1 ∧ 0 ≤ value.num ∧ value.num < 2 ^ 53 then some value.num.toNat else none
  | _ => none

def ChunkHeader.Valid (header : ChunkHeader) : Prop :=
  header.id.length ≠ 0 ∧ header.id.length ≤ 128 ∧ 2 ≤ header.count ∧ header.count ≤ v2MaxChunks ∧
    header.index < header.count ∧ v2FrameBytes ≤ header.byteLength ∧
    header.byteLength ≤ v2ReassembledBytes ∧ header.data.length ≠ 0

instance (header : ChunkHeader) : Decidable header.Valid :=
  inferInstanceAs (Decidable (_ ∧ _))

def chunkHeader (frame : Frame) : Option ChunkHeader :=
  (stringField frame "chunkId").bind fun id => (countField frame "index").bind fun index =>
    (countField frame "count").bind fun count =>
      (countField frame "byteLength").bind fun byteLength =>
        (stringField frame "data").bind fun data =>
          let header : ChunkHeader := ⟨id, index, count, byteLength, data⟩
          if header.Valid then some header else none

def chunkBytes (data : Units) : Option (List UInt8) :=
  if v2Base64Chars < data.length then none
  else
    let bytes := Base64.decode data
    if v2ChunkBytes < bytes.length ∨ Base64.encode bytes ≠ data then none else some bytes

/-- The object of a text that has to be UTF-8; a byte order mark is left out. -/
def payload (bytes : List UInt8) : Option Frame :=
  if Utf8.WellFormed bytes then
    (parse (Utf8.stripMark (Utf8.decode bytes))).bind objectFrame
  else none

def finishAssembly (parts : List (List UInt8)) : Received :=
  match payload parts.flatten with
  | some message => .frame message
  | none => .problem .invalidChunkPayload

/-- A chunk with a header and bytes, for the assembly it belongs to. -/
def pushChunk (assembly : ChunkAssembly) (header : ChunkHeader) (bytes : List UInt8) :
    Option ChunkAssembly × List Received :=
  if assembly.id ≠ header.id ∨ assembly.count ≠ header.count ∨
      assembly.byteLength ≠ header.byteLength ∨ assembly.parts.length ≠ header.index then
    (none, [.problem .outOfOrderChunk])
  else
    let assembly : ChunkAssembly :=
      { assembly with parts := assembly.parts ++ [bytes], bytes := assembly.bytes + bytes.length }
    if assembly.byteLength < assembly.bytes then (none, [.problem .chunkLengthMismatch])
    else if assembly.parts.length < assembly.count then (some assembly, [])
    else if assembly.bytes ≠ assembly.byteLength then (none, [.problem .chunkLengthMismatch])
    else (none, [finishAssembly assembly.parts])

def consumeChunk (assembly : Option ChunkAssembly) (frame : Frame) :
    Option ChunkAssembly × List Received :=
  match chunkHeader frame with
  | none => (none, [.problem .invalidChunk])
  | some header =>
    match chunkBytes header.data with
    | none => (none, [.problem .invalidBase64])
    | some bytes =>
      match assembly with
      | none =>
        if header.index ≠ 0 then (none, [.problem .outOfOrderChunk])
        else pushChunk ⟨header.id, header.count, header.byteLength, [], 0⟩ header bytes
      | some assembly => pushChunk assembly header bytes

/-! ## Lines -/

def isChunk (frame : Frame) : Bool := stringField frame "type" = some (units "rpc_chunk")

def consumeLine (assembly : Option ChunkAssembly) (line : List Char) :
    Option ChunkAssembly × List Received :=
  match parse line with
  | none => (assembly, [.problem .invalidJson])
  | some parsed =>
    match objectFrame parsed with
    | none => (assembly, [])
    | some frame =>
      if isChunk frame then consumeChunk assembly frame else (assembly, [.frame frame])

/-- The lines of a text that a line feed ends, and what follows the last one. -/
def splitLines : List Char → List (List Char) × List Char
  | [] => ([], [])
  | c :: text =>
    if c = '\n' then ([] :: (splitLines text).1, (splitLines text).2)
    else
      match splitLines text with
      | ([], rest) => ([], c :: rest)
      | (line :: lines, rest) => ((c :: line) :: lines, rest)

/-- A line without the carriage return at its end. -/
def chomp (line : List Char) : List Char :=
  if line.getLast? = some '\r' then line.dropLast else line

def consumeLines (assembly : Option ChunkAssembly) :
    List (List Char) → Option ChunkAssembly × List Received
  | [] => (assembly, [])
  | line :: lines =>
    if trimChars (chomp line) = [] then consumeLines assembly lines
    else
      let consumed := consumeLine assembly (chomp line)
      let rest := consumeLines consumed.1 lines
      (rest.1, consumed.2 ++ rest.2)

structure JsonlFrameDecoder where
  lineBuffer : List Char
  assembly : Option ChunkAssembly

def JsonlFrameDecoder.write (decoder : JsonlFrameDecoder) (text : List Char) :
    JsonlFrameDecoder × List Received :=
  let split := splitLines (decoder.lineBuffer ++ text)
  let consumed := consumeLines decoder.assembly split.1
  (⟨split.2, consumed.1⟩, consumed.2)

/-! ## The process -/

/-- The chunks of the pipe, one after the other; each is turned into text by itself. -/
def handleStdoutChunks (decoder : JsonlFrameDecoder) :
    List (List UInt8) → JsonlFrameDecoder × List Received
  | [] => (decoder, [])
  | chunk :: chunks =>
    let written := decoder.write (Utf8.decode chunk)
    let rest := handleStdoutChunks written.1 chunks
    (rest.1, written.2 ++ rest.2)

def Received.frame? : Received → Option Frame
  | .frame message => some message
  | .problem _ => none

/-- The frames that a process dispatches. -/
def dispatched (chunks : List (List UInt8)) : List Frame :=
  (handleStdoutChunks ⟨[], none⟩ chunks).2.filterMap Received.frame?

end Orqara.Providers
