import Orqara.Library.Fallible
import Orqara.Library.JsonParse
import Orqara.Library.Utf8

/-!
# Binary frames

Terminal output and file transfers share one binary channel. The first byte of a frame is its
opcode, which tells the two formats apart.
-/

namespace Orqara.Frames

open JsonParse (Units Value Plain)

/-! ## Terminal frames -/

inductive TerminalStreamOpcode
  | output | input | resize | snapshot | restore
  deriving DecidableEq, Repr

namespace TerminalStreamOpcode

def byte : TerminalStreamOpcode → UInt8
  | output => 0x01
  | input => 0x02
  | resize => 0x03
  | snapshot => 0x04
  | restore => 0x05

def ofByte (b : UInt8) : Option TerminalStreamOpcode :=
  if b = 0x01 then some output
  else if b = 0x02 then some input
  else if b = 0x03 then some resize
  else if b = 0x04 then some snapshot
  else if b = 0x05 then some restore
  else none

end TerminalStreamOpcode

structure TerminalStreamFrame where
  opcode : TerminalStreamOpcode
  slot : ℕ
  payload : List UInt8
  deriving DecidableEq

/-- The slot goes into one byte, `slot & 0xff`. -/
def encodeTerminalStreamFrame (input : TerminalStreamFrame) : List UInt8 :=
  input.opcode.byte :: UInt8.ofNat input.slot :: input.payload

def decodeTerminalStreamFrame : List UInt8 → Option TerminalStreamFrame
  | opcode :: slot :: payload =>
    (TerminalStreamOpcode.ofByte opcode).map fun opcode =>
      { opcode, slot := slot.toNat, payload }
  | _ => none

/-! ## Metadata of a file -/

inductive FileEncoding
  | utf8 | binary
  deriving DecidableEq, Repr

/-- The code units of a text. -/
def units (s : String) : Units := s.toList.flatMap JsonParse.unitsOf

def FileEncoding.name : FileEncoding → Units
  | utf8 => units "utf-8"
  | binary => units "binary"

/-- Metadata that the schema accepts. -/
structure FileBeginMetadata where
  mime : Units
  size : ℕ
  encoding : FileEncoding
  modifiedAt : Units
  revision : Option Units
  fileName : Option Units
  mime_ne_nil : mime ≠ []
  size_lt : size < 2 ^ 53

namespace FileBeginMetadata

/-- The properties of the metadata; one that is not there is not written. -/
def properties (metadata : FileBeginMetadata) : List (Units × Plain) :=
  [(units "mime", .str metadata.mime), (units "size", .num metadata.size),
    (units "encoding", .str metadata.encoding.name),
    (units "modifiedAt", .str metadata.modifiedAt)] ++
  metadata.revision.toList.map (fun revision => (units "revision", .str revision)) ++
  metadata.fileName.toList.map (fun fileName => (units "fileName", .str fileName))

def stringField (members : List (Units × Value)) (key : Units) : Option Units :=
  match JsonParse.member members key with
  | some (.str value) => some value
  | _ => none

/-- A field that may be left out. -/
def optionalField (members : List (Units × Value)) (key : Units) : Option (Option Units) :=
  match JsonParse.member members key with
  | none => some none
  | some (.str value) => some (some value)
  | some _ => none

/-- `z.number().int().nonnegative()`, where `int` takes the integers that are safe. -/
def sizeField (members : List (Units × Value)) (key : Units) : Option ℕ :=
  match JsonParse.member members key with
  | some (.num (some q)) =>
    if q.den = 1 ∧ 0 ≤ q ∧ q.num.toNat < 2 ^ 53 then some q.num.toNat else none
  | _ => none

def encodingField (members : List (Units × Value)) (key : Units) : Option FileEncoding :=
  match JsonParse.member members key with
  | some (.str value) =>
    if value = FileEncoding.utf8.name then some .utf8
    else if value = FileEncoding.binary.name then some .binary
    else none
  | _ => none

/-- `FileBeginMetadataSchema.safeParse` -/
def safeParse : Value → Option FileBeginMetadata
  | .obj members =>
    (stringField members (units "mime")).bind fun mime =>
      (sizeField members (units "size")).bind fun size =>
        (encodingField members (units "encoding")).bind fun encoding =>
          (stringField members (units "modifiedAt")).bind fun modifiedAt =>
            (optionalField members (units "revision")).bind fun revision =>
              (optionalField members (units "fileName")).bind fun fileName =>
                if h : mime ≠ [] ∧ size < 2 ^ 53 then
                  some
                    { mime, size, encoding, modifiedAt, revision, fileName
                      mime_ne_nil := h.1
                      size_lt := h.2 }
                else none
  | _ => none

end FileBeginMetadata

/-- A metadata object: its properties are enumerated in the order in which they were set. -/
structure MetadataObject where
  metadata : FileBeginMetadata
  properties : List (Units × Plain)
  perm : properties.Perm metadata.properties

/-! ## File-transfer frames -/

inductive FileTransferOpcode
  | fileBegin | fileChunk | fileEnd
  deriving DecidableEq, Repr

namespace FileTransferOpcode

def byte : FileTransferOpcode → UInt8
  | fileBegin => 0x10
  | fileChunk => 0x11
  | fileEnd => 0x12

def ofByte (b : UInt8) : Option FileTransferOpcode :=
  if b = 0x10 then some fileBegin
  else if b = 0x11 then some fileChunk
  else if b = 0x12 then some fileEnd
  else none

end FileTransferOpcode

inductive FileTransferFrame
  | fileBegin (requestId : String) (metadata : FileBeginMetadata) (payload : List UInt8)
  | fileChunk (requestId : String) (payload : List UInt8)
  | fileEnd (requestId : String) (payload : List UInt8)

inductive FileTransferFrameInput
  | fileBegin (requestId : String) (metadata : MetadataObject)
  | fileChunk (requestId : String) (payload : List UInt8)
  | fileEnd (requestId : String)

def FileTransferFrameInput.requestId : FileTransferFrameInput → String
  | fileBegin requestId _ => requestId
  | fileChunk requestId _ => requestId
  | fileEnd requestId => requestId

/-- `new TextDecoder().decode(bytes)` drops a byte order mark. -/
def decodeText (bytes : List UInt8) : List Char :=
  Utf8.stripMark (Utf8.decode bytes)

def encodeRequestId (requestId : String) : Except String (List UInt8) :=
  let bytes := Utf8.encode requestId.toList
  if bytes.length = 0 then .error "File transfer requestId is required"
  else if bytes.length > 0xff then .error "File transfer requestId is too long"
  else .ok bytes

def decodeRequestId (bytes : List UInt8) : String :=
  String.ofList (decodeText bytes)

def encodeJsonPayload (properties : List (Units × Plain)) : List UInt8 :=
  Utf8.encode (JsonParse.stringify properties)

/-- The value of a JSON text; a text that is none is read as `null`. -/
def decodeJsonPayload (bytes : List UInt8) : Value :=
  (JsonParse.parse (decodeText bytes)).getD .null

def encodeFileTransferFrame (input : FileTransferFrameInput) : Except String (List UInt8) :=
  encodeRequestId input.requestId >>= fun requestId =>
    match input with
    | .fileBegin _ object =>
      let metadata := encodeJsonPayload object.properties
      if metadata.length > 0xffff then .error "FileBegin metadata is too long"
      else
        .ok (FileTransferOpcode.fileBegin.byte :: UInt8.ofNat requestId.length ::
          (requestId ++ (UInt8.ofNat (metadata.length / 0x100) ::
            UInt8.ofNat (metadata.length % 0x100) :: metadata)))
    | .fileChunk _ payload =>
      .ok (FileTransferOpcode.fileChunk.byte :: UInt8.ofNat requestId.length ::
        (requestId ++ payload))
    | .fileEnd _ =>
      .ok (FileTransferOpcode.fileEnd.byte :: UInt8.ofNat requestId.length :: requestId)

/-- What follows the request id. -/
def decodeBody (opcode : FileTransferOpcode) (requestId : String) (body : List UInt8) :
    Option FileTransferFrame :=
  match opcode with
  | .fileBegin =>
    match body with
    | high :: low :: metadata =>
      if high.toNat * 0x100 + low.toNat ≠ metadata.length then none
      else
        (FileBeginMetadata.safeParse (decodeJsonPayload metadata)).map fun metadata =>
          .fileBegin requestId metadata []
    | _ => none
  | .fileChunk => some (.fileChunk requestId body)
  | .fileEnd => if body.length ≠ 0 then none else some (.fileEnd requestId [])

def decodeFileTransferFrame : List UInt8 → Option FileTransferFrame
  | opcode :: requestIdLength :: rest =>
    (FileTransferOpcode.ofByte opcode).bind fun opcode =>
      if requestIdLength = 0 ∨ requestIdLength.toNat > rest.length then none
      else
        decodeBody opcode (decodeRequestId (rest.take requestIdLength.toNat))
          (rest.drop requestIdLength.toNat)
  | _ => none

/-! ## Telling the formats apart -/

inductive BinaryFrame
  | terminal (frame : TerminalStreamFrame)
  | fileTransfer (frame : FileTransferFrame)

def decodeBinaryFrame (bytes : List UInt8) : Option BinaryFrame :=
  match bytes with
  | [] => none
  | opcode :: _ =>
    if (TerminalStreamOpcode.ofByte opcode).isSome then
      (decodeTerminalStreamFrame bytes).map .terminal
    else if (FileTransferOpcode.ofByte opcode).isSome then
      (decodeFileTransferFrame bytes).map .fileTransfer
    else none

end Orqara.Frames
