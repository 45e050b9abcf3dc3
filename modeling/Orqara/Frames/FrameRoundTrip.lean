import Orqara.Frames.BinaryFrames

/-!
# Frames are read back

Terminal frames are read back as they are. A file-transfer frame is, both ways, when the bytes of
its request id are UTF-8 that does not start with a byte order mark: the text decoder drops a mark
and replaces what is not UTF-8.
-/

namespace Orqara.Frames

open JsonParse FileBeginMetadata List Option

open JsonParse (Units Value Plain)

/-! ## Opcodes -/

namespace TerminalStreamOpcode

@[simp] theorem ofByte_byte (opcode : TerminalStreamOpcode) : ofByte opcode.byte = some opcode := by
  cases opcode with
  | output => rfl
  | input => rfl
  | resize => rfl
  | snapshot => rfl
  | restore => rfl

theorem byte_of_ofByte {b : UInt8} {opcode : TerminalStreamOpcode} (h : ofByte b = some opcode) :
    b = opcode.byte := by
  unfold ofByte at h
  split_ifs at h with h1 h2 h3 h4 h5
  · rw [h1, ← some.inj h]
    rfl
  · rw [h2, ← some.inj h]
    rfl
  · rw [h3, ← some.inj h]
    rfl
  · rw [h4, ← some.inj h]
    rfl
  · rw [h5, ← some.inj h]
    rfl

end TerminalStreamOpcode

namespace FileTransferOpcode

@[simp] theorem ofByte_byte (opcode : FileTransferOpcode) : ofByte opcode.byte = some opcode := by
  cases opcode with
  | fileBegin => rfl
  | fileChunk => rfl
  | fileEnd => rfl

theorem byte_of_ofByte {b : UInt8} {opcode : FileTransferOpcode} (h : ofByte b = some opcode) :
    b = opcode.byte := by
  unfold ofByte at h
  split_ifs at h with h1 h2 h3
  · rw [h1, ← some.inj h]
    rfl
  · rw [h2, ← some.inj h]
    rfl
  · rw [h3, ← some.inj h]
    rfl

/-- No opcode belongs to both formats. -/
@[simp] theorem terminal_ofByte_byte (opcode : FileTransferOpcode) :
    TerminalStreamOpcode.ofByte opcode.byte = none := by
  cases opcode with
  | fileBegin => rfl
  | fileChunk => rfl
  | fileEnd => rfl

end FileTransferOpcode

theorem decodeBinaryFrame_terminal (opcode : TerminalStreamOpcode) (rest : List UInt8) :
    decodeBinaryFrame (opcode.byte :: rest) =
      (decodeTerminalStreamFrame (opcode.byte :: rest)).map .terminal := by
  rw [decodeBinaryFrame, TerminalStreamOpcode.ofByte_byte]
  rfl

theorem decodeBinaryFrame_fileTransfer (opcode : FileTransferOpcode) (rest : List UInt8) :
    decodeBinaryFrame (opcode.byte :: rest) =
      (decodeFileTransferFrame (opcode.byte :: rest)).map .fileTransfer := by
  rw [decodeBinaryFrame, FileTransferOpcode.terminal_ofByte_byte, FileTransferOpcode.ofByte_byte]
  rfl

/-! ## Terminal frames -/

theorem decodeTerminalStreamFrame_encode {frame : TerminalStreamFrame} (h : frame.slot ≤ 255) :
    decodeTerminalStreamFrame (encodeTerminalStreamFrame frame) = some frame := by
  rw [encodeTerminalStreamFrame, decodeTerminalStreamFrame, TerminalStreamOpcode.ofByte_byte,
    map_some, Utf8.toNat_ofNat (show frame.slot < 256 by omega)]

variable {bytes : List UInt8} {input : FileTransferFrameInput}

theorem encodeTerminalStreamFrame_decode {frame : TerminalStreamFrame}
    (h : decodeTerminalStreamFrame bytes = some frame) :
    encodeTerminalStreamFrame frame = bytes := by
  unfold decodeTerminalStreamFrame at h
  split at h
  · obtain ⟨opcode, hopcode, rfl⟩ := map_eq_some_iff.mp h
    rw [encodeTerminalStreamFrame, ← TerminalStreamOpcode.byte_of_ofByte hopcode,
      UInt8.ofNat_toNat]
  · cases h

/-! ## Metadata -/

section Members

variable {members : List (Units × Value)} {key : Units} {value : Value}

theorem member_of_mem (hnodup : (members.map Prod.fst).Nodup) (h : (key, value) ∈ members) :
    member members key = some value := by
  unfold member
  have hnodup' : (members.reverse.map Prod.fst).Nodup := by
    rw [map_reverse]
    exact nodup_reverse.mpr hnodup
  cases hfind : members.reverse.find? fun member => member.1 = key with
  | none =>
    have hnone := find?_eq_none.mp hfind (key, value) (mem_reverse.mpr h)
    simp at hnone
  | some found =>
    have hkey : found.1 = key := by simpa using find?_some hfind
    have hsame : found = (key, value) := inj_on_of_nodup_map hnodup'
      (mem_of_find?_eq_some hfind) (mem_reverse.mpr h) hkey
    rw [hsame]
    rfl

theorem member_of_not_mem (h : key ∉ members.map Prod.fst) :
    member members key = none := by
  unfold member
  rw [map_eq_none_iff, find?_eq_none]
  intro found hfound hkey
  exact h (List.mem_map.mpr ⟨found, mem_reverse.mp hfound, by simpa using hkey⟩)

end Members

namespace MetadataObject

theorem keys_valuesOf (plains : List (Units × Plain)) :
    (valuesOf plains).map Prod.fst = plains.map Prod.fst := by
  rw [valuesOf, List.map_map]
  rfl

section

variable (metadata : FileBeginMetadata)

theorem nodup_keys_properties :
    (metadata.properties.map Prod.fst).Nodup := by
  rcases metadata with ⟨mime, size, encoding, modifiedAt, revision, fileName, hmime, hsize⟩
  cases revision with
  | none =>
    cases fileName with
    | none => exact (by decide +kernel : [units "mime", units "size", units "encoding",
        units "modifiedAt"].Nodup)
    | some fileName => exact (by decide +kernel : [units "mime", units "size", units "encoding",
        units "modifiedAt", units "fileName"].Nodup)
  | some revision =>
    cases fileName with
    | none => exact (by decide +kernel : [units "mime", units "size", units "encoding",
        units "modifiedAt", units "revision"].Nodup)
    | some fileName => exact (by decide +kernel : [units "mime", units "size", units "encoding",
        units "modifiedAt", units "revision", units "fileName"].Nodup)

theorem revision_not_mem (h : metadata.revision = none) :
    units "revision" ∉ metadata.properties.map Prod.fst := by
  rcases metadata with ⟨mime, size, encoding, modifiedAt, revision, fileName, hmime, hsize⟩
  cases h
  cases fileName with
  | none => exact (by decide +kernel : units "revision" ∉ [units "mime", units "size",
      units "encoding", units "modifiedAt"])
  | some fileName => exact (by decide +kernel : units "revision" ∉ [units "mime", units "size",
      units "encoding", units "modifiedAt", units "fileName"])

theorem fileName_not_mem (h : metadata.fileName = none) :
    units "fileName" ∉ metadata.properties.map Prod.fst := by
  rcases metadata with ⟨mime, size, encoding, modifiedAt, revision, fileName, hmime, hsize⟩
  cases h
  cases revision with
  | none => exact (by decide +kernel : units "fileName" ∉ [units "mime", units "size",
      units "encoding", units "modifiedAt"])
  | some revision => exact (by decide +kernel : units "fileName" ∉ [units "mime", units "size",
      units "encoding", units "modifiedAt", units "revision"])

end

variable (object : MetadataObject) {key : Units}

theorem nodup_keys : ((valuesOf object.properties).map Prod.fst).Nodup := by
  rw [keys_valuesOf]
  exact ((object.perm.map Prod.fst).nodup_iff).mpr (nodup_keys_properties object.metadata)

theorem member_of_property {plain : Plain} (h : (key, plain) ∈ object.metadata.properties) :
    member (valuesOf object.properties) key = some plain.value := by
  apply member_of_mem object.nodup_keys
  exact List.mem_map.mpr ⟨(key, plain), object.perm.mem_iff.mpr h, rfl⟩

theorem member_eq_none (h : key ∉ object.metadata.properties.map Prod.fst) :
    member (valuesOf object.properties) key = none := by
  apply member_of_not_mem
  rw [keys_valuesOf]
  exact fun hmem => h ((object.perm.map Prod.fst).mem_iff.mp hmem)

/-- The optional property is there when its field is. -/
theorem optionalField_properties (field : Option Units)
    (hmem : ∀ value ∈ field, (key, Plain.str value) ∈ object.metadata.properties)
    (hnone : field = none → key ∉ object.metadata.properties.map Prod.fst) :
    optionalField (valuesOf object.properties) key = some field := by
  unfold optionalField
  cases field with
  | none => rw [object.member_eq_none (hnone rfl)]
  | some value =>
    rw [object.member_of_property (hmem value rfl)]
    rfl

theorem stringField_properties {value : Units} (h : (key, Plain.str value) ∈ object.metadata.properties) :
    stringField (valuesOf object.properties) key = some value := by
  unfold stringField
  rw [object.member_of_property h]
  rfl

theorem sizeField_properties :
    sizeField (valuesOf object.properties) (units "size") =
      some object.metadata.size := by
  have hmem : (units "size", Plain.num object.metadata.size) ∈ object.metadata.properties := by
    simp [FileBeginMetadata.properties]
  unfold FileBeginMetadata.sizeField
  rw [object.member_of_property hmem]
  have hsafe : ((object.metadata.size : ℚ).den = 1 ∧ (0 : ℚ) ≤ object.metadata.size ∧
      (object.metadata.size : ℚ).num.toNat < 2 ^ 53) := by
    refine ⟨Rat.den_natCast _, Nat.cast_nonneg _, ?_⟩
    rw [Rat.num_natCast, Int.toNat_natCast]
    exact object.metadata.size_lt
  show (if _ then _ else none) = _
  rw [if_pos hsafe, Rat.num_natCast, Int.toNat_natCast]

theorem encodingField_properties :
    encodingField (valuesOf object.properties) (units "encoding") =
      some object.metadata.encoding := by
  have hmem : (units "encoding", Plain.str object.metadata.encoding.name) ∈
      object.metadata.properties := by
    simp [FileBeginMetadata.properties]
  unfold FileBeginMetadata.encodingField
  rw [object.member_of_property hmem]
  cases object.metadata.encoding with
  | utf8 => exact if_pos rfl
  | binary =>
    have hne : FileEncoding.binary.name ≠ FileEncoding.utf8.name := by decide +kernel
    show (if FileEncoding.binary.name = FileEncoding.utf8.name then some FileEncoding.utf8
      else if FileEncoding.binary.name = FileEncoding.binary.name then some .binary else none) = _
    rw [if_neg hne, if_pos rfl]

theorem safeParse_properties :
    safeParse (.obj (valuesOf object.properties)) =
      some object.metadata := by
  have hmime : (units "mime", Plain.str object.metadata.mime) ∈ object.metadata.properties := by
    simp [FileBeginMetadata.properties]
  have hmodifiedAt : (units "modifiedAt", Plain.str object.metadata.modifiedAt) ∈
      object.metadata.properties := by
    simp [FileBeginMetadata.properties]
  have hrevision : FileBeginMetadata.optionalField (valuesOf object.properties)
      (units "revision") = some object.metadata.revision := by
    apply object.optionalField_properties
    · intro value hvalue
      simp [FileBeginMetadata.properties, mem_def.mp hvalue]
    · exact revision_not_mem object.metadata
  have hfileName : FileBeginMetadata.optionalField (valuesOf object.properties)
      (units "fileName") = some object.metadata.fileName := by
    apply object.optionalField_properties
    · intro value hvalue
      simp [FileBeginMetadata.properties, mem_def.mp hvalue]
    · exact fileName_not_mem object.metadata
  rw [FileBeginMetadata.safeParse, object.stringField_properties hmime, object.sizeField_properties,
    object.encodingField_properties, object.stringField_properties hmodifiedAt, hrevision,
    hfileName]
  simp only [bind_some]
  rw [dif_pos ⟨object.metadata.mime_ne_nil, object.metadata.size_lt⟩]

end MetadataObject

/-! ## Request ids -/

/-- Bytes of a request id that are read and written back as they are. -/
def PlainRequestId (bytes : List UInt8) : Prop :=
  Utf8.WellFormed bytes ∧ (Utf8.decode bytes).head? ≠ some Utf8.byteOrderMark

instance (bytes : List UInt8) : Decidable (PlainRequestId bytes) :=
  inferInstanceAs (Decidable (_ ∧ _))

theorem encode_decodeText_iff (bytes : List UInt8) :
    Utf8.encode (decodeText bytes) = bytes ↔ PlainRequestId bytes := by
  constructor
  · intro h
    have hdecode : Utf8.decode bytes = decodeText bytes := by
      conv_lhs => rw [← h]
      exact Utf8.decode_encode _
    refine ⟨?_, ?_⟩
    · rw [Utf8.WellFormed, hdecode]
      exact h
    · exact Utf8.stripMark_eq_self_iff.mp hdecode.symm
  · rintro ⟨hformed, hmark⟩
    rw [decodeText, Utf8.stripMark_eq_self_iff.mpr hmark]
    exact hformed

theorem decodeRequestId_encode_iff (requestId : String) :
    decodeRequestId (Utf8.encode requestId.toList) = requestId ↔
      requestId.toList.head? ≠ some Utf8.byteOrderMark := by
  rw [decodeRequestId, decodeText, Utf8.decode_encode, ← Utf8.stripMark_eq_self_iff]
  constructor
  · intro h
    have hlist := congrArg String.toList h
    rwa [String.toList_ofList] at hlist
  · intro h
    rw [h, String.ofList_toList]

theorem encodeRequestId_eq_ok {requestId : String} :
    encodeRequestId requestId = .ok bytes ↔
      bytes = Utf8.encode requestId.toList ∧ 0 < bytes.length ∧ bytes.length ≤ 0xff := by
  unfold encodeRequestId
  dsimp only
  by_cases hempty : (Utf8.encode requestId.toList).length = 0
  · rw [if_pos hempty]
    constructor
    · intro h
      cases h
    · rintro ⟨rfl, hpos, -⟩
      omega
  · rw [if_neg hempty]
    by_cases hlong : (Utf8.encode requestId.toList).length > 0xff
    · rw [if_pos hlong]
      constructor
      · intro h
        cases h
      · rintro ⟨rfl, -, hle⟩
        omega
    · rw [if_neg hlong, Except.ok.injEq]
      constructor
      · rintro rfl
        exact ⟨rfl, by omega, by omega⟩
      · rintro ⟨rfl, -⟩
        rfl

/-- A frame with a request id of a proper length is split after it. -/
theorem decodeFileTransferFrame_append (opcode : FileTransferOpcode) {requestId : List UInt8}
    (hpos : 0 < requestId.length) (hle : requestId.length ≤ 0xff) (body : List UInt8) :
    decodeFileTransferFrame
        (opcode.byte :: UInt8.ofNat requestId.length :: (requestId ++ body)) =
      decodeBody opcode (decodeRequestId requestId) body := by
  have hbyte : (UInt8.ofNat requestId.length).toNat = requestId.length :=
    Utf8.toNat_ofNat (by omega)
  have hproper : ¬ (UInt8.ofNat requestId.length = 0 ∨
      (UInt8.ofNat requestId.length).toNat > (requestId ++ body).length) := by
    rintro (hzero | hlong)
    · rw [hzero] at hbyte
      change 0 = requestId.length at hbyte
      omega
    · rw [hbyte, length_append] at hlong
      omega
  rw [decodeFileTransferFrame, FileTransferOpcode.ofByte_byte, bind_some, if_neg hproper,
    hbyte, take_left, drop_left]

/-! ## File-transfer frames -/

/-- The frame that an input stands for. -/
def FileTransferFrameInput.frame : FileTransferFrameInput → FileTransferFrame
  | fileBegin requestId object => .fileBegin requestId object.metadata []
  | fileChunk requestId payload => .fileChunk requestId payload
  | fileEnd requestId => .fileEnd requestId []

def FileTransferFrame.requestId : FileTransferFrame → String
  | fileBegin requestId _ _ => requestId
  | fileChunk requestId _ => requestId
  | fileEnd requestId _ => requestId

def FileTransferFrame.withRequestId (requestId : String) : FileTransferFrame → FileTransferFrame
  | fileBegin _ metadata payload => .fileBegin requestId metadata payload
  | fileChunk _ payload => .fileChunk requestId payload
  | fileEnd _ payload => .fileEnd requestId payload

theorem FileTransferFrame.withRequestId_eq_self_iff (frame : FileTransferFrame)
    (requestId : String) : frame.withRequestId requestId = frame ↔ requestId = frame.requestId := by
  cases frame with
  | fileBegin id metadata payload => simp [withRequestId, FileTransferFrame.requestId]
  | fileChunk id payload => simp [withRequestId, FileTransferFrame.requestId]
  | fileEnd id payload => simp [withRequestId, FileTransferFrame.requestId]

theorem exact_properties (object : MetadataObject) :
    ∀ property ∈ object.properties, property.2.Exact := by
  intro property hproperty
  have hmem := object.perm.mem_iff.mp hproperty
  simp only [properties, mem_append, mem_cons, List.mem_map,
    not_mem_nil, or_false] at hmem
  rcases hmem with ((rfl | rfl | rfl | rfl) | ⟨value, -, rfl⟩) | ⟨value, -, rfl⟩
  · trivial
  · exact object.metadata.size_lt
  · trivial
  · trivial
  · trivial
  · trivial

theorem head?_stringify (properties : List (Units × Plain)) :
    (stringify properties).head? = some '\x7b' := by
  cases properties with
  | nil => rfl
  | cons first more => rfl

theorem decodeJsonPayload_encode (object : MetadataObject) :
    decodeJsonPayload (encodeJsonPayload object.properties) =
      .obj (valuesOf object.properties) := by
  have hmark : Utf8.stripMark (stringify object.properties) =
      stringify object.properties := by
    apply Utf8.stripMark_eq_self_iff.mpr
    rw [head?_stringify]
    decide
  rw [decodeJsonPayload, encodeJsonPayload, decodeText, Utf8.decode_encode, hmark,
    parse_stringify (exact_properties object)]
  rfl

/-- Whatever is encoded is read back with the request id as the text decoder reads it. -/
theorem decode_encodeFileTransferFrame (h : encodeFileTransferFrame input = .ok bytes) :
    decodeBinaryFrame bytes = some (.fileTransfer (input.frame.withRequestId
      (decodeRequestId (Utf8.encode input.requestId.toList)))) := by
  obtain ⟨requestId, hrequestId, h⟩ := bind_eq_ok.mp h
  obtain ⟨hencode, hpos, hle⟩ := encodeRequestId_eq_ok.mp hrequestId
  rw [← hencode]
  cases input with
  | fileBegin id object =>
    dsimp only at h
    by_cases hlong : (encodeJsonPayload object.properties).length > 0xffff
    · rw [if_pos hlong] at h
      cases h
    · rw [if_neg hlong] at h
      have hlength : (UInt8.ofNat ((encodeJsonPayload object.properties).length / 0x100)).toNat *
          0x100 + (UInt8.ofNat ((encodeJsonPayload object.properties).length % 0x100)).toNat =
            (encodeJsonPayload object.properties).length := by
        rw [Utf8.toNat_ofNat (by omega), Utf8.toNat_ofNat (by omega)]
        omega
      rw [← Except.ok.inj h, decodeBinaryFrame_fileTransfer,
        decodeFileTransferFrame_append _ hpos hle]
      simp only [decodeBody, hlength, ne_eq, not_true_eq_false, if_false,
        decodeJsonPayload_encode, object.safeParse_properties, map_some]
      rfl
  | fileChunk id payload =>
    rw [← Except.ok.inj h, decodeBinaryFrame_fileTransfer,
      decodeFileTransferFrame_append _ hpos hle]
    rfl
  | fileEnd id =>
    have hnil := decodeFileTransferFrame_append .fileEnd hpos hle []
    rw [append_nil] at hnil
    rw [← Except.ok.inj h, decodeBinaryFrame_fileTransfer, hnil]
    rfl

/-- Chunk and end frames that were read, as they are written again. -/
def FileTransferFrame.bodyInput : FileTransferFrame → Option FileTransferFrameInput
  | fileBegin _ _ _ => none
  | fileChunk requestId payload => some (.fileChunk requestId payload)
  | fileEnd requestId _ => some (.fileEnd requestId)

/-- The bytes of the request id in a file-transfer frame. -/
def requestIdBytes : List UInt8 → List UInt8
  | _ :: requestIdLength :: rest => rest.take requestIdLength.toNat
  | _ => []

theorem decodeFileTransferFrame_eq_some {frame : FileTransferFrame}
    (h : decodeFileTransferFrame bytes = some frame) :
    ∃ opcode body, 0 < (requestIdBytes bytes).length ∧ (requestIdBytes bytes).length ≤ 0xff ∧
      bytes = opcode.byte :: UInt8.ofNat (requestIdBytes bytes).length ::
        (requestIdBytes bytes ++ body) ∧
      decodeBody opcode (decodeRequestId (requestIdBytes bytes)) body = some frame := by
  unfold decodeFileTransferFrame at h
  split at h
  · next opcodeByte requestIdLength rest =>
    obtain ⟨opcode, hopcode, h⟩ := bind_eq_some_iff.mp h
    by_cases hproper : requestIdLength = 0 ∨ requestIdLength.toNat > rest.length
    · rw [if_pos hproper] at h
      cases h
    · rw [if_neg hproper] at h
      obtain ⟨hne, hfits⟩ := not_or.mp hproper
      have hlength : (rest.take requestIdLength.toNat).length = requestIdLength.toNat :=
        length_take_of_le (by omega)
      have hbyte : requestIdLength.toNat < 256 := requestIdLength.toNat_lt
      have hpos : 0 < requestIdLength.toNat := by
        apply Nat.pos_of_ne_zero
        intro hzero
        exact hne (UInt8.toNat_inj.mp hzero)
      refine ⟨opcode, rest.drop requestIdLength.toNat, ?_, ?_, ?_, h⟩
      · rw [requestIdBytes, hlength]
        exact hpos
      · rw [requestIdBytes, hlength]
        omega
      · rw [requestIdBytes, hlength, UInt8.ofNat_toNat, take_append_drop,
          FileTransferOpcode.byte_of_ofByte hopcode]
  · cases h

/-- A frame is written with the bytes of its request id only where these are plain. -/
theorem encodeRequestId_append_iff {requestId : List UInt8} (hpos : 0 < requestId.length)
    (hle : requestId.length ≤ 0xff) (opcode : UInt8) (body : List UInt8) :
    (encodeRequestId (decodeRequestId requestId) >>= fun encoded =>
        .ok (opcode :: UInt8.ofNat encoded.length :: (encoded ++ body))) =
      (.ok (opcode :: UInt8.ofNat requestId.length :: (requestId ++ body)) :
        Except String (List UInt8)) ↔ PlainRequestId requestId := by
  rw [← encode_decodeText_iff, bind_eq_ok]
  constructor
  · rintro ⟨encoded, hencoded, h⟩
    obtain ⟨htext, -, -⟩ := encodeRequestId_eq_ok.mp hencoded
    rw [decodeRequestId, String.toList_ofList] at htext
    have hlist := (List.cons.inj (List.cons.inj (Except.ok.inj h)).2).2
    rw [← htext, append_cancel_right hlist]
  · intro hplain
    refine ⟨requestId, encodeRequestId_eq_ok.mpr ⟨?_, hpos, hle⟩, rfl⟩
    rw [decodeRequestId, String.toList_ofList, hplain]

theorem decodeBinaryFrame_eq_terminal {frame : TerminalStreamFrame}
    (h : decodeBinaryFrame bytes = some (.terminal frame)) :
    decodeTerminalStreamFrame bytes = some frame := by
  unfold decodeBinaryFrame at h
  split at h
  · cases h
  · split_ifs at h with hterminal hfile
    · obtain ⟨found, hfound, heq⟩ := map_eq_some_iff.mp h
      cases heq
      exact hfound
    · obtain ⟨found, -, heq⟩ := map_eq_some_iff.mp h
      cases heq

theorem decodeBinaryFrame_eq_fileTransfer {frame : FileTransferFrame}
    (h : decodeBinaryFrame bytes = some (.fileTransfer frame)) :
    decodeFileTransferFrame bytes = some frame := by
  unfold decodeBinaryFrame at h
  split at h
  · cases h
  · split_ifs at h with hterminal hfile
    · obtain ⟨found, -, heq⟩ := map_eq_some_iff.mp h
      cases heq
    · obtain ⟨found, hfound, heq⟩ := map_eq_some_iff.mp h
      cases heq
      exact hfound

/-- Chunk and end frames are written back as they came when their request id is plain. -/
theorem encode_bodyInput_iff {frame : FileTransferFrame}
    (h : decodeBinaryFrame bytes = some (.fileTransfer frame)) (hinput : frame.bodyInput = some input) :
    encodeFileTransferFrame input = .ok bytes ↔ PlainRequestId (requestIdBytes bytes) := by
  obtain ⟨opcode, body, hpos, hle, hbytes, hbody⟩ :=
    decodeFileTransferFrame_eq_some (decodeBinaryFrame_eq_fileTransfer h)
  have hiff := encodeRequestId_append_iff hpos hle opcode.byte body
  rw [← hbytes] at hiff
  rw [← hiff]
  cases opcode with
  | fileBegin =>
    -- a begin frame is not written again
    unfold decodeBody at hbody
    dsimp only at hbody
    split at hbody
    · split_ifs at hbody with hlength
      obtain ⟨metadata, -, rfl⟩ := map_eq_some_iff.mp hbody
      cases hinput
    · cases hbody
  | fileChunk =>
    have hframe : FileTransferFrame.fileChunk (decodeRequestId (requestIdBytes bytes)) body =
        frame := some.inj hbody
    rw [← hframe] at hinput
    rw [← some.inj hinput]
    rfl
  | fileEnd =>
    unfold decodeBody at hbody
    dsimp only at hbody
    split_ifs at hbody with hempty
    have hnil : body = [] := eq_nil_of_length_eq_zero (by simpa using hempty)
    rw [← some.inj hbody] at hinput
    rw [← some.inj hinput, hnil]
    simp only [append_nil]
    rfl

/-- A chunk whose request id starts with a byte order mark. -/
def markedChunk : FileTransferFrameInput := .fileChunk "\uFEFFa" [7]

/-- An end frame whose request id is a byte that is not UTF-8. -/
def malformedEnd : List UInt8 := [0x12, 1, 0xff]

/-- The mark is lost, and the malformed byte comes back as a replacement character. -/
theorem marked_and_malformed_change :
    encodeFileTransferFrame markedChunk = .ok [0x11, 4, 0xef, 0xbb, 0xbf, 0x61, 7] ∧
      decodeBinaryFrame [0x11, 4, 0xef, 0xbb, 0xbf, 0x61, 7] ≠
        some (.fileTransfer markedChunk.frame) ∧
      decodeBinaryFrame malformedEnd = some (.fileTransfer (.fileEnd "\uFFFD" [])) ∧
      encodeFileTransferFrame (.fileEnd "\uFFFD") ≠ .ok malformedEnd := by
  refine ⟨rfl, ?_, rfl, ?_⟩
  · have hread : decodeBinaryFrame [0x11, 4, 0xef, 0xbb, 0xbf, 0x61, 7] =
        some (.fileTransfer (.fileChunk "a" [7])) := rfl
    intro h
    rw [hread] at h
    injection h with h
    injection h with h
    injection h with hid
    exact absurd hid (by decide)
  · have hwritten : encodeFileTransferFrame (.fileEnd "\uFFFD") =
        .ok [0x12, 3, 0xef, 0xbf, 0xbd] := rfl
    rw [hwritten]
    decide

/-- Terminal frames are read back and written back exactly. A file-transfer frame is read back
exactly when its request id does not start with a byte order mark, and a chunk or an end frame is
written back exactly when the bytes of its request id are UTF-8 that does not. -/
theorem binaryFrames_roundTrip_iff (input : FileTransferFrameInput) (bytes : List UInt8) :
    (∀ frame : TerminalStreamFrame, frame.slot ≤ 255 →
      decodeBinaryFrame (encodeTerminalStreamFrame frame) = some (.terminal frame)) ∧
    (encodeFileTransferFrame input = .ok bytes →
      (decodeBinaryFrame bytes = some (.fileTransfer input.frame) ↔
        input.requestId.toList.head? ≠ some Utf8.byteOrderMark)) ∧
    (∀ frame, decodeBinaryFrame bytes = some (.terminal frame) →
      encodeTerminalStreamFrame frame = bytes) ∧
    ∀ frame, decodeBinaryFrame bytes = some (.fileTransfer frame) →
      frame.bodyInput = some input →
        (encodeFileTransferFrame input = .ok bytes ↔ PlainRequestId (requestIdBytes bytes)) := by
  refine ⟨?_, ?_, ?_, ?_⟩
  · intro frame hslot
    rw [encodeTerminalStreamFrame, decodeBinaryFrame_terminal, ← encodeTerminalStreamFrame,
      decodeTerminalStreamFrame_encode hslot]
    rfl
  · intro hencode
    rw [decode_encodeFileTransferFrame hencode, ← decodeRequestId_encode_iff]
    have hid : input.frame.requestId = input.requestId := by
      cases input with
      | fileBegin id object => rfl
      | fileChunk id payload => rfl
      | fileEnd id => rfl
    rw [Option.some.injEq, BinaryFrame.fileTransfer.injEq,
      FileTransferFrame.withRequestId_eq_self_iff, hid]
  · intro frame h
    exact encodeTerminalStreamFrame_decode (decodeBinaryFrame_eq_terminal h)
  · intro frame h hinput
    exact encode_bodyInput_iff h hinput

/-- An end frame of a plain request id is read back and written back. -/
theorem binaryFrames_roundTrip_iff_plain :
    decodeBinaryFrame [0x12, 2, 0x72, 0x31] =
        some (.fileTransfer (FileTransferFrameInput.fileEnd "r1").frame) ∧
      encodeFileTransferFrame (.fileEnd "r1") = .ok [0x12, 2, 0x72, 0x31] := by
  have hencode : encodeFileTransferFrame (.fileEnd "r1") = .ok [0x12, 2, 0x72, 0x31] := rfl
  have hiff := binaryFrames_roundTrip_iff (.fileEnd "r1") [0x12, 2, 0x72, 0x31]
  exact ⟨(hiff.2.1 hencode).mpr (by decide +kernel),
    (hiff.2.2.2 (.fileEnd "r1" []) rfl rfl).mpr (by decide +kernel)⟩

end Orqara.Frames
