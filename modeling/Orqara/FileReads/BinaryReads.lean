import Mathlib

/-!
# Files read from the daemon

A client that reads a file gets it as a row of binary frames: the beginning with the declared size,
chunks, and the end. The chunks are kept as they come, and copied into a buffer of the declared size
at the end.
-/

namespace Orqara.FileReads

inductive FileEncoding
  | utf8
  | binary
  deriving DecidableEq

structure FileBeginMetadata where
  mime : String
  size : ℕ
  encoding : FileEncoding
  modifiedAt : String
  revision : Option String
  deriving DecidableEq

inductive FileTransferFrame
  | fileBegin (requestId : String) (metadata : FileBeginMetadata)
  | fileChunk (requestId : String) (payload : List UInt8)
  | fileEnd (requestId : String)

def FileTransferFrame.requestId : FileTransferFrame → String
  | .fileBegin requestId _ | .fileChunk requestId _ | .fileEnd requestId => requestId

inductive FileKind
  | text
  | image
  | binary
  deriving DecidableEq

structure FileReadResult where
  bytes : List UInt8
  mime : String
  size : ℕ
  path : String
  kind : FileKind
  modifiedAt : String
  revision : Option String
  deriving DecidableEq

structure PendingBinaryFileRead where
  cwd : String
  path : String
  maxBytes : Option ℕ
  deriving DecidableEq

structure BinaryFileTransferState extends PendingBinaryFileRead where
  mime : String
  size : ℕ
  encoding : FileEncoding
  modifiedAt : String
  revision : Option String
  chunks : List (List UInt8)
  deriving DecidableEq

/-! ## Copying -/

/-- `bytes.set(chunk, offset)`, which throws where the chunk goes over the end. -/
def setBytes (bytes chunk : List UInt8) (offset : ℕ) : Option (List UInt8) :=
  if offset + chunk.length ≤ bytes.length then
    some (bytes.take offset ++ chunk ++ bytes.drop (offset + chunk.length))
  else none

def copyChunks : List (List UInt8) → ℕ → List UInt8 → Option (List UInt8)
  | [], _, bytes => some bytes
  | chunk :: chunks, offset, bytes =>
    (setBytes bytes chunk offset).bind (copyChunks chunks (offset + chunk.length))

/-- A buffer cannot have more than `maxLength` bytes. -/
def concatByteChunks (maxLength : ℕ) (chunks : List (List UInt8)) (size : ℕ) : Option (List UInt8) :=
  if size ≤ maxLength then copyChunks chunks 0 (List.replicate size 0) else none

def startsWith (pre text : String) : Bool := pre.toList.isPrefixOf text.toList

def binaryFileKind (mime : String) (encoding : FileEncoding) : FileKind :=
  if startsWith "image/" mime then .image
  else if encoding = .utf8 || startsWith "text/" mime || mime = "application/json" then .text
  else .binary

/-! ## The client -/

/-- How a read comes out; `legacy` is a file in the answer itself. -/
inductive ReadOutcome
  | binary (result : FileReadResult)
  | legacy (result : FileReadResult)
  | failed (error : String)
  deriving DecidableEq

/-- A read that waits for the answer to its request. -/
structure FileRead where
  id : ℕ
  requestId : String
  deriving DecidableEq

structure Client where
  pendingBinaryFileReads : String → Option PendingBinaryFileRead
  activeBinaryFileTransfers : String → Option BinaryFileTransferState
  completedBinaryFileReads : String → Option FileReadResult
  reads : List FileRead
  nextRead : ℕ
  outcomes : List (FileRead × ReadOutcome)

namespace Client

variable (s : Client)

def idle : Client where
  pendingBinaryFileReads _ := none
  activeBinaryFileTransfers _ := none
  completedBinaryFileReads _ := none
  reads := []
  nextRead := 0
  outcomes := []

def readFile (requestId cwd path : String) (maxBytes : Option ℕ) : Client :=
  { s with
    pendingBinaryFileReads := Function.update s.pendingBinaryFileReads requestId
      (some { cwd, path, maxBytes })
    reads := s.reads ++ [⟨s.nextRead, requestId⟩]
    nextRead := s.nextRead + 1 }

/-- What a read does in any case before it is over. -/
def finish (read : FileRead) (outcome : ReadOutcome) : Client :=
  { s with
    pendingBinaryFileReads := Function.update s.pendingBinaryFileReads read.requestId none
    activeBinaryFileTransfers := Function.update s.activeBinaryFileTransfers read.requestId none
    reads := s.reads.erase read
    outcomes := s.outcomes ++ [(read, outcome)] }

/-- What follows the answer to the request of a read. -/
def resume (error : Option String) (file : Option FileReadResult) (read : FileRead) : Client :=
  match error.filter (· ≠ "") with
  | some error => s.finish read (.failed error)
  | none =>
    match s.completedBinaryFileReads read.requestId with
    | some result =>
      { s with
        completedBinaryFileReads := Function.update s.completedBinaryFileReads read.requestId none }.finish
          read (.binary result)
    | none =>
      match file with
      | some file => s.finish read (.legacy file)
      | none => s.finish read (.failed "File unavailable.")

/-- The answer goes to all reads that wait for it, one after the other. -/
def handleFileExplorerResponse (requestId : String) (error : Option String)
    (file : Option FileReadResult) : Client :=
  (s.reads.filter fun read => read.requestId = requestId).foldl (·.resume error file) s

def overBudget (transfer : BinaryFileTransferState) : Bool :=
  transfer.maxBytes.any fun maxBytes => maxBytes ≠ 0 ∧ transfer.size > maxBytes

def beginTransfer (requestId : String) (metadata : FileBeginMetadata) : Client :=
  match s.pendingBinaryFileReads requestId with
  | none => s
  | some pending =>
    { s with
      activeBinaryFileTransfers := Function.update s.activeBinaryFileTransfers requestId
        (some
          { pending with
            mime := metadata.mime
            size := metadata.size
            encoding := metadata.encoding
            modifiedAt := metadata.modifiedAt
            revision := metadata.revision
            chunks := [] }) }

def pushChunk (requestId : String) (payload : List UInt8) : Client :=
  match s.activeBinaryFileTransfers requestId with
  | none => s
  | some transfer =>
    if overBudget transfer then s
    else
      { s with
        activeBinaryFileTransfers := Function.update s.activeBinaryFileTransfers requestId
          (some { transfer with chunks := transfer.chunks ++ [payload] }) }

def dropTransfer (requestId : String) : Client :=
  { s with
    activeBinaryFileTransfers := Function.update s.activeBinaryFileTransfers requestId none }

def transferResult (transfer : BinaryFileTransferState) (bytes : List UInt8) : FileReadResult where
  bytes
  mime := transfer.mime
  size := transfer.size
  path := transfer.path
  kind := binaryFileKind transfer.mime transfer.encoding
  modifiedAt := transfer.modifiedAt
  revision := transfer.revision

def completeTransfer (requestId : String) (result : FileReadResult) : Client :=
  { s.dropTransfer requestId with
    completedBinaryFileReads :=
      Function.update s.completedBinaryFileReads requestId (some result) }

/-- Nothing where the copying throws. -/
def endTransfer (maxLength : ℕ) (requestId : String) : Option Client :=
  match s.activeBinaryFileTransfers requestId with
  | none => some s
  | some transfer =>
    if overBudget transfer then
      some ((s.dropTransfer requestId).handleFileExplorerResponse requestId
        (some "File is too large to display") none)
    else
      (concatByteChunks maxLength transfer.chunks transfer.size).map fun bytes =>
        (s.completeTransfer requestId (transferResult transfer bytes)).handleFileExplorerResponse
          requestId none none

/-- Nothing where the handler throws. -/
def handleFileTransferFrame (maxLength : ℕ) : FileTransferFrame → Option Client
  | .fileBegin requestId metadata => some (s.beginTransfer requestId metadata)
  | .fileChunk requestId payload => some (s.pushChunk requestId payload)
  | .fileEnd requestId => s.endTransfer maxLength requestId

end Client

/-- What happens to a client: a read begins, frames and other answers come in, a read times out or
loses its connection. -/
inductive ClientEvent
  | readFile (requestId cwd path : String) (maxBytes : Option ℕ)
  | frame (frame : FileTransferFrame)
  | response (requestId : String) (error : Option String) (file : Option FileReadResult)
  | rejects (read : FileRead) (error : String)

namespace Client

/-- A handler that throws leaves the client as it was. -/
def step (maxLength : ℕ) (s : Client) : ClientEvent → Client
  | .readFile requestId cwd path maxBytes => s.readFile requestId cwd path maxBytes
  | .frame frame => (s.handleFileTransferFrame maxLength frame).getD s
  | .response requestId error file => s.handleFileExplorerResponse requestId error file
  | .rejects read error => if read ∈ s.reads then s.finish read (.failed error) else s

def run (maxLength : ℕ) (events : List ClientEvent) : Client := events.foldl (step maxLength) idle

end Client

end Orqara.FileReads
