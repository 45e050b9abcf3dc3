import Mathlib

/-!
# Uploads of files

Frames of an upload are applied one after the other, each waiting for the file operations of the one
before it. Uploads that are replaced, fail or expire have their directory removed. Steps are the pieces
of code between two awaits, and the landings of file operations.
-/

namespace Orqara.Uploads

/-! ## Names -/

def isIdChar (c : Char) : Bool := c.isAlphanum || "._-".toList.contains c

/-- One underscore for each code unit of a character that is replaced. -/
def underscores (c : Char) : List Char := if c.toNat < 0x10000 then ['_'] else ['_', '_']

def sanitizeUploadId (value : String) : String :=
  let sanitized := String.ofList
    (value.toList.flatMap fun c => if isIdChar c then [c] else underscores c)
  if sanitized = "" then "file" else sanitized

def buildUploadId (requestId : String) (attempt : ℕ) : String :=
  let baseId := "upload_" ++ sanitizeUploadId requestId
  if attempt = 1 then baseId else baseId ++ "_" ++ toString attempt

/-- The last component of a path. -/
def basename (value : String) : String :=
  String.ofList ((value.toList.reverse.dropWhile (· = '/')).takeWhile (· ≠ '/')).reverse

/-- The only white space that is left to trim are spaces. -/
def sanitizeFileName (value : String) : String :=
  let replaced := (basename value).toList.flatMap fun c =>
    if isIdChar c || c = ' ' then [c] else underscores c
  let name := String.ofList ((replaced.dropWhile (· = ' ')).reverse.dropWhile (· = ' ')).reverse
  if name = "" ∨ name = "." ∨ name = ".." then "upload" else name

/-! ## Uploads -/

inductive UploadFrame
  | fileBegin
  | fileChunk (payload : List UInt8)
  | fileEnd
  deriving DecidableEq

structure FileUploadRequest where
  requestId : String
  fileName : String
  mimeType : String
  size : ℕ

/-- The file under `uploads` in the directory of an upload. -/
structure UploadPath where
  id : String
  fileName : String
  deriving DecidableEq

structure UploadedFile where
  id : String
  fileName : String
  mimeType : String
  size : ℕ
  path : UploadPath
  deriving DecidableEq

structure FileUploadResponse where
  requestId : String
  file : Option UploadedFile
  error : Option String
  deriving DecidableEq

/-- What waits in the queue of an upload. -/
inductive Job
  | frame (frame : UploadFrame)
  | cleanup
  deriving DecidableEq

/-- A file operation that is awaited. -/
inductive Operation
  | mkdir
  | writeFile
  | appendFile (payload : List UInt8)
  /-- the removal of the directory, with the error that is answered after it -/
  | rm (error : Option String)
  deriving DecidableEq

inductive Landing
  | onItsWay
  | done
  | failed (message : String)
  deriving DecidableEq

structure PendingUpload where
  requestId : String
  id : String
  attempt : ℕ
  fileName : String
  mimeType : String
  size : ℕ
  receivedBytes : ℕ
  started : Bool
  queue : List Job
  running : Option (Operation × Landing)
  /-- the frames that were received, and those of them that are applied -/
  arrived : List UploadFrame
  applied : List UploadFrame
  /-- whether it was answered without an error -/
  succeeded : Bool

def PendingUpload.path (upload : PendingUpload) : UploadPath where
  id := upload.id
  fileName := upload.fileName

def buildUploadResponse (upload : PendingUpload) (error : Option String) : FileUploadResponse where
  requestId := upload.requestId
  file :=
    if error.any (· ≠ "") then none
    else some
      { id := upload.id
        fileName := upload.fileName
        mimeType := upload.mimeType
        size := upload.size
        path := upload.path }
  error := error

/-- The files of a directory, if there is one. -/
abbrev Directory := Option (String → Option (List UInt8))

/-- What a file operation that succeeds makes of the directory of an upload. A file is written in a
directory only. -/
def Operation.effect (operation : Operation) (fileName : String) (directory : Directory) :
    Option Directory :=
  match operation with
  | .mkdir => some (some (directory.getD fun _ => none))
  | .writeFile => directory.map fun files => some (Function.update files fileName (some []))
  | .appendFile payload => directory.map fun files =>
      some (Function.update files fileName (some ((files fileName).getD [] ++ payload)))
  | .rm _ => some none

/-! ## The store -/

structure FileUploadStore where
  uploads : List PendingUpload
  /-- the upload that is pending for a request -/
  pending : String → Option ℕ
  disk : String → Directory
  responses : List (ℕ × FileUploadResponse)

inductive Event
  | beginUpload (request : FileUploadRequest)
  | receiveFrame (requestId : String) (frame : UploadFrame)
  /-- the stale timeout of the upload that is pending for a request -/
  | expireStaleUpload (requestId : String)
  /-- the next job of an upload starts -/
  | start (i : ℕ)
  /-- its file operation lands -/
  | land (i : ℕ)
  /-- its file operation fails and leaves something in the directory -/
  | fail (i : ℕ) (message : String) (left : Directory)
  /-- its file operation is resumed from -/
  | resume (i : ℕ)

namespace FileUploadStore

def empty (disk : String → Directory) : FileUploadStore where
  uploads := []
  pending := fun _ => none
  disk := disk
  responses := []

def put (s : FileUploadStore) (i : ℕ) (upload : PendingUpload) : FileUploadStore :=
  { s with uploads := s.uploads.set i upload }

def clearPendingUpload (s : FileUploadStore) (i : ℕ) (upload : PendingUpload) : FileUploadStore :=
  if s.pending upload.requestId = some i then
    { s with pending := Function.update s.pending upload.requestId none }
  else s

/-- An upload that is not pending any more is removed behind what is in its queue. -/
def abandon (s : FileUploadStore) (requestId : String) : FileUploadStore :=
  match s.pending requestId with
  | none => s
  | some i =>
    match s.uploads[i]? with
    | none => s
    | some upload =>
      (s.clearPendingUpload i upload).put i { upload with queue := upload.queue ++ [.cleanup] }

/-- The attempt of a new upload for a request. -/
def nextAttempt (s : FileUploadStore) (requestId : String) : ℕ :=
  match (s.pending requestId).bind (s.uploads[·]?) with
  | some existingUpload => existingUpload.attempt + 1
  | none => 1

def newUpload (s : FileUploadStore) (request : FileUploadRequest) : PendingUpload where
  requestId := request.requestId
  id := buildUploadId request.requestId (s.nextAttempt request.requestId)
  attempt := s.nextAttempt request.requestId
  fileName := sanitizeFileName request.fileName
  mimeType := request.mimeType
  size := request.size
  receivedBytes := 0
  started := false
  queue := []
  running := none
  arrived := []
  applied := []
  succeeded := false

def beginUpload (s : FileUploadStore) (request : FileUploadRequest) : FileUploadStore :=
  let abandoned := s.abandon request.requestId
  { abandoned with
    uploads := abandoned.uploads ++ [s.newUpload request]
    pending := Function.update abandoned.pending request.requestId (some abandoned.uploads.length) }

def receiveFrame (s : FileUploadStore) (requestId : String) (frame : UploadFrame) :
    Option FileUploadStore :=
  match s.pending requestId with
  | none => some s
  | some i => s.uploads[i]?.map fun upload =>
      s.put i { upload with
        queue := upload.queue ++ [.frame frame], arrived := upload.arrived ++ [frame] }

def removeFailedUpload (s : FileUploadStore) (i : ℕ) (upload : PendingUpload) (message : String) :
    FileUploadStore :=
  (s.clearPendingUpload i upload).put i { upload with running := some (.rm (some message), .onItsWay) }

def completeUpload (s : FileUploadStore) (i : ℕ) (upload : PendingUpload) : FileUploadStore :=
  if upload.receivedBytes ≠ upload.size then
    s.removeFailedUpload i upload
      ("Upload size mismatch: expected " ++ toString upload.size ++ ", received " ++
        toString upload.receivedBytes ++ ".")
  else
    { (s.clearPendingUpload i upload).put i { upload with succeeded := true } with
      responses := s.responses ++ [(i, buildUploadResponse upload none)] }

/-- A frame of the upload that is pending. -/
def applyFrame (s : FileUploadStore) (i : ℕ) (upload : PendingUpload) :
    UploadFrame → FileUploadStore
  | .fileBegin => s.put i { upload with running := some (.mkdir, .onItsWay) }
  | .fileChunk payload =>
    if upload.started = false then
      s.removeFailedUpload i upload "Upload chunks arrived before file begin."
    else if upload.size < upload.receivedBytes + payload.length then
      s.removeFailedUpload i upload
        ("Upload exceeded declared size: expected " ++ toString upload.size ++ ", received " ++
          toString (upload.receivedBytes + payload.length) ++ ".")
    else s.put i { upload with running := some (.appendFile payload, .onItsWay) }
  | .fileEnd => s.completeUpload i upload

def start (s : FileUploadStore) (i : ℕ) : Option FileUploadStore :=
  s.uploads[i]?.bind fun upload =>
    match upload.running, upload.queue with
    | none, .cleanup :: queue =>
      some (s.put i { upload with queue, running := some (.rm none, .onItsWay) })
    | none, .frame frame :: queue =>
      if s.pending upload.requestId = some i then some (s.applyFrame i { upload with queue } frame)
      else some (s.put i { upload with queue })
    | _, _ => none

def land (s : FileUploadStore) (i : ℕ) : Option FileUploadStore :=
  s.uploads[i]?.bind fun upload =>
    match upload.running with
    | some (operation, .onItsWay) =>
      (operation.effect upload.fileName (s.disk upload.id)).map fun directory =>
        { s.put i { upload with running := some (operation, .done) } with
          disk := Function.update s.disk upload.id directory }
    | _ => none

def fail (s : FileUploadStore) (i : ℕ) (message : String) (left : Directory) :
    Option FileUploadStore :=
  s.uploads[i]?.bind fun upload =>
    match upload.running with
    | some (operation, .onItsWay) =>
      some { s.put i { upload with running := some (operation, .failed message) } with
        disk := Function.update s.disk upload.id left }
    | _ => none

/-- A removal that fails is resumed from like one that does not. -/
def resumeUpload (s : FileUploadStore) (i : ℕ) (upload : PendingUpload) :
    Operation × Landing → Option FileUploadStore
  | (_, .onItsWay) => none
  | (.rm error, _) =>
    some { s.put i { upload with running := none } with
      responses := s.responses ++
        (error.map fun message => (i, buildUploadResponse upload (some message))).toList }
  | (_, .failed message) => some (s.removeFailedUpload i upload message)
  | (.mkdir, .done) => some (s.put i { upload with running := some (.writeFile, .onItsWay) })
  | (.writeFile, .done) =>
    some (s.put i { upload with
      running := none, started := true, applied := upload.applied ++ [.fileBegin] })
  | (.appendFile payload, .done) =>
    some (s.put i { upload with
      running := none, receivedBytes := upload.receivedBytes + payload.length
      applied := upload.applied ++ [.fileChunk payload] })

def resume (s : FileUploadStore) (i : ℕ) : Option FileUploadStore :=
  s.uploads[i]?.bind fun upload => upload.running.bind fun running => s.resumeUpload i upload running

def step (s : FileUploadStore) : Event → Option FileUploadStore
  | .beginUpload request => some (s.beginUpload request)
  | .receiveFrame requestId frame => s.receiveFrame requestId frame
  | .expireStaleUpload requestId => some (s.abandon requestId)
  | .start i => s.start i
  | .land i => s.land i
  | .fail i message left => s.fail i message left
  | .resume i => s.resume i

def run (s : FileUploadStore) : List Event → Option FileUploadStore
  | [] => some s
  | event :: events => (s.step event).bind fun s' => s'.run events

/-- The content of a file. -/
def fileAt (s : FileUploadStore) (path : UploadPath) : Option (List UInt8) :=
  (s.disk path.id).bind fun files => files path.fileName

end FileUploadStore

end Orqara.Uploads
