import FileDrive.Storage.Server

/-!
# Objects in a bucket

A store that keeps its objects in a bucket of a server, each under the key that its path names. What
is longer than one part is sent in parts of one size, so that a stream is never held as a whole. A
move copies the object and then deletes it, so that its bytes are under one of the two keys at any
time.
-/

namespace FileDrive.Bucket

open FileDrive.Text

/-- The size of each part of an upload but the last. -/
def partSize : Nat := 8 * 1024 * 1024

/-- What is done with a server, failing for the reasons of a store. -/
abbrev ServerM := ExceptT StorageError (StateM Server)

/-- Makes a call, and fails for a reason that its refusal gives. -/
def call (c : Call) (reason : Refusal → StorageError) : ServerM Reply := do
  let (reply, server) := (← get).send c
  set server
  match reply with
  | .ok reply => return reply
  | .error refusal => throw (reason refusal)

/-- The reason of a call that nothing more is known of than what it was to do. -/
def backend (what : String) (refusal : Refusal) : StorageError :=
  .backend ("S3 " ++ what ++ " failed: " ++ refusal.describe)

/-- The same, except that a status for what is missing means that an object is. -/
def missingOr (path what : String) (refusal : Refusal) : StorageError :=
  if refusal = .status 404 then .notFound path else backend what refusal

/-- The key of the object at a path: the path without the slashes that it starts with. -/
def objectKey (path : String) : String := String.ofList (path.toList.dropWhile (· = '/'))

/-- Makes sure that the bucket is there. -/
def ensureBucket (bucket : String) : ServerM Unit := do
  let (created, server) := (← get).send (.createBucket bucket)
  set server
  if let .error refusal := created then
    discard <| call (.headBucket bucket) fun _ =>
      .backend ("failed to create or access bucket " ++ bucket ++ ": " ++ refusal.describe)

/-- The pieces of some bytes of a given size each, the last one possibly shorter and none empty. -/
def chunks (size : Nat) (data : ByteArray) : List ByteArray :=
  (List.range ((data.size + size - 1) / size)).map fun i =>
    data.extract (i * size) ((i + 1) * size)

/-- The parts in which a stream is sent. A part is sent when it is whole or the stream has ended, so
a part in which the stream fails is none. -/
def parts (stream : ByteStream) : List ByteArray :=
  let whole := stream.data.size / partSize * partSize
  chunks partSize (if stream.failure.isSome then stream.data.extract 0 whole else stream.data)

/-- Opens an object, or a range of it. -/
def getObject (path : String) (range : Option ByteRange) : ServerM ByteStream := do
  let key := objectKey path
  let reply ← call (.getObject key (range.map ByteRange.headerValue)) fun refusal =>
    if refusal = .status 416 then .rangeNotSatisfiable path
    else missingOr path ("GET " ++ key) refusal
  match reply with
  | .object data => return ⟨data, none⟩
  | _ => return ByteStream.empty

/-- Takes out an object. -/
def deleteObject (path : String) : ServerM Unit := do
  let key := objectKey path
  discard <| call (.deleteObject key) (missingOr path ("DELETE " ++ key))

/-- Sends the parts of an upload, numbered from a given number on, and then meets the end of the
stream that they come from. Lists the parts with the tags that they were given. -/
def uploadParts (key : String) (upload : Nat) (failure : Option IoError) :
    (number : Nat) → List ByteArray → ServerM (List ListedPart)
  | _, [] =>
    match failure with
    | none => pure []
    | some cause => throw (.io cause)
  | number, part :: rest => do
    let reply ← call (.uploadPart key upload number part)
      (backend ("upload part " ++ toString number ++ " of " ++ key))
    let listed ← uploadParts key upload failure (number + 1) rest
    return ⟨number, reply.tag?⟩ :: listed

/-- Sends a stream in parts, and completes the upload with all that were sent. When that fails before
the upload could be completed, it is aborted. -/
def putInParts (key contentType : String) (stream : ByteStream) : ServerM Unit := do
  match ← call (.beginUpload key contentType) (backend ("multipart start " ++ key)) with
  | .upload id =>
    let listed ← try uploadParts key id stream.failure 1 (parts stream)
      catch e =>
        try discard <| call (.abortUpload key id) (backend "abort")
        catch _ => pure ()
        throw e
    discard <| call (.completeUpload key id listed) (backend ("multipart complete " ++ key))
  | _ => throw (.backend ("S3 returned no upload id for " ++ key))

/-- Stores a stream. One shorter than a part is checked against its declared length and sent at
once. A longer one is sent in parts and checked when it is there; it is taken out again when it has
another length. -/
def putObject (path : String) (size : Nat) (stream : ByteStream) (contentType : String) :
    ServerM Unit := do
  let key := objectKey path
  let length := stream.data.size
  let mismatch : StorageError := .sizeMismatch path size length
  if length < partSize then
    if let some cause := stream.failure then throw (.io cause)
    if length ≠ size then throw mismatch
    discard <| call (.putObject key contentType stream.data) (backend ("PUT " ++ key))
  else
    putInParts key contentType stream
    if length ≠ size then
      try deleteObject path
      catch _ => pure ()
      throw mismatch

/-- Moves an object: copies it, then takes out the one that was copied. -/
def moveObject (source target : String) : ServerM Unit := do
  let copied := (← get).bucket ++ "/" ++ percentEncode (objectKey source)
  discard <| call (.copyObject (objectKey target) copied)
    (missingOr source ("COPY " ++ source ++ " -> " ++ target))
  deleteObject source

/-- What a call does to a server. -/
def runOn {α : Type} (action : ServerM α) (server : Server) : Except StorageError α × Server :=
  action.run.run server

/-- The store that keeps its objects in a bucket. -/
def store : ObjectStore Server where
  get path range := runOn (getObject path range)
  put path size stream contentType := runOn (putObject path size stream contentType)
  move source target := runOn (moveObject source target)
  delete path := runOn (deleteObject path)

end FileDrive.Bucket
