import FileDrive.Storage.Store
import FileDrive.Text.Percent
import FileDrive.Text.Pieces

/-!
# A server of object buckets

The calls that a store of objects makes to a server of buckets, and what the server does on each.
A large object comes in parts: an upload is begun, given numbered parts, and completed or aborted.
The server gives each part a tag, and the call that completes the upload lists the parts that make
up the object by their numbers and tags; only then is there an object.
-/

namespace FileDrive.Bucket

open FileDrive.Text

/-- A part of an upload, by its number and the tag that it was given. -/
structure ListedPart where
  number : Nat
  tag : Option String
  deriving DecidableEq

/-- A call to a server. -/
inductive Call where
  | createBucket (bucket : String)
  | headBucket (bucket : String)
  /-- Asks for an object, or for the part of it that a header names. -/
  | getObject (key : String) (range : Option String)
  | putObject (key contentType : String) (data : ByteArray)
  /-- Copies to a key from the bucket and key that a text with escapes names. -/
  | copyObject (key source : String)
  | deleteObject (key : String)
  | beginUpload (key contentType : String)
  | uploadPart (key : String) (upload number : Nat) (data : ByteArray)
  | completeUpload (key : String) (upload : Nat) (parts : List ListedPart)
  | abortUpload (key : String) (upload : Nat)

namespace Call

/-- The name of a call. -/
def name : Call → String
  | createBucket _ => "CreateBucket"
  | headBucket _ => "HeadBucket"
  | getObject _ _ => "GetObject"
  | putObject _ _ _ => "PutObject"
  | copyObject _ _ => "CopyObject"
  | deleteObject _ => "DeleteObject"
  | beginUpload _ _ => "CreateMultipartUpload"
  | uploadPart _ _ _ _ => "UploadPart"
  | completeUpload _ _ _ => "CompleteMultipartUpload"
  | abortUpload _ _ => "AbortMultipartUpload"

/-- The key that a call is about, if it is about one. -/
def key? : Call → Option String
  | createBucket _ | headBucket _ => none
  | getObject key _ | putObject key _ _ | copyObject key _ | deleteObject key | beginUpload key _
  | uploadPart key _ _ _ | completeUpload key _ _ | abortUpload key _ => some key

end Call

/-- Why a call failed. -/
inductive Refusal where
  /-- There is no server to call. -/
  | unreachable
  /-- The call cannot be made: its key is empty. -/
  | unbuilt
  /-- The server answered with a status that means failure. -/
  | status (code : Nat)
  deriving DecidableEq, Repr

/-- How a failed call is shown in messages. -/
def Refusal.describe : Refusal → String
  | unreachable => "dispatch failure"
  | unbuilt => "failed to construct request"
  | status _ => "service error"

/-- What a server answers to a call that succeeds. -/
inductive Reply where
  | done
  | object (data : ByteArray)
  | upload (id : Nat)
  | part (tag : Option String)

/-- The tag in an answer. -/
def Reply.tag? : Reply → Option String
  | part tag => tag
  | _ => none

/-- An object as a server keeps it. -/
structure StoredObject where
  contentType : String
  data : ByteArray

/-- An upload in parts that has begun and not ended. -/
structure Upload where
  id : Nat
  key : String
  contentType : String
  parts : List (Nat × ByteArray)

/-- A server, as far as it is used through one bucket. -/
structure Server where
  reachable : Bool
  /-- The name of the bucket. -/
  bucket : String
  /-- The names of all buckets there are. -/
  buckets : List String
  /-- The objects in the bucket, by key. -/
  objects : List (String × StoredObject)
  uploads : List Upload
  /-- The number of uploads that have begun. -/
  begun : Nat
  /-- The status that a call is answered with instead of being carried out, by the number of calls
  before it. -/
  faults : Nat → Call → Option Nat
  /-- The tag that a part is given, by its upload, its number and its bytes. -/
  tagOf : Nat → Nat → ByteArray → Option String
  /-- The calls that reached the server, first to last. -/
  log : List Call

namespace Server

/-- The server with an object under a key. -/
def withObject (server : Server) (key : String) (object : StoredObject) : Server :=
  { server with objects := server.objects.filter (·.1 ≠ key) ++ [(key, object)] }

/-- The server without an object under a key. -/
def withoutObject (server : Server) (key : String) : Server :=
  { server with objects := server.objects.filter (·.1 ≠ key) }

/-- The server without an upload. -/
def withoutUpload (server : Server) (id : Nat) : Server :=
  { server with uploads := server.uploads.filter (·.id ≠ id) }

/-- The key of the object in the bucket that a text with escapes names. -/
def sourceKey? (server : Server) (source : String) : Option String := do
  let source ← percentDecoded? source
  String.ofList <$> after? (server.bucket ++ "/").toList source.toList

/-- The bytes that a header asks for: all of them when there is none or it asks for no range. There
are none when the range is outside of them. -/
def ranged? (data : ByteArray) (header : Option String) : Option ByteArray :=
  match header.bind fun text => RangeRequest.ofChars? text.toList with
  | none => some data
  | some request => (request.resolve? data.size).map (·.slice data)

/-- The bytes that came last under the number of a listed part, if they were given its tag. -/
def listed? (server : Server) (upload : Upload) (part : ListedPart) : Option ByteArray :=
  (upload.parts.reverse.lookup part.number).filter fun data =>
    server.tagOf upload.id part.number data = part.tag

/-- The bytes of the parts of an upload that are listed. Their numbers have to go up. -/
def assembled? (server : Server) (upload : Upload) (parts : List ListedPart) : Option ByteArray :=
  if parts ≠ [] ∧ parts.Pairwise (·.number < ·.number) then
    (parts.mapM (server.listed? upload)).map (·.foldl (· ++ ·) ByteArray.empty)
  else none

/-- Carries out a call. -/
def perform (server : Server) (call : Call) : Except Nat Reply × Server :=
  match call with
  | .createBucket name =>
    if server.buckets.contains name then (.error 409, server)
    else (.ok .done, { server with buckets := server.buckets ++ [name] })
  | .headBucket name =>
    (if server.buckets.contains name then .ok .done else .error 404, server)
  | call =>
    if !server.buckets.contains server.bucket then (.error 404, server)
    else match call with
      | .getObject key range =>
        match server.objects.lookup key with
        | none => (.error 404, server)
        | some object =>
          match ranged? object.data range with
          | some data => (.ok (.object data), server)
          | none => (.error 416, server)
      | .putObject key contentType data => (.ok .done, server.withObject key ⟨contentType, data⟩)
      | .copyObject key source =>
        match (server.sourceKey? source).bind fun name => server.objects.lookup name with
        | some object => (.ok .done, server.withObject key object)
        | none => (.error 404, server)
      | .deleteObject key => (.ok .done, server.withoutObject key)
      | .beginUpload key contentType =>
        (.ok (.upload server.begun),
          { server with
            begun := server.begun + 1
            uploads := server.uploads ++ [⟨server.begun, key, contentType, []⟩] })
      | .uploadPart _ id number data =>
        if server.uploads.any (·.id = id) then
          (.ok (.part (server.tagOf id number data)),
            { server with
              uploads := server.uploads.map fun upload =>
                if upload.id = id then { upload with parts := upload.parts ++ [(number, data)] }
                else upload })
        else (.error 404, server)
      | .completeUpload key id parts =>
        match server.uploads.find? (·.id = id) with
        | some upload =>
          match server.assembled? upload parts with
          | some data =>
            (.ok .done, (server.withoutUpload id).withObject key ⟨upload.contentType, data⟩)
          | none => (.error 400, server)
        | none => (.error 404, server)
      | .abortUpload _ id =>
        if server.uploads.any (·.id = id) then (.ok .done, server.withoutUpload id)
        else (.error 404, server)
      | .createBucket _ | .headBucket _ => (.ok .done, server)

/-- Makes a call to the server. -/
def send (server : Server) (call : Call) : Except Refusal Reply × Server :=
  if call.key? = some "" then (.error .unbuilt, server)
  else if !server.reachable then (.error .unreachable, server)
  else
    let logged := { server with log := server.log ++ [call] }
    match server.faults server.log.length call with
    | some status => (.error (.status status), logged)
    | none =>
      let (reply, server) := logged.perform call
      (reply.mapError .status, server)

end Server

end FileDrive.Bucket
