import FileDrive.MediaType
import FileDrive.Service.Basic

/-!
# Creating and changing files

The metadata is prepared, the object stored, and only then is the metadata committed, so that a store
that fails leaves the metadata as it was.
-/

namespace FileDrive

/-- A file to be created. -/
structure CreateRequest where
  path : String
  description : String
  /-- Whether a file that is there is to be replaced. -/
  overwrite : Bool
  upload : Upload

/-- Changes to a file. What is not given stays as it is. -/
structure UpdateRequest where
  newPath : Option String
  description : Option String
  content : Option Upload

namespace Service

variable {σ : Type}

/-- Creates a file, or replaces one when that is asked for. Creating needs the capability to create,
replacing a file that is there the one to update. -/
def create (service : Service σ) (identity : Identity) (request : CreateRequest) :
    DriveM σ File := do
  let path ← filePath request.path
  service.checkSize request.upload.size
  DriveM.query (checkPlacement path)
  let found ← DriveM.query (·.file? path)
  let needed := if found.isSome ∧ request.overwrite then .update else .create
  service.authorize identity needed path
  let contentType := MediaType.ofUpload service.mediaType? path request.upload.contentType
  let new : NewFile :=
    { path
      size := Text.signed64 request.upload.size
      contentType
      description := request.description
      ownerId := identity.subject }
  let now ← DriveM.now
  let (file, prepared) ← DriveM.query fun db =>
    if request.overwrite then db.putFile now new else db.createFile now new
  DriveM.object (service.store.put path request.upload.size request.upload.stream contentType)
  DriveM.commit prepared
  return file

/-- Stores new content for a file, at a new path when that differs. The old object is then taken
out; when that fails, so is the new one. -/
def replaceContent (service : Service σ) (path newPath : String) (upload : Upload)
    (contentType : String) : DriveM σ Unit := do
  DriveM.object (service.store.put newPath upload.size upload.stream contentType)
  if path ≠ newPath then
    if let .error e ← DriveM.attempt (DriveM.object (service.store.delete path)) then
      discard <| DriveM.attempt (DriveM.object (service.store.delete newPath))
      throw e

/-- The size and the media type of the new content of a file. Without new content the size is zero
and the media type the one that the file has. -/
def newContent (service : Service σ) (existing : File) (newPath : String) :
    Option Upload → Except DriveError (Int × String)
  | none => .ok (0, existing.contentType)
  | some upload => do
    if upload.size = 0 then throw (.validation "replacement content must not be empty")
    service.checkSize upload.size
    return (Text.signed64 upload.size,
      MediaType.ofUpload service.mediaType? newPath upload.contentType)

/-- Changes the description of a file, its content, its path, or any of them. It needs the
capability to update the file, and the one to create at a new path. -/
def update (service : Service σ) (identity : Identity) (path : String) (request : UpdateRequest) :
    DriveM σ File := do
  let path ← filePath path
  let existing ← DriveM.query (·.file path)
  service.authorize identity .update path
  let newPath ← match request.newPath with
    | some newPath => filePath newPath
    | none => pure path
  if newPath ≠ path then
    DriveM.query (checkPlacement newPath)
    service.authorize identity .create newPath
  let description := request.description.getD existing.description
  let (size, contentType) ← service.newContent existing newPath request.content
  let now ← DriveM.now
  let prepared ← DriveM.query (·.updateFile now path newPath size contentType description)
  match request.content with
  | some upload => service.replaceContent path newPath upload contentType
  | none => if newPath ≠ path then DriveM.object (service.store.move path newPath)
  DriveM.commit prepared
  DriveM.query (·.file newPath)

end Service

end FileDrive
