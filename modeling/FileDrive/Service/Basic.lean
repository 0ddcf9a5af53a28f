import FileDrive.Access
import FileDrive.Drive

/-!
# The file service

Requests on the files of a drive, made by somebody. Each request checks what the caller may do, then
changes metadata and objects together. This module holds what the requests share.
-/

namespace FileDrive

/-- What requests are carried out with. -/
structure Service (σ : Type) where
  store : ObjectStore σ
  resolver : Resolver
  /-- The largest size of a file in bytes; zero for no limit. -/
  maxFileSize : Nat
  /-- A supply of names for shares. -/
  shareIds : Nat → String
  /-- The media type that goes with the name of the file at a path, if one is known. -/
  mediaType? : String → Option String

/-- Bytes to store. -/
structure Upload where
  /-- The length that the stream is declared to have. -/
  size : Nat
  /-- The media type; the one that goes with the path when it is empty. -/
  contentType : String
  stream : ByteStream

namespace Service

variable {σ : Type}

/-- Fails unless a set has a capability that is needed on a path. -/
def require (held : Permissions) (needed : Capability) (path : String) : Except DriveError Unit :=
  if held.has needed then .ok () else .error (.unauthorized path needed)

/-- The canonical spelling of a path that is to name a file, which the root does not. -/
def filePath (path : String) : Except DriveError String :=
  if Path.normalize path = Path.root then .error (.validation "the root cannot be a file")
  else .ok (Path.normalize path)

/-- Fails when there is a file at one of some paths. -/
def requireNoFile (db : Database) : List String → Except DriveError Unit
  | [] => .ok ()
  | path :: rest => do
    if (← db.ownerOf path).isSome then throw (.validation (path ++ " is a file"))
    requireNoFile db rest

/-- Fails when a file at a path would lie below another file or take the place of a directory. -/
def checkPlacement (path : String) (db : Database) : Except DriveError Unit := do
  requireNoFile db (Path.ancestors path).tail.dropLast
  if (← db.filesAt path).any (·.path ≠ path) then
    throw (.validation (path ++ " is a directory"))

/-- Fails when a size is beyond the limit. -/
def checkSize (service : Service σ) (size : Nat) : Except DriveError Unit :=
  if 0 < service.maxFileSize ∧ service.maxFileSize < size then
    .error (.validation ("file is too large (" ++ toString size ++ " bytes, at most " ++
      toString service.maxFileSize ++ " allowed)"))
  else .ok ()

/-- The effective permissions of the caller on a path in canonical spelling. -/
def held (service : Service σ) (identity : Identity) (path : String) : DriveM σ Permissions :=
  DriveM.query (service.resolver.onPath · path identity)

/-- The effective permissions of the caller on a path. -/
def effectivePermissions (service : Service σ) (identity : Identity) (path : String) :
    DriveM σ Permissions :=
  service.held identity (Path.normalize path)

/-- Fails unless the caller holds a capability on a path. -/
def authorize (service : Service σ) (identity : Identity) (needed : Capability) (path : String) :
    DriveM σ Unit := do
  require (← service.held identity path) needed path

end Service

end FileDrive
