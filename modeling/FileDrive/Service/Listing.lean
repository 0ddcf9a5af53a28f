import FileDrive.Service.Basic

/-!
# Listings

What a caller sees of a path: the files at or below it that the caller may read, and a summary of
each direct entry.
-/

namespace FileDrive

open FileDrive.Time

/-- A file with the caller's effective permissions on it. -/
structure FileEntry where
  file : File
  permissions : Permissions

/-- A direct entry of a listed directory. -/
structure DirEntry where
  name : String
  path : String
  isDirectory : Bool
  /-- The total size of the files in the entry. -/
  size : Int
  fileCount : Nat
  /-- The latest time at which a file in the entry was changed. -/
  updatedAt : Timestamp
  deriving DecidableEq

/-- A listed path. -/
structure Listing where
  path : String
  entries : List DirEntry
  files : List FileEntry

namespace DirEntry

/-- The summary of an entry of a directory, by the files in it. -/
def ofFiles (dir name : String) (first : File) (rest : List File) : DirEntry :=
  let path := Path.join dir name
  { name
    path
    isDirectory := path ≠ first.path
    size := (first :: rest).foldl (fun sum file => Text.signed64 (sum + file.size)) 0
    fileCount := (first :: rest).length
    updatedAt := rest.foldl (fun time file => time.latest file.updatedAt) first.updatedAt }

/-- The names of the entries of a directory that hold some files, in order, each once. -/
def names (dir : String) (files : List File) : List String :=
  (files.filterMap fun file => Path.entryBelow file.path dir).eraseDups.mergeSort fun a b => a ≤ b

/-- The entries of a directory that hold some files, in the order of their names. -/
def summarize (dir : String) (files : List File) : List DirEntry :=
  (names dir files).filterMap fun name =>
    match files.filter fun file => Path.entryBelow file.path dir = some name with
    | [] => none
    | first :: rest => some (ofFiles dir name first rest)

end DirEntry

namespace Service

variable {σ : Type}

/-- Lists a file or a directory. A path without files is missing to those who may read it and denied
to everybody else; the root is then empty. A path whose files the caller may not read, none of them,
is denied. -/
def list (service : Service σ) (identity : Identity) (path : String) : DriveM σ Listing := do
  let path := Path.normalize path
  let files ← DriveM.query (·.filesAt path)
  if files.isEmpty ∧ path ≠ Path.root then
    service.authorize identity .read path
    throw (.fileNotFound path)
  let permitted ← DriveM.query (service.resolver.onFiles · files identity)
  let readable := permitted.filterMap fun (file, permissions) =>
    if permissions.has .read then some (FileEntry.mk file permissions) else none
  if !files.isEmpty ∧ readable.isEmpty then throw (.unauthorized path .read)
  return { path, entries := DirEntry.summarize path (readable.map (·.file)), files := readable }

end Service

end FileDrive
