import FileDrive.Path
import FileDrive.Metadata.Database

/-!
# Files in the metadata

Reading and changing the rows of files. A change gives the database as it is to become, which takes
effect only when it is put in the place of the old one; records on exactly a file's path go with the
file.
-/

namespace FileDrive.Database

open FileDrive.Time

/-- Every file. -/
def allFiles (db : Database) : Except DriveError (List File) := do
  let rows ← db.fileRows
  let users ← db.userRows
  return rows.map (·.file users)

/-- The file at exactly a path, if there is one. -/
def file? (db : Database) (path : String) : Except DriveError (Option File) := do
  return (← db.allFiles).find? (·.path = path)

/-- The file at exactly a path. -/
def file (db : Database) (path : String) : Except DriveError File := do
  match ← db.file? path with
  | some file => return file
  | none => throw (.fileNotFound path)

/-- The owner of the file at exactly a path, if there is one. -/
def ownerOf (db : Database) (path : String) : Except DriveError (Option String) := do
  return ((← db.fileRows).find? (·.path = path)).map (·.ownerId)

/-- Files in the order of their paths. -/
def byPath (files : List File) : List File := files.mergeSort fun a b => a.path ≤ b.path

/-- Whether a path starts with the stem of a directory, whose text ends where a NUL does. -/
def isStoredBelow (path dir : String) : Bool :=
  let stem := (Path.stem dir).toList
  stem.all (· ≠ '\x00') && stem.isPrefixOf path.toList

/-- The file at exactly a path, or else every file below it, in the order of their paths. -/
def filesAt (db : Database) (path : String) : Except DriveError (List File) := do
  match ← db.file? path with
  | some file => return [file]
  | none => return byPath ((← db.allFiles).filter fun file => isStoredBelow file.path path)

/-- The files of an owner, in the order of their paths. -/
def filesOf (db : Database) (ownerId : String) : Except DriveError (List File) := do
  return byPath ((← db.allFiles).filter (·.ownerId = ownerId))

/-- Adds a file at a path that has none. -/
def createFile (db : Database) (now : Timestamp) (new : NewFile) :
    Except DriveError (File × Database) := do
  let rows ← db.fileRows
  if rows.any (·.path = new.path) then throw (.fileAlreadyExists new.path)
  let db := db.withFiles (rows ++ [FileRow.ofNew new now])
  return (← db.file new.path, db)

/-- Adds a file, or gives the one at the path a new content and description. The owner and the time
of creation of a file that was there stay. -/
def putFile (db : Database) (now : Timestamp) (new : NewFile) :
    Except DriveError (File × Database) := do
  let rows ← db.fileRows
  let replaced : FileRow → FileRow := fun row =>
    if row.path = new.path then
      { row with
        size := new.size, contentType := new.contentType, description := new.description,
        updatedAt := now.stored }
    else row
  let rows := if rows.any (·.path = new.path) then rows.map replaced
    else rows ++ [FileRow.ofNew new now]
  let db := db.withFiles rows
  return (← db.file new.path, db)

/-- Changes the row of a file, and its path to a given one, which no other file may have. -/
def reviseFile (db : Database) (path newPath : String) (change : FileRow → FileRow) :
    Except DriveError Database := do
  let rows ← db.fileRows
  if !rows.any (·.path = path) then throw (.fileNotFound path)
  if path ≠ newPath ∧ rows.any (·.path = newPath) then throw (.fileAlreadyExists newPath)
  return db.withFiles <| rows.map fun row =>
    if row.path = path then { change row with path := newPath } else row

/-- Moves the records on a path to another one. They replace the records there about the same
principals. -/
def repointRecords (db : Database) (source target : String) : Except DriveError Database := do
  let rows ← db.permissionRows
  let replaced : PermissionRow → Bool := fun row =>
    row.path = target &&
      rows.any fun other =>
        other.path = source && other.kind = row.kind && other.principal = row.principal
  return db.withPermissions <| (rows.filter (!replaced ·)).map fun row =>
    if row.path = source then { row with path := target } else row

/-- Changes the description and the path of a file and, when the size is positive, what is known of
its content. -/
def updateFile (db : Database) (now : Timestamp) (path newPath : String) (size : Int)
    (contentType description : String) : Except DriveError Database := do
  let db ← db.reviseFile path newPath fun row =>
    if 0 < size then
      { row with size, contentType, description, updatedAt := now.stored }
    else { row with description, updatedAt := now.stored }
  if path = newPath then return db else db.repointRecords path newPath

/-- Changes the path of a file. -/
def moveFile (db : Database) (now : Timestamp) (path newPath : String) :
    Except DriveError Database := do
  let db ← db.reviseFile path newPath fun row => { row with updatedAt := now.stored }
  db.repointRecords path newPath

/-- Takes out a file and the records on exactly its path. -/
def deleteFile (db : Database) (path : String) : Except DriveError Database := do
  let rows ← db.fileRows
  if !rows.any (·.path = path) then throw (.fileNotFound path)
  let records ← db.permissionRows
  return (db.withFiles (rows.filter (·.path ≠ path))).withPermissions
    (records.filter (·.path ≠ path))

end FileDrive.Database
