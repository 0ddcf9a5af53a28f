import FileDrive.Error
import FileDrive.Metadata.Row

/-!
# The metadata database

Tables of rows in the order in which they were inserted. A table may be missing and the database may
be closed, and then what needs it fails. Tables are created by migrations, whose versions are
tracked in a table of their own.
-/

namespace FileDrive

/-- The metadata of a drive. -/
structure Database where
  isOpen : Bool
  users : Option (List UserRow)
  files : Option (List FileRow)
  permissions : Option (List PermissionRow)
  sessions : Option (List SessionRow)
  shares : Option (List ShareRow)
  /-- The versions of the migrations that were applied. -/
  versions : Option (List Int)

/-- The tables of a database. -/
inductive Table where
  | users
  | files
  | permissions
  | sessions
  | shares
  | versions
  deriving DecidableEq, Repr

namespace Table

/-- Every table. -/
def all : List Table := [users, files, permissions, sessions, shares, versions]

/-- The name of a table. -/
def name : Table → String
  | users => "users"
  | files => "files"
  | permissions => "permissions"
  | sessions => "sessions"
  | shares => "shares"
  | versions => "schema_version"

end Table

namespace Database

/-- A database without tables. -/
def blank : Database := ⟨true, none, none, none, none, none, none⟩

/-- The failure of what needs an open database. -/
def closed : DriveError := .database "the database is closed"

/-- The failure of what needs a table that is missing. -/
def missing (table : Table) : DriveError := .database ("no such table: " ++ table.name)

/-- The failure of an insertion whose key is taken. -/
def keyTaken (table : Table) : DriveError := .database ("key already taken in " ++ table.name)

/-- Fails unless the database is open. -/
def requireOpen (db : Database) : Except DriveError Unit :=
  if db.isOpen then .ok () else .error closed

/-- The rows of a table, which has to be there, of an open database. -/
def rowsOf {α : Type} (db : Database) (table : Table) (rows : Option (List α)) :
    Except DriveError (List α) :=
  if db.isOpen then
    match rows with
    | some rows => .ok rows
    | none => .error (missing table)
  else .error closed

/-- The rows of the users. -/
def userRows (db : Database) : Except DriveError (List UserRow) := db.rowsOf .users db.users

/-- The rows of the files. -/
def fileRows (db : Database) : Except DriveError (List FileRow) := db.rowsOf .files db.files

/-- The rows of the permission records. -/
def permissionRows (db : Database) : Except DriveError (List PermissionRow) :=
  db.rowsOf .permissions db.permissions

/-- The rows of the sessions. -/
def sessionRows (db : Database) : Except DriveError (List SessionRow) :=
  db.rowsOf .sessions db.sessions

/-- The rows of the shares. -/
def shareRows (db : Database) : Except DriveError (List ShareRow) := db.rowsOf .shares db.shares

/-- The versions of the migrations that were applied. -/
def versionRows (db : Database) : Except DriveError (List Int) := db.rowsOf .versions db.versions

/-- The database with other rows of files. -/
def withFiles (db : Database) (rows : List FileRow) : Database := { db with files := some rows }

/-- The database with other rows of permission records. -/
def withPermissions (db : Database) (rows : List PermissionRow) : Database :=
  { db with permissions := some rows }

/-- Adds a row unless one that is there has the same key. -/
def inserted {α : Type} (table : Table) (sameKey : α → α → Bool) (rows : List α) (row : α) :
    Except DriveError (List α) :=
  if rows.any (sameKey row) then .error (keyTaken table) else .ok (rows ++ [row])

/-- Adds a user's row as it is. -/
def insertUserRow (db : Database) (row : UserRow) : Except DriveError Database := do
  let rows ← inserted .users (fun a b => a.id = b.id) (← db.userRows) row
  return { db with users := some rows }

/-- Adds a file's row as it is. -/
def insertFileRow (db : Database) (row : FileRow) : Except DriveError Database := do
  let rows ← inserted .files (fun a b => a.path = b.path) (← db.fileRows) row
  return db.withFiles rows

/-- Adds a permission record's row as it is. -/
def insertPermissionRow (db : Database) (row : PermissionRow) : Except DriveError Database := do
  let rows ← inserted .permissions PermissionRow.sameKey (← db.permissionRows) row
  return db.withPermissions rows

/-- Adds a session's row as it is. -/
def insertSessionRow (db : Database) (row : SessionRow) : Except DriveError Database := do
  let rows ← inserted .sessions (fun a b => a.id = b.id) (← db.sessionRows) row
  return { db with sessions := some rows }

/-- Adds a share's row as it is. -/
def insertShareRow (db : Database) (row : ShareRow) : Except DriveError Database := do
  let rows ← inserted .shares (fun a b => a.id = b.id) (← db.shareRows) row
  return { db with shares := some rows }

/-- Adds the version of a migration. -/
def insertVersion (db : Database) (version : Int) : Except DriveError Database := do
  let rows ← inserted .versions (fun a b => a = b) (← db.versionRows) version
  return { db with versions := some rows }

/-- Whether a table is there. -/
def has (db : Database) : Table → Bool
  | .users => db.users.isSome
  | .files => db.files.isSome
  | .permissions => db.permissions.isSome
  | .sessions => db.sessions.isSome
  | .shares => db.shares.isSome
  | .versions => db.versions.isSome

/-- The database with an empty table. -/
def created (db : Database) : Table → Database
  | .users => { db with users := some [] }
  | .files => { db with files := some [] }
  | .permissions => { db with permissions := some [] }
  | .sessions => { db with sessions := some [] }
  | .shares => { db with shares := some [] }
  | .versions => { db with versions := some [] }

/-- The database without a table. -/
def dropped (db : Database) : Table → Database
  | .users => { db with users := none }
  | .files => { db with files := none }
  | .permissions => { db with permissions := none }
  | .sessions => { db with sessions := none }
  | .shares => { db with shares := none }
  | .versions => { db with versions := none }

/-- Whether a table of a given name is there. -/
def tableExists (db : Database) (name : String) : Except DriveError Bool := do
  db.requireOpen
  return Table.all.any fun table => table.name = name && db.has table

/-- Takes a table out, its name in letters of either case. -/
def dropTable (db : Database) (name : String) : Except DriveError Database := do
  db.requireOpen
  match Table.all.find? fun table => table.name = name.toLower && db.has table with
  | some table => return db.dropped table
  | none => throw (.database ("no such table: " ++ name))

/-- The database, closed for good. -/
def close (db : Database) : Database := { db with isOpen := false }

/-! ## Migrations -/

/-- What each migration creates, the first one being version 1. -/
def migrations : List Table := [.users, .files, .permissions, .sessions, .shares]

/-- The version of the newest migration that was applied; zero when there is none. -/
def version (db : Database) : Except DriveError Int := do
  db.requireOpen
  match db.versions with
  | none => return 0
  | some [] => return 0
  | some (first :: rest) => return rest.foldl max first

/-- Applies a migration: creates its table, which may not be there, and notes its version. -/
def applyMigration (db : Database) (table : Table) (version : Int) : Except DriveError Database :=
  if db.has table then .error (.database ("table " ++ table.name ++ " already exists"))
  else (db.created table).insertVersion version

/-- Applies migrations in order, from the one of a given version. What succeeded before a failure
stays. -/
def applyMigrations (db : Database) : (version : Int) → List Table → Except DriveError Unit × Database
  | _, [] => (.ok (), db)
  | version, table :: rest =>
    match db.applyMigration table version with
    | .ok db => applyMigrations db (version + 1) rest
    | .error e => (.error e, db)

/-- Applies the migrations that are newer than the version of the database. -/
def migrate (db : Database) : Except DriveError Unit × Database :=
  match db.version with
  | .error e => (.error e, db)
  | .ok current =>
    if current < 0 ∨ migrations.length ≤ current then (.ok (), db)
    else
      let db := if db.has .versions then db else db.created .versions
      db.applyMigrations (current + 1) (migrations.drop current.toNat)

/-- A fresh database with all tables. -/
def empty : Database := blank.migrate.2

/-- Forgets the versions above a given one. -/
def forgetVersions (db : Database) (above : Int) : Except DriveError Database := do
  let rows ← db.versionRows
  return { db with versions := some (rows.filter (· ≤ above)) }

end Database

end FileDrive
