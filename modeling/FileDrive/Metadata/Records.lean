import FileDrive.Metadata.Database

/-!
# Permission records in the metadata

There is at most one record for a principal on a path, and everyone is one principal.
-/

namespace FileDrive.Database

/-- Rows in the order of their paths, then kinds of principal by name, then principals. -/
def rowOrder (a b : PermissionRow) : Bool :=
  if a.path = b.path then
    if a.kind = b.kind then a.principal ≤ b.principal else a.kind ≤ b.kind
  else a.path ≤ b.path

/-- The records that rows stand for, in the order of their keys. -/
def recordsOf (rows : List PermissionRow) : Except DriveError (List PermissionRecord) :=
  ((rows.mergeSort rowOrder).mapM PermissionRow.record).mapError .database

/-- The records on any of some paths. -/
def recordsOn (db : Database) (paths : List String) : Except DriveError (List PermissionRecord) :=
  if paths.isEmpty then .ok []
  else do recordsOf ((← db.permissionRows).filter (paths.contains ·.path))

/-- The records on exactly a path. -/
def recordsAt (db : Database) (path : String) : Except DriveError (List PermissionRecord) := do
  recordsOf ((← db.permissionRows).filter (·.path = path))

/-- Every record. -/
def allRecords (db : Database) : Except DriveError (List PermissionRecord) := do
  recordsOf (← db.permissionRows)

/-- Rows with one more record, which takes the place of one for the same path and principal. -/
def withRecord (rows : List PermissionRow) (record : PermissionRecord) : List PermissionRow :=
  let new := PermissionRow.ofRecord record
  if rows.any new.sameKey then rows.map fun row => if new.sameKey row then new else row
  else rows ++ [new]

/-- Adds a record, or replaces the one for the same path and principal. -/
def putRecord (db : Database) (record : PermissionRecord) : Except DriveError Database := do
  return db.withPermissions (withRecord (← db.permissionRows) record)

/-- Takes out the rows that a test picks, and counts them. -/
def deleteRecordsWhere (db : Database) (test : PermissionRow → Bool) :
    Except DriveError (Nat × Database) := do
  let rows ← db.permissionRows
  return (rows.countP test, db.withPermissions (rows.filter (!test ·)))

/-- Takes out the record for a principal on a path. -/
def deleteRecord (db : Database) (path : String) (kind : PrincipalKind) (principal : String) :
    Except DriveError (Nat × Database) :=
  db.deleteRecordsWhere fun row =>
    row.path = path && row.kind = kind.name && row.principal = kind.storedPrincipal principal

/-- Takes out the records on exactly a path. -/
def deleteRecordsAt (db : Database) (path : String) : Except DriveError (Nat × Database) :=
  db.deleteRecordsWhere (·.path = path)

/-- Takes out the records for a principal on every path. -/
def deleteRecordsFor (db : Database) (kind : PrincipalKind) (principal : String) :
    Except DriveError (Nat × Database) :=
  db.deleteRecordsWhere fun row =>
    row.kind = kind.name && row.principal = kind.storedPrincipal principal

/-- Replaces the records on a path by others on the same path. Of those for one principal the last
one counts. -/
def replaceRecords (db : Database) (path : String) (records : List PermissionRecord) :
    Except DriveError Database := do
  match records.find? (·.path ≠ path) with
  | some stray =>
    throw (.validation ("record for " ++ stray.path ++ " does not belong to " ++ path))
  | none =>
    let kept := (← db.permissionRows).filter (·.path ≠ path)
    return db.withPermissions (records.foldl withRecord kept)

end FileDrive.Database
