import FileDrive.Metadata.Database
import FileDrive.Time.Printer

/-!
# Shares in the metadata
-/

namespace FileDrive.Database

open FileDrive.Time

/-- The share with an id. -/
def share (db : Database) (id : String) : Except DriveError Share := do
  match (← db.shareRows).find? (·.id = id) with
  | some row => return row.share
  | none => throw (.shareNotFound id)

/-- Adds a share under an id that none has, and gives it as it is read back. -/
def createShare (db : Database) (now : Timestamp) (id path : String) (permissions : Permissions)
    (userId : String) : Except DriveError (Share × Database) := do
  let rows ← db.shareRows
  if rows.any (·.id = id) then throw (.validation ("share id " ++ id ++ " already taken"))
  let row : ShareRow := ⟨id, path, permissions.mask, userId, now.stored⟩
  let db := { db with shares := some (rows ++ [row]) }
  return (← db.share id, db)

/-- Takes out the share with an id. -/
def deleteShare (db : Database) (id : String) : Except DriveError Database := do
  let rows ← db.shareRows
  if rows.any (·.id = id) then return { db with shares := some (rows.filter (·.id ≠ id)) }
  else throw (.shareNotFound id)

/-- The shares of an issuer, the newest first; those of one time in the order of their ids. -/
def sharesOf (db : Database) (userId : String) : Except DriveError (List Share) := do
  let rows := (← db.shareRows).filter (·.userId = userId)
  let newerFirst : ShareRow → ShareRow → Bool := fun a b =>
    if a.createdAt = b.createdAt then a.id ≤ b.id else b.createdAt ≤ a.createdAt
  return (rows.mergeSort newerFirst).map (·.share)

end FileDrive.Database
