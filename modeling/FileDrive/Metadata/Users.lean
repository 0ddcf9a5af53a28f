import FileDrive.Metadata.Database
import FileDrive.Text.Blank
import FileDrive.Text.Pieces

/-!
# Users in the metadata

Users are not registered: each one is written down when the identity provider vouches for it. The
names of its groups are stored in one text, with commas between them.
-/

namespace FileDrive

open FileDrive.Text

/-- The trimmed names of groups that can be stored: those that are not empty and have no comma. -/
def storableGroups (groups : List String) : List String :=
  (groups.map trimmed).filter fun name => name ≠ "" && !name.toList.contains ','

/-- The text that the names of groups are stored in. -/
def joinGroups (groups : List String) : String := ",".intercalate (storableGroups groups)

/-- The names of groups that a stored text holds. -/
def splitGroups (text : String) : List String :=
  ((pieces ',' text.toList).map fun piece => String.ofList (trim piece)).filter (· ≠ "")

/-- The user that a row stands for. -/
def UserRow.user (row : UserRow) : User :=
  ⟨row.id, row.username, splitGroups row.groupNames, row.email, row.home⟩

namespace Database

/-- Adds a user or brings one up to date. The home directory of a user that was there stays. -/
def putUser (db : Database) (user : User) : Except DriveError Database := do
  let rows ← db.userRows
  let groupNames := joinGroups user.groups
  let updated : UserRow → UserRow := fun row =>
    if row.id = user.id then
      { row with username := user.username, groupNames, email := user.email }
    else row
  let rows := if rows.any (·.id = user.id) then rows.map updated
    else rows ++ [⟨user.id, user.username, groupNames, user.email, user.home⟩]
  return { db with users := some rows }

/-- The user with an id. -/
def user (db : Database) (id : String) : Except DriveError User := do
  match (← db.userRows).find? (·.id = id) with
  | some row => return row.user
  | none => throw (.userNotFound id)

/-- The first user with a username. -/
def userNamed (db : Database) (username : String) : Except DriveError User := do
  match (← db.userRows).find? (·.username = username) with
  | some row => return row.user
  | none => throw (.userNotFound username)

/-- Users in the order of their usernames. -/
def byUsername (rows : List UserRow) : List User :=
  (rows.mergeSort fun a b => a.username ≤ b.username).map (·.user)

/-- The users whose ids are listed, in the order of their usernames, then ids. -/
def usersWith (db : Database) (ids : List String) : Except DriveError (List User) :=
  if ids.isEmpty then .ok []
  else do
    let rows := (← db.userRows).filter (ids.contains ·.id)
    return byUsername (rows.mergeSort fun a b => a.id ≤ b.id)

/-- Every user, in the order of their usernames. -/
def allUsers (db : Database) : Except DriveError (List User) := do
  return byUsername (← db.userRows)

end Database

end FileDrive
