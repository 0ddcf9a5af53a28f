import FileDrive.Metadata.Database
import FileDrive.Time.Printer

/-!
# Sessions in the metadata

The time at which a session is over is stored as text, and compared as text when the sessions that
are over are cleared away.
-/

namespace FileDrive.Database

open FileDrive.Time

/-- The session with an id, over or not. -/
def session (db : Database) (id : String) : Except DriveError Session := do
  match (← db.sessionRows).find? (·.id = id) with
  | some row => return row.session
  | none => throw .sessionNotFound

/-- Adds a session, and gives it as it is read back. -/
def createSession (db : Database) (session : Session) : Except DriveError (Session × Database) := do
  let db ← db.insertSessionRow (SessionRow.ofSession session)
  return (← db.session session.id, db)

/-- Takes out the session with an id, if there is one. -/
def deleteSession (db : Database) (id : String) : Except DriveError Database := do
  return { db with sessions := some ((← db.sessionRows).filter (·.id ≠ id)) }

/-- Takes out every session whose stored expiry is no later as text than a time, and counts them. -/
def deleteExpired (db : Database) (now : Timestamp) : Except DriveError (Nat × Database) := do
  let rows ← db.sessionRows
  let isOver : SessionRow → Bool := fun row => row.expiry ≤ now.stored
  return (rows.countP isOver, { db with sessions := some (rows.filter (!isOver ·)) })

end FileDrive.Database
