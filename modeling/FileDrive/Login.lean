import FileDrive.Drive
import FileDrive.Metadata.Sessions
import FileDrive.Metadata.Users

/-!
# Sessions

A session begins when the identity provider has vouched for a user, and stands for that user until it
expires or is ended.
-/

namespace FileDrive

open FileDrive.Time

/-- The tokens that the identity provider issues at login. -/
structure ProviderTokens where
  accessToken : String
  refreshToken : String
  idToken : String

/-- How sessions are begun. -/
structure Login where
  /-- How long a session lasts, in seconds. -/
  lifetime : Nat
  /-- A supply of names for sessions. -/
  sessionIds : Nat → String

namespace Login

variable {σ : Type}

/-- The longest lifetime that can be counted in milliseconds of 64 bits. -/
def longestLifetime : Nat := 9223372036854775

/-- The time at which a session that begins now is over. -/
def expiry (login : Login) : DriveM σ Timestamp := do
  let outOfRange : DriveError := .config "session lifetime is out of range"
  if longestLifetime < login.lifetime then throw outOfRange
  match (← DriveM.now).after? login.lifetime with
  | some expiry => return expiry
  | none => throw outOfRange

/-- Begins a session of a user, who is brought up to date. -/
def start (login : Login) (user : User) (tokens : ProviderTokens) : DriveM σ Session := do
  let expiry ← login.expiry
  DriveM.change (·.putUser user)
  let id ← DriveM.draw login.sessionIds
  let (session, db) ← DriveM.query (·.createSession
    ⟨id, user.id, tokens.accessToken, tokens.refreshToken, tokens.idToken, expiry⟩)
  DriveM.commit db
  return session

/-- Ends a session. -/
def finish (id : String) : DriveM σ Unit := DriveM.change (·.deleteSession id)

/-- The identity behind a session. One that is over, or whose user is unknown, is taken out and
counts as unknown. -/
def identity (id : String) : DriveM σ Identity := do
  let session ← DriveM.query (·.session id)
  if session.isExpired (← DriveM.now) then
    finish id
    throw .sessionNotFound
  match (← get).db.user session.userId with
  | .ok user => return user.identity
  | .error (.userNotFound _) =>
    finish id
    throw .sessionNotFound
  | .error e => throw e

/-- Takes out every session that is over, and counts them. -/
def purge : DriveM σ Nat := do
  let now ← DriveM.now
  let (count, db) ← DriveM.query (·.deleteExpired now)
  DriveM.commit db
  return count

end Login

end FileDrive
