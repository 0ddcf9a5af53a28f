import FileDrive.Record
import FileDrive.Time.Parser
import FileDrive.Time.Printer

/-!
# Rows and what they stand for

Rows hold plain text and numbers: times and kinds of principal are stored as text, sets of
capabilities as masks. What a row stands for is read off it each time.
-/

namespace FileDrive

open FileDrive.Time

/-- A stored file, without its content. -/
structure File where
  path : String
  size : Int
  contentType : String
  description : String
  /-- The subject of the identity that created the file. -/
  ownerId : String
  /-- The username of the owner, where the owner is a known user. -/
  ownerName : Option String
  createdAt : Timestamp
  updatedAt : Timestamp
  deriving DecidableEq

/-- What a new file's row is made of. -/
structure NewFile where
  path : String
  size : Int
  contentType : String
  description : String
  ownerId : String

/-- A user that the identity provider has vouched for. -/
structure User where
  /-- The subject. -/
  id : String
  username : String
  groups : List String
  email : String
  home : String
  deriving DecidableEq

/-- The identity of a user. -/
def User.identity (user : User) : Identity :=
  ⟨user.id, user.username, user.groups, user.email, user.home, false⟩

/-- A session of a user, with the tokens of the identity provider. -/
structure Session where
  id : String
  userId : String
  accessToken : String
  refreshToken : String
  idToken : String
  expiry : Timestamp
  deriving DecidableEq

/-- Whether a session is over. -/
def Session.isExpired (session : Session) (now : Timestamp) : Bool := session.expiry ≤ now

/-- A link that gives whoever holds its id a fixed set of capabilities on a path. -/
structure Share where
  id : String
  path : String
  permissions : Permissions
  /-- The subject of its issuer. -/
  userId : String
  createdAt : Timestamp
  deriving DecidableEq

structure UserRow where
  id : String
  username : String
  groupNames : String
  email : String
  home : String
  deriving DecidableEq

structure FileRow where
  path : String
  size : Int
  contentType : String
  description : String
  ownerId : String
  createdAt : String
  updatedAt : String
  deriving DecidableEq

structure PermissionRow where
  path : String
  allowMask : Int
  denyMask : Int
  kind : String
  principal : String
  deriving DecidableEq

structure SessionRow where
  id : String
  userId : String
  accessToken : String
  refreshToken : String
  idToken : String
  expiry : String
  deriving DecidableEq

structure ShareRow where
  id : String
  path : String
  mask : Int
  userId : String
  createdAt : String
  deriving DecidableEq

/-- The file that a row stands for, given the users that are known. -/
def FileRow.file (users : List UserRow) (row : FileRow) : File :=
  { path := row.path
    size := row.size
    contentType := row.contentType
    description := row.description
    ownerId := row.ownerId
    ownerName := (users.find? (·.id = row.ownerId)).map (·.username)
    createdAt := .ofStored row.createdAt
    updatedAt := .ofStored row.updatedAt }

/-- The row of a new file. -/
def FileRow.ofNew (new : NewFile) (now : Timestamp) : FileRow :=
  ⟨new.path, new.size, new.contentType, new.description, new.ownerId, now.stored, now.stored⟩

/-- The record that a row stands for, or the message that its kind of principal is unknown. -/
def PermissionRow.record (row : PermissionRow) : Except String PermissionRecord := do
  let kind ← PrincipalKind.ofName row.kind
  return ⟨row.path, .ofMask row.allowMask, .ofMask row.denyMask, kind, row.principal⟩

/-- The row of a record. -/
def PermissionRow.ofRecord (record : PermissionRecord) : PermissionRow :=
  { path := record.path
    allowMask := record.allow.mask
    denyMask := record.deny.mask
    kind := record.kind.name
    principal := record.kind.storedPrincipal record.principal }

/-- Whether two rows are about the same principal on the same path. -/
def PermissionRow.sameKey (a b : PermissionRow) : Bool :=
  a.path = b.path && a.kind = b.kind && a.principal = b.principal

/-- The session that a row stands for. -/
def SessionRow.session (row : SessionRow) : Session :=
  ⟨row.id, row.userId, row.accessToken, row.refreshToken, row.idToken, .ofStored row.expiry⟩

/-- The row of a session. -/
def SessionRow.ofSession (session : Session) : SessionRow :=
  ⟨session.id, session.userId, session.accessToken, session.refreshToken, session.idToken,
    session.expiry.stored⟩

/-- The share that a row stands for. -/
def ShareRow.share (row : ShareRow) : Share :=
  ⟨row.id, row.path, .ofMask row.mask, row.userId, .ofStored row.createdAt⟩

end FileDrive
