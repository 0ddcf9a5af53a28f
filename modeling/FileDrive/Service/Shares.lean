import FileDrive.Metadata.Shares
import FileDrive.Service.Download

/-!
# Shares

A share gives whoever holds its id a fixed set of capabilities on a path. The set is one that its
issuer held on the path.
-/

namespace FileDrive

/-- A share and the files that it covers now. -/
structure SharedFiles where
  share : Share
  files : List File

namespace Service

variable {σ : Type}

/-- How many names are tried for a share. -/
def shareAttempts : Nat := 5

/-- Adds a share under a name that none has, trying a number of names. -/
def issueShare (service : Service σ) (path : String) (permissions : Permissions) (issuer : String) :
    (attempts : Nat) → DriveM σ Share
  | 0 => throw (.validation "could not allocate a share id")
  | attempts + 1 => do
    let id ← DriveM.draw service.shareIds
    let now ← DriveM.now
    match (← get).db.createShare now id path permissions issuer with
    | .ok (share, db) =>
      DriveM.commit db
      return share
    | .error (.validation _) => issueShare service path permissions issuer attempts
    | .error e => throw e

/-- Issues a share on a path that has files. Its issuer needs the capability to share there and all
that the share gives. -/
def createShare (service : Service σ) (identity : Identity) (path : String)
    (permissions : Permissions) : DriveM σ Share := do
  let path := Path.normalize path
  if permissions.isEmpty then throw (.validation "a share needs at least one permission")
  if identity.isGuest then throw (.unauthorized path .share)
  let held ← service.held identity path
  require held .share path
  if let missing :: _ := (permissions.remove held).toList then throw (.unauthorized path missing)
  if (← DriveM.query (·.filesAt path)).isEmpty then throw (.fileNotFound path)
  service.issueShare path permissions identity.subject shareAttempts

/-- The share with an id and the files that it covers; none when it gives no reading. -/
def openShare (id : String) : DriveM σ SharedFiles := do
  let share ← DriveM.query (·.share id)
  let files ← if share.permissions.has .read then DriveM.query (·.filesAt share.path) else pure []
  return { share, files }

/-- Opens a file at or below the path of a share. -/
def downloadShared (service : Service σ) (id path : String) (rangeHeader : Option String) :
    DriveM σ Download := do
  let share ← DriveM.query (·.share id)
  let path := Path.normalize path
  require share.permissions .read path
  if path ≠ share.path ∧ !Path.isBelow path share.path then throw (.fileNotFound path)
  let file ← DriveM.query (·.file path)
  service.openFile file rangeHeader

/-- Takes back a share. Only its issuer and those who hold everything may. -/
def deleteShare (service : Service σ) (identity : Identity) (id : String) : DriveM σ Unit := do
  let share ← DriveM.query (·.share id)
  if share.userId ≠ identity.subject ∧ !service.resolver.isAdmin identity then
    throw (.unauthorized share.path .share)
  DriveM.change (·.deleteShare id)

/-- The shares that the caller issued. -/
def listShares (identity : Identity) : DriveM σ (List Share) :=
  DriveM.query (·.sharesOf identity.subject)

end Service

end FileDrive
