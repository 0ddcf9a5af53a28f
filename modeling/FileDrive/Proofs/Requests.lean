import FileDrive.Proofs.Action
import FileDrive.Service.Batch
import FileDrive.Service.Download
import FileDrive.Service.Listing
import FileDrive.Service.Permissions
import FileDrive.Service.Shares
import FileDrive.Service.Upload

/-!
# Requests and runs

What can be asked of the file service is a request, and `serve` carries it out. A run starts from a
drive and serves requests one after another, each made by somebody of its own and each with a store
of its own, so that a call of the store may fail in one request and succeed in the next. The history
of a run is what its callers have seen: who asked for what, and the reply.
-/

namespace FileDrive

/-- What can be asked of the file service. -/
inductive Request where
  | effective (path : String)
  | list (path : String)
  | download (path : String) (rangeHeader : Option String)
  | create (request : CreateRequest)
  | update (path : String) (request : UpdateRequest)
  | move (source target : String) (names : Option (List String))
  | delete (path : String) (names : Option (List String))
  | recordsAt (path : String)
  | setRecords (path : String) (records : List PermissionRecord)
  | createShare (path : String) (permissions : Permissions)
  | openShare (id : String)
  | downloadShared (id path : String) (rangeHeader : Option String)
  | deleteShare (id : String)
  | listShares

/-- What a request that went well is answered with. -/
inductive Reply where
  | permissions (held : Permissions)
  | listing (listing : Listing)
  | download (download : Download)
  | file (file : File)
  | report (report : BatchReport)
  | records (records : List PermissionRecord)
  | share (share : Share)
  | sharedFiles (shared : SharedFiles)
  | shares (shares : List Share)
  | done

namespace Request

/-- The paths that a request names. -/
def paths : Request → List String
  | effective path | list path | download path _ | delete path _ | recordsAt path
  | createShare path _ | downloadShared _ path _ => [path]
  | create request => [request.path]
  | update path request => path :: request.newPath.toList
  | move source target _ => [source, target]
  | setRecords path records => path :: records.map (·.path)
  | openShare _ | deleteShare _ | listShares => []

/-- Whether a request only reads. -/
def reads : Request → Bool
  | effective _ | list _ | download _ _ | recordsAt _ | openShare _ | downloadShared _ _ _
  | listShares => true
  | create _ | update _ _ | move _ _ _ | delete _ _ | setRecords _ _ | createShare _ _
  | deleteShare _ => false

/-- Whether a request is one to delete files. -/
def deletes : Request → Bool
  | delete _ _ => true
  | _ => false

end Request

/-- The path that a file is to have after a change: the new one when there is one. -/
def UpdateRequest.target (request : UpdateRequest) (path : String) : String :=
  (request.newPath.map Path.normalize).getD path

namespace Service

variable {σ : Type}

/-- Carries out a request for somebody. -/
def serve (service : Service σ) (identity : Identity) : Request → DriveM σ Reply
  | .effective path => .permissions <$> service.effectivePermissions identity path
  | .list path => .listing <$> service.list identity path
  | .download path rangeHeader => .download <$> service.download identity path rangeHeader
  | .create request => .file <$> service.create identity request
  | .update path request => .file <$> service.update identity path request
  | .move source target names => .report <$> service.movePath identity source target names
  | .delete path names => .report <$> service.deletePath identity path names
  | .recordsAt path => .records <$> service.getPermissions identity path
  | .setRecords path records => .records <$> service.setPermissions identity path records
  | .createShare path permissions => .share <$> service.createShare identity path permissions
  | .openShare id => .sharedFiles <$> openShare id
  | .downloadShared id path rangeHeader => .download <$> service.downloadShared id path rangeHeader
  | .deleteShare id => (fun _ => .done) <$> service.deleteShare identity id
  | .listShares => .shares <$> listShares identity

/-- The service with another store. -/
def withStore (service : Service σ) (store : ObjectStore σ) : Service σ := { service with store }

end Service

/-- A request that was served: who made it and what it was answered with. -/
structure Event where
  identity : Identity
  request : Request
  reply : Except DriveError Reply

/-- A drive without files, records and shares. -/
def Drive.fresh {σ : Type} (objects : σ) (clock : Time.Timestamp) : Drive σ :=
  ⟨Database.empty, objects, clock, 0⟩

/-- A run of requests with a history reaches a drive from where it starts. Each request finds one of
some stores. -/
inductive Service.Reaches {σ : Type} (service : Service σ) (stores : ObjectStore σ → Prop)
    (start : Drive σ) : List Event → Drive σ → Prop where
  | start : Reaches service stores start [] start
  | serve {history : List Event} {drive after : Drive σ} {store : ObjectStore σ}
      {identity : Identity} {request : Request} {reply : Except DriveError Reply}
      (reached : Reaches service stores start history drive) (offered : stores store)
      (served : ((service.withStore store).serve identity request).on drive = (reply, after)) :
      Reaches service stores start (history ++ [⟨identity, request, reply⟩]) after

/-- From every drive that is reached, every request goes on to another one. -/
theorem Service.Reaches.next {σ : Type} {service : Service σ} {stores : ObjectStore σ → Prop}
    {start drive : Drive σ} {history : List Event} {store : ObjectStore σ}
    (reached : service.Reaches stores start history drive) (offered : stores store)
    (identity : Identity) (request : Request) :
    service.Reaches stores start
      (history ++
        [⟨identity, request, (((service.withStore store).serve identity request).on drive).1⟩])
      (((service.withStore store).serve identity request).on drive).2 :=
  .serve reached offered rfl

end FileDrive
