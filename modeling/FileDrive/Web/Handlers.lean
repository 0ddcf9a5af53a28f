import FileDrive.Login
import FileDrive.Service.Json
import FileDrive.Service.Permissions
import FileDrive.Service.Upload
import FileDrive.Web.Cookie
import FileDrive.Web.Disposition
import FileDrive.Web.Query
import FileDrive.Web.Route

/-!
# Answering requests

Each address and method has a function that reads the request, asks the drive and makes an answer.
Who asks is read first, then the address, the query, the headers and the body, so that the first of
these to be refused decides the answer.
-/

namespace FileDrive.Web

open FileDrive.Json (Value)
open FileDrive.Text

/-- What requests are answered with. -/
structure Site (σ : Type) where
  service : Service σ
  login : Login
  /-- The group of callers without a session. -/
  guestGroup : String
  /-- A supply of ids to follow requests by. -/
  correlationIds : Nat → String

/-- What a request does with a drive. -/
abbrev WebM (σ : Type) := ExceptT Rejection (StateM (Drive σ))

variable {σ α : Type}

/-- What the drive is asked. -/
def ask (action : DriveM σ α) : WebM σ α :=
  ExceptT.mk do
    return (← action.run).mapError fun e => .api (.ofDrive e)

/-- What is read of a request. -/
def read (result : Except Rejection α) : WebM σ α := ExceptT.mk (pure result)

/-- What is read of a query; nothing when it is spoilt. -/
def readQuery (query : Option α) : WebM σ α :=
  read (query.elim (.error (.plain 400 "the query does not fit")) .ok)

/-- The cookie that holds the id of a session. -/
def sessionCookie : String := "session"

/-- The header that holds the id of a session where there are no cookies. -/
def sessionHeader : String := "x-session-id"

/-- The id of the session that a request carries, in a cookie or else in a header. -/
def sessionId? (request : Request) : Option String :=
  (Cookie.value? request sessionCookie).or
    ((request.headerText? sessionHeader).filter (· ≠ ""))

namespace Site

/-- Who makes a request: the guest when it carries no session. -/
def identity (site : Site σ) (request : Request) : WebM σ Identity :=
  match sessionId? request with
  | none => return Identity.guest site.guestGroup
  | some id => ask (Login.identity id)

end Site

/-- The header that asks for a range, which has to be ASCII. -/
def rangeHeader (request : Request) : Except Rejection (Option String) :=
  match request.header? "range" with
  | none => .ok none
  | some value =>
    match Request.valueText? value with
    | some text => .ok (some text)
    | none =>
      .error (.api (.ofDrive (.rangeNotSatisfiable "Range header is not valid ASCII")))

/-- The declared length of a body. -/
def contentLength (request : Request) : Except Rejection Nat :=
  match (request.headerText? "content-length").bind fun text =>
      readBelow wordBound (trim text.toList) with
  | some length => .ok length
  | none => .error (.api (.badRequest "a valid Content-Length header is required"))

/-- The body of a request as something to store. -/
def uploadOf (request : Request) : Except Rejection Upload := do
  let size ← contentLength request
  return ⟨size, (request.headerText? "content-type").getD "", request.body⟩

/-- The answer that sends a download. -/
def downloadResponse (download : Download) (attachment : Bool) : Except Rejection Response :=
  let file := download.file
  let headers := [
    ("content-type", file.contentType),
    ("accept-ranges", "bytes"),
    ("last-modified", file.updatedAt.header),
    ("content-disposition", Disposition.header (Path.fileName file.path) attachment)]
  if !Response.isHeaderValue file.contentType then
    .error (.api (.internal "failed to build response"))
  else match download.range with
    | some range =>
      .ok ⟨206, headers ++ [("content-range", range.contentRange),
        ("content-length", toString range.length)], .stream download.body⟩
    | none =>
      .ok ⟨200, headers ++ [("content-length", toString file.size.toNat)], .stream download.body⟩

/-- The answer to a batch: it says so when files were passed over. -/
def batchResponse (report : BatchReport) : Response :=
  .ofData (if report.isComplete then 200 else 207) report.toJson

/-- Lists the root. -/
def listRoot (site : Site σ) (request : Request) : WebM σ Response := do
  let identity ← site.identity request
  let listing ← ask (site.service.list identity Path.root)
  return .ofData 200 listing.toJson

/-- What an attempt to open a file comes to when a listing may do instead. -/
def openOrList (attempt : Except DriveError Download) : Except Rejection (Option Download) :=
  match attempt with
  | .ok download => .ok (some download)
  | .error (.fileNotFound _) | .error (.unauthorized _ _) => .ok none
  | .error e => .error (.api (.ofDrive e))

/-- Sends a file, or lists what is no file that the caller may read. -/
def getPath (site : Site σ) (request : Request) (path : String) : WebM σ Response := do
  let identity ← site.identity request
  let path ← read (Route.decoded path)
  let query ← readQuery (GetQuery.ofQuery? request.query)
  if !query.list then
    let range ← read (rangeHeader request)
    let opened ← ask (DriveM.attempt (site.service.download identity path range))
    if let some download ← read (openOrList opened) then
      return ← read (downloadResponse download query.download)
  let listing ← ask (site.service.list identity path)
  return .ofData 200 listing.toJson

/-- Creates a file, or replaces one. -/
def putFile (site : Site σ) (request : Request) (path : String) : WebM σ Response := do
  let identity ← site.identity request
  let path ← read (Route.decoded path)
  let query ← readQuery (UploadQuery.ofQuery? request.query)
  let upload ← read (uploadOf request)
  let file ← ask (site.service.create identity
    ⟨path, query.description.getD "", query.overwrite, upload⟩)
  return .ofData 201 file.toJson

/-- What a request to change a file asks for: new content with the query, or what its body says,
and the query where the body says nothing. -/
def updateRequest (request : Request) (query : UpdateQuery) : Except Rejection UpdateRequest := do
  if query.replace then return ⟨query.newPath, query.description, some (← uploadOf request)⟩
  else
    let body ← readOptionalBody UpdateBody.decoder ⟨none, none⟩ request
    return ⟨body.newPath.or query.newPath, body.description.or query.description, none⟩

/-- Changes a file. -/
def patchFile (site : Site σ) (request : Request) (path : String) : WebM σ Response := do
  let identity ← site.identity request
  let path ← read (Route.decoded path)
  let query ← readQuery (UpdateQuery.ofQuery? request.query)
  let update ← read (updateRequest request query)
  let file ← ask (site.service.update identity path update)
  return .ofData 200 file.toJson

/-- Moves a file or a directory. -/
def postMove (site : Site σ) (request : Request) (path : String) : WebM σ Response := do
  let identity ← site.identity request
  let path ← read (Route.decoded path)
  let body ← read (readBody MoveBody.decoder request)
  let report ← ask (site.service.movePath identity path body.destination body.names)
  return batchResponse report

/-- Deletes a file or a directory. -/
def deletePath (site : Site σ) (request : Request) (path : String) : WebM σ Response := do
  let identity ← site.identity request
  let path ← read (Route.decoded path)
  let names ← read (readOptionalBody deleteBodyDecoder none request)
  let report ← ask (site.service.deletePath identity path names)
  return batchResponse report

/-- The answer on the records of a path. -/
def permissionsResponse (path : String) (effective : Permissions)
    (records : List PermissionRecord) : Response :=
  .ofData 200 (.obj [("path", .str path), ("effective", effective.toJson),
    ("records", .arr (records.map (·.toJson)))])

/-- Shows the records on a path. -/
def getPermissions (site : Site σ) (request : Request) (path : String) : WebM σ Response := do
  let identity ← site.identity request
  let path := Path.normalize (← read (Route.decoded path))
  let records ← ask (site.service.getPermissions identity path)
  let effective ← ask (site.service.effectivePermissions identity path)
  return permissionsResponse path effective records

/-- Replaces the records on a path. -/
def putPermissions (site : Site σ) (request : Request) (path : String) : WebM σ Response := do
  let identity ← site.identity request
  let path := Path.normalize (← read (Route.decoded path))
  let records ← read (readBody (Json.Decoder.list (PermissionRecord.entryDecoder path)) request)
  let records ← ask (site.service.setPermissions identity path records)
  let effective ← ask (site.service.effectivePermissions identity path)
  return permissionsResponse path effective records

/-- Shows the shares of the caller. -/
def getShares (site : Site σ) (request : Request) : WebM σ Response := do
  let identity ← site.identity request
  let shares ← ask (Service.listShares identity)
  return .ofData 200 (.arr (shares.map (·.toJson)))

/-- Issues a share. -/
def postShare (site : Site σ) (request : Request) : WebM σ Response := do
  let identity ← site.identity request
  let body ← read (readBody ShareBody.decoder request)
  let share ← ask (site.service.createShare identity body.path body.permissions)
  return .ofData 201 share.toJson

/-- Shows a share and its files to whoever has its id. -/
def getShare (id : String) : WebM σ Response := do
  let id ← read (Route.decoded id)
  let shared ← ask (Service.openShare id)
  return .ofData 200 shared.toJson

/-- Sends a file of a share to whoever has its id. -/
def getSharedFile (site : Site σ) (request : Request) (id path : String) : WebM σ Response := do
  let id ← read (Route.decoded id)
  let path ← read (Route.decoded path)
  let range ← read (rangeHeader request)
  let download ← ask (site.service.downloadShared id path range)
  read (downloadResponse download true)

/-- Takes back a share. -/
def deleteShare (site : Site σ) (request : Request) (id : String) : WebM σ Response := do
  let identity ← site.identity request
  let id ← read (Route.decoded id)
  ask (site.service.deleteShare identity id)
  return .ofStatus 204

/-- Shows who the caller is. -/
def getSession (site : Site σ) (request : Request) : WebM σ Response := do
  let identity ← site.identity request
  return .ofData 200 (identity.toJsonWith [("guest", .bool identity.isGuest)])

/-- Ends the session in the cookie of a request and takes the cookie away. -/
def deleteSession (request : Request) : WebM σ Response := do
  match Cookie.value? request sessionCookie with
  | none => return .ofStatus 204
  | some id =>
    ask (Login.finish id)
    return (Response.ofStatus 204).withHeader "set-cookie" (Cookie.removal sessionCookie)

/-- What answers a request on a route, if the route takes its method. -/
def handler? (site : Site σ) (request : Request) (route : Route) : Option (WebM σ Response) :=
  let method := if request.method = "HEAD" then "GET" else request.method
  match route, method with
  | .rootFiles, "GET" => some (listRoot site request)
  | .rootFiles, "DELETE" => some (deletePath site request Path.root)
  | .files path, "GET" => some (getPath site request path)
  | .files path, "PUT" => some (putFile site request path)
  | .files path, "PATCH" => some (patchFile site request path)
  | .files path, "POST" => some (postMove site request path)
  | .files path, "DELETE" => some (deletePath site request path)
  | .rootPermissions, "GET" => some (getPermissions site request Path.root)
  | .rootPermissions, "PUT" => some (putPermissions site request Path.root)
  | .permissions path, "GET" => some (getPermissions site request path)
  | .permissions path, "PUT" => some (putPermissions site request path)
  | .shares, "GET" => some (getShares site request)
  | .shares, "POST" => some (postShare site request)
  | .share id, "GET" => some (getShare id)
  | .share id, "DELETE" => some (deleteShare site request id)
  | .sharedFile id path, "GET" => some (getSharedFile site request id path)
  | .session, "GET" => some (getSession site request)
  | .session, "DELETE" => some (deleteSession request)
  | .health, "GET" => some (return Response.ofText 200 "OK")
  | _, _ => none

end FileDrive.Web
