import FileDrive.Text.Percent
import FileDrive.Text.Pieces
import FileDrive.Web.Body

/-!
# Routes

The addresses of the web interface. A route keeps the parts of an address that vary as they are
written, with their escapes.
-/

namespace FileDrive.Web

open FileDrive.Text

/-- What an address leads to. -/
inductive Route where
  | rootFiles
  | files (path : String)
  | rootPermissions
  | permissions (path : String)
  | shares
  | share (id : String)
  | sharedFile (id path : String)
  | session
  | health
  deriving DecidableEq, Repr

namespace Route

/-- The route of what stands behind `/shares/`. -/
def ofShareTail? (tail : List Char) : Option Route :=
  match cutFirst '/' tail with
  | none => if tail = [] then none else some (share (String.ofList tail))
  | some (id, rest) =>
    match id, after? "files/".toList rest with
    | [], _ | _, none | _, some [] => none
    | id, some path => some (sharedFile (String.ofList id) (String.ofList path))

/-- The route of a path, if it leads anywhere. -/
def ofPath? (path : String) : Option Route :=
  let s := path.toList
  if path = "/files" ∨ path = "/files/" then some rootFiles
  else if path = "/permissions" ∨ path = "/permissions/" then some rootPermissions
  else if path = "/shares" then some shares
  else if path = "/session" then some session
  else if path = "/health" then some health
  else match after? "/files/".toList s, after? "/permissions/".toList s,
      after? "/shares/".toList s with
    | some tail, _, _ => some (files (String.ofList tail))
    | _, some tail, _ => some (permissions (String.ofList tail))
    | _, _, some tail => ofShareTail? tail
    | _, _, _ => none

/-- The methods that a route takes. Where something can be got, its head can. -/
def methods : Route → List String
  | rootFiles => ["GET", "HEAD", "DELETE"]
  | files _ => ["GET", "HEAD", "PUT", "PATCH", "POST", "DELETE"]
  | rootPermissions | permissions _ => ["GET", "HEAD", "PUT"]
  | shares => ["GET", "HEAD", "POST"]
  | share _ => ["GET", "HEAD", "DELETE"]
  | sharedFile _ _ => ["GET", "HEAD"]
  | session => ["GET", "HEAD", "DELETE"]
  | health => ["GET", "HEAD"]

/-- The text of a part of an address that varies. -/
def decoded (part : String) : Except Rejection String :=
  match percentDecoded? part with
  | some text => .ok text
  | none => .error (.plain 400 "the address is not UTF-8")

end Route

end FileDrive.Web
