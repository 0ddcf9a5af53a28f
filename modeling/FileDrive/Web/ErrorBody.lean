import FileDrive.Error
import FileDrive.Web.Message

/-!
# Failures as answers

What a caller of the web interface is told about a failure. The details of one that is internal stay
on the server.
-/

namespace FileDrive.Web

open FileDrive.Json (Value)

/-- A failure as it is answered. -/
structure ApiError where
  status : Nat
  kind : ErrorKind
  message : String
  /-- The path that the failure is about, when it is not the one of the request. -/
  path : Option String

namespace ApiError

/-- What stands in the place of the details of an internal failure. -/
def maskedMessage : String := "an internal error occurred"

/-- The answer to a failed request. -/
def ofDrive (e : DriveError) : ApiError :=
  if e.isInternal then ⟨e.status, e.kind, maskedMessage, none⟩
  else ⟨e.status, e.kind, e.message, e.path?⟩

/-- The answer to a request that makes no sense. -/
def badRequest (message : String) : ApiError := ⟨400, .badRequest, message, none⟩

/-- The answer when the server fails. -/
def internal (message : String) : ApiError := ⟨500, .internalError, message, none⟩

/-- A failure as a log line shows it. -/
def describe (e : ApiError) : String := e.kind.title ++ ": " ++ e.message

/-- The body of the answer. Within a request it names the path of the request, unless the failure is
about another one, and the id that the request is followed by. -/
def body (e : ApiError) (requestPath correlationId : Option String) : Value :=
  let optional (name : String) (value : Option String) : List (String × Value) :=
    value.toList.map fun s => (name, .str s)
  .obj [("error", .obj (
    [("code", .str e.kind.code), ("message", .str e.message)] ++
      optional "path" (e.path.or requestPath) ++ optional "correlation_id" correlationId))]

end ApiError

end FileDrive.Web
