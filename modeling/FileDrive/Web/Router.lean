import FileDrive.Web.Handlers

/-!
# Routing

Every request is followed by an id, which its response carries: the one that the request brings, if
that can be used, or a new one.
-/

namespace FileDrive.Web

variable {σ : Type}

/-- The header that carries the id that a request is followed by. -/
def correlationHeader : String := "x-correlation-id"

/-- The longest id that is taken over from a request. -/
def longestCorrelationId : Nat := 128

/-- The id that a request brings, if it can be used. -/
def correlationId? (request : Request) : Option String :=
  (request.headerText? correlationHeader).filter fun id =>
    id ≠ "" && id.length ≤ longestCorrelationId

/-- The response to a request that was refused. -/
def Rejection.response (request : Request) (correlationId : String) : Rejection → Response
  | .api e => .ofJson e.status (e.body request.path correlationId)
  | .plain status message => .ofText status message

namespace Site

/-- The response to a request, by its route and method. -/
def respond (site : Site σ) (request : Request) (correlationId : String) :
    StateM (Drive σ) Response :=
  match Route.ofPath? request.path with
  | none => return .ofStatus 404
  | some route =>
    match handler? site request route with
    | none => return (Response.ofStatus 405).withHeader "allow" (",".intercalate route.methods)
    | some handler => do
      match ← handler.run with
      | .ok response => return response
      | .error rejection => return rejection.response request correlationId

/-- Answers a request. -/
def handle (site : Site σ) (request : Request) : StateM (Drive σ) Response := do
  let id ← match correlationId? request with
    | some id => pure id
    | none => modifyGet fun drive =>
      (site.correlationIds drive.drawn, { drive with drawn := drive.drawn + 1 })
  let response ← site.respond request id
  let response := if request.method = "HEAD" then response.withoutBody else response
  return response.withHeader correlationHeader id

end Site

end FileDrive.Web
