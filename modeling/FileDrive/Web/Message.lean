import FileDrive.Json.Value
import FileDrive.Storage.Store

/-!
# Requests and responses

What the web interface is handed and what it answers. The names of headers are in lower case, their
values are bytes.
-/

namespace FileDrive.Web

open FileDrive.Json (Value)

/-- A request. -/
structure Request where
  method : String
  /-- The path of the address, with its escapes. -/
  path : String
  /-- What stands behind the question mark of the address, with its escapes. -/
  query : String
  headers : List (String × List UInt8)
  body : ByteStream

/-- The body of a response. -/
inductive ResponseBody where
  | empty
  | json (value : Value)
  | text (message : String)
  | stream (body : ByteStream)

/-- A response. -/
structure Response where
  status : Nat
  headers : List (String × String)
  body : ResponseBody

namespace Request

/-- The path and the query of an address. What stands behind a hash sign is no part of either. -/
def splitAddress (address : String) : String × String :=
  let address := address.toList.takeWhile (· ≠ '#')
  let path := address.takeWhile (· ≠ '?')
  (String.ofList path, String.ofList (address.drop (path.length + 1)))

/-- The value of the first header of a name. -/
def header? (request : Request) (name : String) : Option (List UInt8) :=
  request.headers.lookup name

/-- Whether a byte is visible ASCII, a space or a tab. -/
def isTextByte (b : UInt8) : Bool := (0x20 ≤ b && b < 0x7F) || b = 0x9

/-- The text of a header's value, when it is visible ASCII. -/
def valueText? (value : List UInt8) : Option String :=
  if value.all isTextByte then some (String.ofList (value.map fun b => Char.ofNat b.toNat)) else none

/-- The text of the first header of a name, when it is visible ASCII. -/
def headerText? (request : Request) (name : String) : Option String :=
  (request.header? name).bind valueText?

end Request

namespace Response

/-- A response without a body. -/
def ofStatus (status : Nat) : Response := ⟨status, [], .empty⟩

/-- A response with a JSON body. -/
def ofJson (status : Nat) (value : Value) : Response :=
  ⟨status, [("content-type", "application/json")], .json value⟩

/-- A response with a JSON body that holds some data. -/
def ofData (status : Nat) (data : Value) : Response := ofJson status (.obj [("data", data)])

/-- A response with a plain text. -/
def ofText (status : Nat) (message : String) : Response :=
  ⟨status, [("content-type", "text/plain; charset=utf-8")], .text message⟩

/-- The response with one more header. -/
def withHeader (response : Response) (name value : String) : Response :=
  { response with headers := response.headers ++ [(name, value)] }

/-- The response with its body left out. -/
def withoutBody (response : Response) : Response := { response with body := .empty }

/-- Whether a text can be the value of a header: it has no control character but the tab. -/
def isHeaderValue (value : String) : Bool :=
  value.toList.all fun c => c = '\t' || (0x20 ≤ c.toNat && c.toNat ≠ 0x7F)

end Response

end FileDrive.Web
