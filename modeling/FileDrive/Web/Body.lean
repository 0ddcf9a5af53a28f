import FileDrive.Record.Json
import FileDrive.Web.ErrorBody
import FileDrive.Web.JsonType

/-!
# JSON bodies of requests

The bodies that requests come with and how they are read. Where a body has to be there, it has to be
announced as JSON, and what stands behind its value is not looked at; where it may be left out, an
announcement is not asked for, and nothing may stand behind the value.
-/

namespace FileDrive.Web

open FileDrive.Json

/-- Why a request is refused before it reaches the drive, or by the drive. -/
inductive Rejection where
  | api (e : ApiError)
  /-- Refused with a plain text. -/
  | plain (status : Nat) (message : String)

/-- What a request to move says. -/
structure MoveBody where
  destination : String
  names : Option (List String)

/-- What a request to change a file says. -/
structure UpdateBody where
  newPath : Option String
  description : Option String

/-- What a request for a share says. -/
structure ShareBody where
  path : String
  permissions : Permissions

/-- Names, or null for none. -/
def namesDecoder : Decoder (Option (List String)) := Decoder.optional (Decoder.list Decoder.string)

/-- A text, or null for none. -/
def textDecoder : Decoder (Option String) := Decoder.optional Decoder.string

/-- Reads what a request to move says. -/
def MoveBody.decoder : Decoder MoveBody := fun node => do
  let given ← Decoder.members
    [("destination", Decoder.check Decoder.string), ("names", Decoder.check namesDecoder)] node
  return ⟨← Decoder.required given "destination" Decoder.string,
    ← Decoder.defaulted given "names" namesDecoder none⟩

/-- Reads the names that a request to delete gives. -/
def deleteBodyDecoder : Decoder (Option (List String)) := fun node => do
  let given ← Decoder.members [("names", Decoder.check namesDecoder)] node
  Decoder.defaulted given "names" namesDecoder none

/-- Reads what a request to change a file says. -/
def UpdateBody.decoder : Decoder UpdateBody := fun node => do
  let given ← Decoder.members
    [("new_path", Decoder.check textDecoder), ("description", Decoder.check textDecoder)] node
  return ⟨← Decoder.defaulted given "new_path" textDecoder none,
    ← Decoder.defaulted given "description" textDecoder none⟩

/-- Reads what a request for a share says. -/
def ShareBody.decoder : Decoder ShareBody := fun node => do
  let given ← Decoder.members
    [("path", Decoder.check Decoder.string), ("permissions", Decoder.check Permissions.decoder)] node
  return ⟨← Decoder.required given "path" Decoder.string,
    ← Decoder.required given "permissions" Permissions.decoder⟩

/-- The largest body that has to be there, in bytes. -/
def requiredBodyLimit : Nat := 2 * 1024 * 1024

/-- The largest body that may be left out, in bytes. -/
def optionalBodyLimit : Nat := 1024 * 1024

/-- Reads a body that has to be there. -/
def readBody {α : Type} (decoder : Decoder α) (request : Request) : Except Rejection α := do
  if !(request.headerText? "content-type").any JsonType.announces then
    throw (.plain 415 "a content type of JSON is expected")
  if requiredBodyLimit < request.body.data.size then throw (.plain 413 "the body is too large")
  if request.body.failure.isSome then throw (.plain 400 "the body breaks off")
  match decodeStart decoder request.body.data with
  | .ok value => return value
  | .error .malformed => throw (.plain 400 "the body is not JSON")
  | .error .unfit => throw (.plain 422 "the body does not fit")

/-- Whether a byte is blank: a space, a tab, a line feed, a form feed or a carriage return. -/
def isBlankByte (b : UInt8) : Bool := b = 0x20 || b = 0x9 || b = 0xA || b = 0xC || b = 0xD

/-- Whether all bytes are blank. -/
def isBlankBody (data : ByteArray) : Bool := data.foldl (fun blank b => blank && isBlankByte b) true

/-- Reads a body that may be left out. -/
def readOptionalBody {α : Type} (decoder : Decoder α) (default : α) (request : Request) :
    Except Rejection α :=
  if optionalBodyLimit < request.body.data.size ∨ request.body.failure.isSome then
    .error (.api (.badRequest "could not read body"))
  else if isBlankBody request.body.data then .ok default
  else match decode decoder request.body.data with
    | .ok value => .ok value
    | .error _ => .error (.api (.badRequest "invalid JSON body"))

end FileDrive.Web
