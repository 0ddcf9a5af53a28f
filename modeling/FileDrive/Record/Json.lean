import FileDrive.Json.Decoder
import FileDrive.Json.Value
import FileDrive.Record

/-!
# Capabilities, identities and records in JSON

A set of capabilities is an array of names. A record is an object; a reader also takes an array of
its fields in order.
-/

namespace FileDrive

open FileDrive.Json

namespace Permissions

/-- The array of the names in a set. -/
def toJson (p : Permissions) : Value := .ofStrings p.names

/-- One name of a capability. -/
def decodeName : Decoder Capability := fun node => do
  let name ← Decoder.string node
  (Capability.ofName? name).elim (.error .unfit) .ok

/-- An array of names, each of a capability. -/
def decoder : Decoder Permissions := fun node => ofList <$> Decoder.list decodeName node

end Permissions

/-- The name of a kind of principal. -/
def PrincipalKind.decoder : Decoder PrincipalKind := Decoder.named PrincipalKind.ofName?

/-- An identity as answers show it, with more members behind its own. -/
def Identity.toJsonWith (identity : Identity) (more : List (String × Value)) : Value :=
  .obj ([
    ("subject", .str identity.subject),
    ("username", .str identity.username),
    ("groups", .ofStrings identity.groups),
    ("email", .str identity.email),
    ("home", .str identity.home)] ++ more)

/-- An identity as answers show it. -/
def Identity.toJson (identity : Identity) : Value := identity.toJsonWith []

namespace PermissionRecord

/-- A record as answers show it. -/
def toJson (record : PermissionRecord) : Value :=
  .obj [
    ("path", .str record.path),
    ("allow", record.allow.toJson),
    ("deny", record.deny.toJson),
    ("object_type", .str record.kind.name),
    ("object_id", .str record.principal)]

/-- The fields of a record but for its path. -/
def entryFields : Decoder.Fields :=
  [("allow", Decoder.check Permissions.decoder), ("deny", Decoder.check Permissions.decoder),
    ("object_type", Decoder.check PrincipalKind.decoder),
    ("object_id", Decoder.check Decoder.string)]

/-- The record on a path with the values that a document gives to its other fields. -/
def ofMembers (path : String) (given : List (String × Node)) :
    Except DecodeError PermissionRecord := do
  return {
    path := path
    allow := ← Decoder.defaulted given "allow" Permissions.decoder .none
    deny := ← Decoder.defaulted given "deny" Permissions.decoder .none
    kind := ← Decoder.required given "object_type" PrincipalKind.decoder
    principal := ← Decoder.defaulted given "object_id" Decoder.string "" }

/-- A record on a path that is known from elsewhere. -/
def entryDecoder (path : String) : Decoder PermissionRecord := fun node => do
  ofMembers path (← Decoder.members entryFields node)

/-- A record with its path. -/
def decoder : Decoder PermissionRecord := fun node => do
  let given ← Decoder.members (("path", Decoder.check Decoder.string) :: entryFields) node
  ofMembers (← Decoder.required given "path" Decoder.string) given

end PermissionRecord

end FileDrive
