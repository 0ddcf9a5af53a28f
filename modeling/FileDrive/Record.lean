import FileDrive.Capability
import FileDrive.Identity

/-!
# Permission records

A record attached to a path allows and denies capabilities to one principal: a user, a group, or
everyone.
-/

namespace FileDrive

/-- The kinds of principal that a record can be about. -/
inductive PrincipalKind where
  | user
  | group
  | everyone
  deriving DecidableEq, Repr

namespace PrincipalKind

/-- Every kind of principal. -/
def all : List PrincipalKind := [user, group, everyone]

/-- The name of a kind in requests, answers and stored rows. -/
def name : PrincipalKind → String
  | user => "user"
  | group => "group"
  | everyone => "everyone"

/-- The kind with a given name. -/
def ofName? (name : String) : Option PrincipalKind := all.find? (·.name = name)

/-- The message for a name that no kind has. -/
def unknown (name : String) : String := "unknown object type '" ++ name ++ "'"

/-- The kind with a given name, or the message that there is none. -/
def ofName (name : String) : Except String PrincipalKind :=
  match ofName? name with
  | some kind => .ok kind
  | none => .error (unknown name)

@[simp] theorem ofName?_name (k : PrincipalKind) : ofName? k.name = some k := by cases k <;> rfl

/-- The principal that is stored: there is one everyone, and it has no name. -/
def storedPrincipal (kind : PrincipalKind) (principal : String) : String :=
  if kind = everyone then "" else principal

@[simp] theorem storedPrincipal_everyone (principal : String) :
    storedPrincipal everyone principal = "" := rfl

end PrincipalKind

/-- What a path allows and denies to one principal. -/
structure PermissionRecord where
  path : String
  allow : Permissions
  deny : Permissions
  kind : PrincipalKind
  /-- A user's subject or a group's name; empty for everyone. -/
  principal : String
  deriving DecidableEq

namespace PermissionRecord

/-- A record about a user. -/
def user (path subject : String) (allow deny : Permissions) : PermissionRecord :=
  ⟨path, allow, deny, .user, subject⟩

/-- A record about a group. -/
def group (path name : String) (allow deny : Permissions) : PermissionRecord :=
  ⟨path, allow, deny, .group, name⟩

/-- A record about everyone. -/
def everyone (path : String) (allow deny : Permissions) : PermissionRecord :=
  ⟨path, allow, deny, .everyone, ""⟩

/-- Whether a record is about the caller. No record about a user is about a guest. -/
def appliesTo (record : PermissionRecord) (identity : Identity) : Bool :=
  match record.kind with
  | .everyone => true
  | .group => identity.inGroup record.principal
  | .user => !identity.isGuest && record.principal = identity.subject

end PermissionRecord

end FileDrive
