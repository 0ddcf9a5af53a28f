import FileDrive.Path
import FileDrive.Record

/-!
# Effective permissions

The records on a path and on every directory above it count together. A capability is held when
one of those about the caller allows it and none of them denies it.
-/

namespace FileDrive

/-- What records allow and deny to the caller: those about everyone and about groups, and apart from
them those about the caller alone. -/
structure Tally where
  groupAllow : Permissions
  groupDeny : Permissions
  userAllow : Permissions
  userDeny : Permissions

namespace Tally

/-- What no records allow and deny. -/
def zero : Tally := ⟨.none, .none, .none, .none⟩

/-- Counts a record as one about a group. -/
def addGroup (tally : Tally) (record : PermissionRecord) : Tally :=
  { tally with
    groupAllow := tally.groupAllow.add record.allow
    groupDeny := tally.groupDeny.add record.deny }

/-- Counts a record as one about the caller alone. -/
def addUser (tally : Tally) (record : PermissionRecord) : Tally :=
  { tally with
    userAllow := tally.userAllow.add record.allow
    userDeny := tally.userDeny.add record.deny }

/-- Counts one more record, if it is about the caller. -/
def count (identity : Identity) (tally : Tally) (record : PermissionRecord) : Tally :=
  match record.kind with
  | .everyone => tally.addGroup record
  | .group => if identity.inGroup record.principal then tally.addGroup record else tally
  | .user =>
    if !identity.isGuest && record.principal = identity.subject then tally.addUser record
    else tally

/-- All that is allowed. -/
def allowed (tally : Tally) : Permissions := tally.groupAllow.add tally.userAllow

/-- All that is denied. -/
def denied (tally : Tally) : Permissions := tally.groupDeny.add tally.userDeny

/-- All that is allowed, less all that is denied. -/
def result (tally : Tally) : Permissions := tally.allowed.remove tally.denied

end Tally

/-- What the records on the paths of `chain` give to the caller, counted path by path. -/
def granted (chain : List String) (records : List PermissionRecord) (identity : Identity) :
    Permissions :=
  (chain.foldl (fun tally level =>
    (records.filter (·.path = level)).foldl (Tally.count identity) tally) .zero).result

/-- Whether records are enforced, and who is exempt from them. -/
inductive Resolver where
  /-- Everybody holds every capability. -/
  | disabled
  /-- Records decide, except that a group holds every capability. -/
  | enforcing (adminGroup : String)
  deriving DecidableEq, Repr

namespace Resolver

/-- Whether the caller holds every capability everywhere. -/
def isAdmin : Resolver → Identity → Bool
  | disabled, _ => true
  | enforcing adminGroup, identity => identity.inGroup adminGroup

/-- The effective permissions of the caller on a path, given the owner of the file that is there
and a list of records. Records on other paths do not count. -/
def resolve (resolver : Resolver) (path : String) (identity : Identity) (owner : Option String)
    (records : List PermissionRecord) : Permissions :=
  if resolver.isAdmin identity then .all
  else if owner.any identity.owns then .all
  else granted (Path.ancestors path) records identity

end Resolver

end FileDrive
