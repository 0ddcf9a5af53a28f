/-!
# Identities

Who makes a request: somebody the identity provider vouches for, or the guest that stands for
every caller without a session.
-/

namespace FileDrive

/-- Who makes a request. -/
structure Identity where
  /-- The name that the identity provider knows the caller by; also the id of the user. -/
  subject : String
  username : String
  groups : List String
  email : String
  /-- The directory the caller lands in. -/
  home : String
  /-- Whether the caller has no session. Never read off the subject. -/
  isGuest : Bool
  deriving DecidableEq, Repr

namespace Identity

/-- The username of callers without a session. -/
def guestName : String := "guest"

/-- The identity of callers without a session, a member of one group. Its subject is empty, which
no identity provider issues. -/
def guest (group : String) : Identity :=
  { subject := "", username := guestName, groups := [group], email := "", home := "/",
    isGuest := true }

/-- Whether the caller is a member of a group. -/
def inGroup (identity : Identity) (group : String) : Bool := identity.groups.contains group

/-- Whether the caller has a session and the given subject. -/
def owns (identity : Identity) (subject : String) : Bool :=
  subject = identity.subject && !identity.isGuest

@[simp] theorem isGuest_guest (group : String) : (guest group).isGuest = true := rfl

@[simp] theorem owns_guest (group subject : String) : (guest group).owns subject = false := by
  simp [owns]

end Identity

end FileDrive
