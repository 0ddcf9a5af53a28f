import FileDrive.Capability

/-!
# Errors

What can go wrong, from the file system up to a request, and what a caller is told about it.
-/

namespace FileDrive

/-- Why an operation on files or streams of the machine failed. -/
inductive IoError where
  | notFound
  | alreadyExists
  | notDirectory
  | isDirectory
  | invalidArgument
  | fileTooLarge
  | nameTooLong
  | directoryNotEmpty
  | nulInName
  | invalidUtf8
  /-- A stream failed with a text of its own. -/
  | other (text : String)
  deriving DecidableEq, Repr

/-- The text of a failed operation on files or streams. -/
def IoError.message : IoError → String
  | notFound => "No such file or directory (os error 2)"
  | alreadyExists => "File exists (os error 17)"
  | notDirectory => "Not a directory (os error 20)"
  | isDirectory => "Is a directory (os error 21)"
  | invalidArgument => "Invalid argument (os error 22)"
  | fileTooLarge => "File too large (os error 27)"
  | nameTooLong => "File name too long (os error 36)"
  | directoryNotEmpty => "Directory not empty (os error 39)"
  | nulInName => "file name contained an unexpected NUL byte"
  | invalidUtf8 => "stream did not contain valid UTF-8"
  | other text => text

/-- Why an object store refused. -/
inductive StorageError where
  | notFound (path : String)
  | rangeNotSatisfiable (detail : String)
  | invalidPath (path : String)
  | sizeMismatch (path : String) (expected actual : Nat)
  | io (cause : IoError)
  | backend (detail : String)
  deriving DecidableEq, Repr

/-- The text of an object store's refusal. -/
def StorageError.message : StorageError → String
  | notFound path => "object not found: " ++ path
  | rangeNotSatisfiable detail => "range not satisfiable: " ++ detail
  | invalidPath path => "invalid object path: " ++ path
  | sizeMismatch path expected actual =>
    "size mismatch for " ++ path ++ ": expected " ++ toString expected ++ " bytes, got " ++
      toString actual
  | io cause => "I/O error: " ++ cause.message
  | backend detail => "storage backend error: " ++ detail

/-- Why a request to the drive failed. -/
inductive DriveError where
  | fileNotFound (path : String)
  | fileAlreadyExists (path : String)
  | userNotFound (id : String)
  /-- The session is unknown or has expired. -/
  | sessionNotFound
  | shareNotFound (id : String)
  /-- The caller does not hold a capability that the request needs. -/
  | unauthorized (path : String) (needed : Capability)
  | rangeNotSatisfiable (detail : String)
  | storage (cause : StorageError)
  | database (detail : String)
  | io (cause : IoError)
  | validation (detail : String)
  | config (detail : String)
  deriving DecidableEq, Repr

/-- The kinds of error that callers of the web interface tell apart. -/
inductive ErrorKind where
  | fileNotFound
  | fileAlreadyExists
  | userNotFound
  | sessionNotFound
  | shareNotFound
  | unauthorized
  | rangeNotSatisfiable
  | storageFailure
  | badRequest
  | internalError
  deriving DecidableEq, Repr

namespace ErrorKind

/-- The code of a kind in an error answer. -/
def code : ErrorKind → String
  | fileNotFound => "FILE_NOT_FOUND"
  | fileAlreadyExists => "FILE_ALREADY_EXISTS"
  | userNotFound => "USER_NOT_FOUND"
  | sessionNotFound => "SESSION_NOT_FOUND"
  | shareNotFound => "SHARE_NOT_FOUND"
  | unauthorized => "UNAUTHORIZED"
  | rangeNotSatisfiable => "RANGE_NOT_SATISFIABLE"
  | storageFailure => "STORAGE_FAILURE"
  | badRequest => "BAD_REQUEST"
  | internalError => "INTERNAL_ERROR"

/-- The title of a kind in a log line. -/
def title : ErrorKind → String
  | fileNotFound => "FileNotFound"
  | fileAlreadyExists => "FileAlreadyExists"
  | userNotFound => "UserNotFound"
  | sessionNotFound => "SessionNotFound"
  | shareNotFound => "ShareNotFound"
  | unauthorized => "Unauthorized"
  | rangeNotSatisfiable => "RangeNotSatisfiable"
  | storageFailure => "StorageFailure"
  | badRequest => "BadRequest"
  | internalError => "InternalError"

end ErrorKind

namespace DriveError

/-- The error of a request whose object store call was refused. -/
def ofStorage : StorageError → DriveError
  | .rangeNotSatisfiable detail => rangeNotSatisfiable detail
  | cause => storage cause

/-- The text of a failed request. -/
def message : DriveError → String
  | fileNotFound path => "file not found: " ++ path
  | fileAlreadyExists path => "file already exists: " ++ path
  | userNotFound id => "user not found: " ++ id
  | sessionNotFound => "session not found"
  | shareNotFound id => "share not found: " ++ id
  | unauthorized path needed => "missing " ++ needed.name ++ " permission on " ++ path
  | rangeNotSatisfiable detail => "range not satisfiable: " ++ detail
  | storage cause => "storage error: " ++ cause.message
  | database detail => "database error: " ++ detail
  | io cause => "I/O error: " ++ cause.message
  | validation detail => "validation error: " ++ detail
  | config detail => "configuration error: " ++ detail

/-- The kind of a failed request. -/
def kind : DriveError → ErrorKind
  | fileNotFound _ => .fileNotFound
  | fileAlreadyExists _ => .fileAlreadyExists
  | userNotFound _ => .userNotFound
  | sessionNotFound => .sessionNotFound
  | shareNotFound _ => .shareNotFound
  | unauthorized _ _ => .unauthorized
  | rangeNotSatisfiable _ => .rangeNotSatisfiable
  | storage _ => .storageFailure
  | validation _ => .badRequest
  | database _ | io _ | config _ => .internalError

/-- The status of the answer to a failed web request. -/
def status : DriveError → Nat
  | fileNotFound _ | userNotFound _ | shareNotFound _ | storage (.notFound _) => 404
  | fileAlreadyExists _ => 409
  | sessionNotFound => 401
  | unauthorized _ _ => 403
  | rangeNotSatisfiable _ => 416
  | validation _ => 400
  | storage _ | database _ | io _ | config _ => 500

/-- Whether the details of a failure stay on the server. -/
def isInternal (e : DriveError) : Bool := 500 ≤ e.status

/-- The path that a failure is about, where it is about one. -/
def path? : DriveError → Option String
  | fileNotFound path | fileAlreadyExists path | unauthorized path _ => some path
  | _ => none

end DriveError

end FileDrive
