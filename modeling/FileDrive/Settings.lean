import FileDrive.Error
import FileDrive.Text.Percent

/-!
# Settings

What an operator can set, in five sections, with the value of each setting that is not given, and
the rules that settings have to keep.
-/

namespace FileDrive

/-- Where the server listens and how much it takes. -/
structure ServerSettings where
  host : String := "0.0.0.0"
  port : Nat := 8080
  /-- The greatest size of an upload in megabytes; zero for any. -/
  maxUploadSizeMb : Nat := 0

/-- The kinds of database. -/
inductive DatabaseKind where
  | sqlite
  | postgres
  deriving DecidableEq, Repr

namespace DatabaseKind

/-- Every kind of database. -/
def all : List DatabaseKind := [sqlite, postgres]

/-- The name of a kind of database in a settings file. -/
def name : DatabaseKind → String
  | sqlite => "sqlite"
  | postgres => "postgres"

/-- The kind of database with a name. -/
def ofName? (s : String) : Option DatabaseKind := all.find? fun kind => kind.name = s

@[simp] theorem ofName?_name (kind : DatabaseKind) : ofName? kind.name = some kind := by
  cases kind <;> rfl

end DatabaseKind

/-- Where the metadata is kept. -/
structure DatabaseSettings where
  kind : DatabaseKind := .sqlite
  /-- The file of a database that is one. -/
  path : String := "data/driveshed.db"
  host : String := "localhost"
  port : Nat := 5432
  username : String := ""
  password : String := ""
  /-- The name of the database on its server. -/
  database : String := "driveshed"
  sslMode : String := "disable"

/-- The address at which a database is opened. -/
def DatabaseSettings.address (settings : DatabaseSettings) : String :=
  match settings.kind with
  | .sqlite => "sqlite://" ++ settings.path
  | .postgres =>
    "postgres://" ++ Text.percentEncode settings.username ++ ":" ++
      Text.percentEncode settings.password ++ "@" ++ settings.host ++ ":" ++
      toString settings.port ++ "/" ++ settings.database ++ "?sslmode=" ++ settings.sslMode

/-- The kinds of object store. -/
inductive StorageKind where
  /-- The files below a directory. -/
  | directory
  /-- A bucket of a server. -/
  | bucket
  deriving DecidableEq, Repr

namespace StorageKind

/-- Every kind of object store. -/
def all : List StorageKind := [directory, bucket]

/-- The name of a kind of object store in a settings file. -/
def name : StorageKind → String
  | directory => "local"
  | bucket => "s3"

/-- The kind of object store with a name. -/
def ofName? (s : String) : Option StorageKind := all.find? fun kind => kind.name = s

@[simp] theorem ofName?_name (kind : StorageKind) : ofName? kind.name = some kind := by
  cases kind <;> rfl

end StorageKind

/-- Where the objects are kept. -/
structure StorageSettings where
  kind : StorageKind := .directory
  /-- The directory of a store that is one. -/
  path : String := "data/files"
  endpoint : String := ""
  accessKeyId : String := ""
  secretAccessKey : String := ""
  bucket : String := "driveshed"
  region : String := "us-east-1"
  /-- Whether an endpoint without a scheme is spoken to over an encrypted connection. -/
  secure : Bool := false

/-- Who may do what, and for how long a login lasts. -/
structure AccessSettings where
  /-- Whether permission records are enforced. -/
  enabled : Bool := true
  adminGroup : String := "admin"
  guestGroup : String := "guest"
  defaultHome : String := "/"
  sessionSeconds : Nat := 604800

/-- What is logged, and where. -/
structure LogSettings where
  level : String := "info"
  file : String := "logs/driveshed.log"

/-- What an operator can set. -/
structure Settings where
  server : ServerSettings := {}
  database : DatabaseSettings := {}
  storage : StorageSettings := {}
  access : AccessSettings := {}
  log : LogSettings := {}

namespace Settings

/-- The longest time that a login may last, in seconds: a year. -/
def longestSession : Nat := 365 * 24 * 60 * 60

/-- The first rule that settings break, if they break one. -/
def fault? (settings : Settings) : Option String :=
  let storage := settings.storage
  if storage.kind = .directory ∧ storage.path = "" then
    some "storage.path must be set for local storage"
  else if storage.kind = .bucket ∧ (storage.endpoint = "" ∨ storage.bucket = "") then
    some "storage.endpoint and storage.bucket must be set for s3 storage"
  else if settings.database.kind = .sqlite ∧ settings.database.path = "" then
    some "database.path must be set for sqlite"
  else if settings.access.sessionSeconds = 0 ∨ longestSession < settings.access.sessionSeconds then
    some ("auth.session_ttl_secs must be between 1 and " ++ toString longestSession)
  else if settings.access.enabled ∧ settings.access.adminGroup = "" then
    some "auth.admin_group must not be empty when access control is enabled"
  else none

/-- Fails at the first rule that settings break. -/
def validate (settings : Settings) : Except DriveError Unit :=
  match settings.fault? with
  | some detail => .error (.config detail)
  | none => .ok ()

/-- The settings with the secrets that the environment gives. An empty one is none. -/
def withEnvironment (environment : String → Option String) (settings : Settings) : Settings :=
  let given (name old : String) : String :=
    match environment name with
    | some secret => if secret = "" then old else secret
    | none => old
  { settings with
    database.password := given "DRIVESHED_DATABASE_PASSWORD" settings.database.password
    storage.secretAccessKey :=
      given "DRIVESHED_S3_SECRET_ACCESS_KEY" settings.storage.secretAccessKey }

/-- Settings of which none is given keep the rules. -/
theorem fault?_default : fault? {} = none := by decide

/-- An environment without the variables changes nothing. -/
@[simp] theorem withEnvironment_none (settings : Settings) :
    settings.withEnvironment (fun _ => none) = settings := rfl

end Settings

end FileDrive
