import FileDrive.Settings
import FileDrive.Text.Quoted

/-!
# Settings in a log

The sections with secrets, written out for a log: every field by its name, and of a secret nothing
but its length in bytes.
-/

namespace FileDrive

/-- What a log shows in place of a secret: a star for each of its bytes. -/
def masked (secret : String) : String := "".pushn '*' secret.utf8ByteSize

/-- A record with its fields, written out. -/
def recordText (name : String) (fields : List (String × String)) : String :=
  name ++ " \x7b " ++
    String.intercalate ", " (fields.map fun (field, text) => field ++ ": " ++ text) ++ " \x7d"

/-- The name of a kind of database in a log. -/
def DatabaseKind.title : DatabaseKind → String
  | sqlite => "Sqlite"
  | postgres => "Postgres"

/-- The name of a kind of object store in a log. -/
def StorageKind.title : StorageKind → String
  | directory => "Local"
  | bucket => "S3"

/-- The section of the database, written out. -/
def DatabaseSettings.describe (settings : DatabaseSettings) : String :=
  recordText "DatabaseConfig"
    [("db_type", settings.kind.title),
      ("path", Text.inQuotes settings.path),
      ("host", Text.inQuotes settings.host),
      ("port", toString settings.port),
      ("username", Text.inQuotes settings.username),
      ("password", Text.inQuotes (masked settings.password)),
      ("database", Text.inQuotes settings.database),
      ("ssl_mode", Text.inQuotes settings.sslMode)]

/-- The section of the object store, written out. -/
def StorageSettings.describe (settings : StorageSettings) : String :=
  recordText "StorageConfig"
    [("storage_type", settings.kind.title),
      ("path", Text.inQuotes settings.path),
      ("endpoint", Text.inQuotes settings.endpoint),
      ("access_key_id", Text.inQuotes settings.accessKeyId),
      ("secret_access_key", Text.inQuotes (masked settings.secretAccessKey)),
      ("bucket", Text.inQuotes settings.bucket),
      ("region", Text.inQuotes settings.region),
      ("secure", toString settings.secure)]

end FileDrive
