import FileDrive.Settings
import FileDrive.Text.Number
import FileDrive.Toml.Decoder
import FileDrive.Toml.Document

/-!
# Settings files

A settings file is a TOML document with a table for each section. Sections and settings may be
missing, and what is no setting is passed over.
-/

namespace FileDrive

open Toml.Decoder

/-- The bound of a port number. -/
def portBound : Nat := 0x10000

/-- The section of the server. -/
def ServerSettings.decoder : Toml.Decoder ServerSettings := fun v => do
  let given ← fields ["host", "port", "max_upload_size_mb"] v
  let base : ServerSettings := {}
  return {
    host := ← field given "host" string base.host
    port := ← field given "port" (natBelow portBound) base.port
    maxUploadSizeMb :=
      ← field given "max_upload_size_mb" (natBelow Text.wordBound) base.maxUploadSizeMb }

/-- The section of the database. -/
def DatabaseSettings.decoder : Toml.Decoder DatabaseSettings := fun v => do
  let given ← fields
    ["type", "path", "host", "port", "username", "password", "database", "ssl_mode"] v
  let base : DatabaseSettings := {}
  return {
    kind := ← field given "type" (named DatabaseKind.ofName?) base.kind
    path := ← field given "path" string base.path
    host := ← field given "host" string base.host
    port := ← field given "port" (natBelow portBound) base.port
    username := ← field given "username" string base.username
    password := ← field given "password" string base.password
    database := ← field given "database" string base.database
    sslMode := ← field given "ssl_mode" string base.sslMode }

/-- The section of the object store. -/
def StorageSettings.decoder : Toml.Decoder StorageSettings := fun v => do
  let given ← fields
    ["type", "path", "endpoint", "access_key_id", "secret_access_key", "bucket", "region",
      "secure"] v
  let base : StorageSettings := {}
  return {
    kind := ← field given "type" (named StorageKind.ofName?) base.kind
    path := ← field given "path" string base.path
    endpoint := ← field given "endpoint" string base.endpoint
    accessKeyId := ← field given "access_key_id" string base.accessKeyId
    secretAccessKey := ← field given "secret_access_key" string base.secretAccessKey
    bucket := ← field given "bucket" string base.bucket
    region := ← field given "region" string base.region
    secure := ← field given "secure" boolean base.secure }

/-- The section of access control. -/
def AccessSettings.decoder : Toml.Decoder AccessSettings := fun v => do
  let given ← fields
    ["enabled", "admin_group", "guest_group", "default_home", "session_ttl_secs"] v
  let base : AccessSettings := {}
  return {
    enabled := ← field given "enabled" boolean base.enabled
    adminGroup := ← field given "admin_group" string base.adminGroup
    guestGroup := ← field given "guest_group" string base.guestGroup
    defaultHome := ← field given "default_home" string base.defaultHome
    sessionSeconds :=
      ← field given "session_ttl_secs" (natBelow Text.wordBound) base.sessionSeconds }

/-- The section of the log. -/
def LogSettings.decoder : Toml.Decoder LogSettings := fun v => do
  let given ← fields ["level", "file"] v
  let base : LogSettings := {}
  return {
    level := ← field given "level" string base.level
    file := ← field given "file" string base.file }

namespace Settings

/-- The settings of a document. -/
def decoder : Toml.Decoder Settings := fun v => do
  let given ← fields ["server", "database", "storage", "auth", "logging"] v
  return {
    server := ← field given "server" ServerSettings.decoder {}
    database := ← field given "database" DatabaseSettings.decoder {}
    storage := ← field given "storage" StorageSettings.decoder {}
    access := ← field given "auth" AccessSettings.decoder {}
    log := ← field given "logging" LogSettings.decoder {} }

/-- The settings that the text of a file gives. -/
def parse (text : String) : Except DriveError Settings :=
  match (Toml.parse? text).bind decoder with
  | some settings => .ok settings
  | none => .error (.config "config parse error: no document of settings")

/-- The settings that the bytes of a file give, if there is a file. -/
def load (file : Option ByteArray) : Except DriveError Settings :=
  match file with
  | none => .error (.io .notFound)
  | some data =>
    match String.fromUTF8? data with
    | some text => parse text
    | none => .error (.io .invalidUtf8)

/-- The settings of a table without members are those of which none is given. -/
theorem decoder_empty : decoder (.table []) = some {} := rfl

end Settings

end FileDrive
