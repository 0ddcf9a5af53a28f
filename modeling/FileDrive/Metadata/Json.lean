import FileDrive.Metadata.Row
import FileDrive.Record.Json
import FileDrive.Time.Printer

/-!
# Files and shares in JSON
-/

namespace FileDrive

open FileDrive.Json

/-- The members of a file as answers show it. -/
def File.members (file : File) : List (String × Value) := [
  ("path", .str file.path),
  ("size", .num file.size),
  ("content_type", .str file.contentType),
  ("description", .str file.description),
  ("owner_id", .str file.ownerId),
  ("owner_name", .ofOption .str file.ownerName),
  ("created_at", .str file.createdAt.answered),
  ("updated_at", .str file.updatedAt.answered)]

/-- A file as answers show it. -/
def File.toJson (file : File) : Value := .obj file.members

/-- A share as answers show it. -/
def Share.toJson (share : Share) : Value :=
  .obj [
    ("id", .str share.id),
    ("path", .str share.path),
    ("permissions", share.permissions.toJson),
    ("user_id", .str share.userId),
    ("created_at", .str share.createdAt.answered)]

end FileDrive
