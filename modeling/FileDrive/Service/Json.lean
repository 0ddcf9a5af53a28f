import FileDrive.Metadata.Json
import FileDrive.Service.Batch
import FileDrive.Service.Listing
import FileDrive.Service.Shares

/-!
# What the file service gives, in JSON
-/

namespace FileDrive

open FileDrive.Json

/-- A file of a listing as answers show it. -/
def FileEntry.toJson (entry : FileEntry) : Value :=
  .obj (entry.file.members ++ [("permissions", entry.permissions.toJson)])

/-- A summary of an entry as answers show it. -/
def DirEntry.toJson (entry : DirEntry) : Value :=
  .obj [
    ("name", .str entry.name),
    ("path", .str entry.path),
    ("is_dir", .bool entry.isDirectory),
    ("size", .num entry.size),
    ("file_count", .num entry.fileCount),
    ("updated_at", .str entry.updatedAt.answered)]

/-- A listing as answers show it. -/
def Listing.toJson (listing : Listing) : Value :=
  .obj [
    ("path", .str listing.path),
    ("entries", .arr (listing.entries.map (·.toJson))),
    ("files", .arr (listing.files.map (·.toJson)))]

/-- A report as answers show it. -/
def BatchReport.toJson (report : BatchReport) : Value :=
  .obj [
    ("succeeded", .ofStrings report.succeeded),
    ("warnings", .arr (report.warnings.map fun warning =>
      .obj [("path", .str warning.path), ("message", .str warning.message)]))]

/-- A share and its files as answers show them. -/
def SharedFiles.toJson (shared : SharedFiles) : Value :=
  .obj [("share", shared.share.toJson), ("files", .arr (shared.files.map (·.toJson)))]

end FileDrive
