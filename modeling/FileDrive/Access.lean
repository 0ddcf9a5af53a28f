import FileDrive.Metadata.Files
import FileDrive.Metadata.Records
import FileDrive.Resolver

/-!
# Effective permissions from the metadata

The same capabilities whether they are asked for one path, for files that have been read already, or
for paths that hold no file.
-/

namespace FileDrive.Resolver

/-- The effective permissions on a path. -/
def onPath (resolver : Resolver) (db : Database) (path : String) (identity : Identity) :
    Except DriveError Permissions :=
  if resolver.isAdmin identity then .ok .all
  else do
    if (← db.ownerOf path).any identity.owns then return .all
    let records ← db.recordsOn (Path.ancestors path)
    return granted (Path.ancestors path) records identity

/-- Every path that is one of some paths or above one of them, once. -/
def chains (paths : List String) : List String := (paths.flatMap Path.ancestors).eraseDups

/-- The effective permissions on each of some files, in their order. -/
def onFiles (resolver : Resolver) (db : Database) (files : List File) (identity : Identity) :
    Except DriveError (List (File × Permissions)) :=
  if resolver.isAdmin identity then .ok (files.map (·, .all))
  else do
    let records ← db.recordsOn (chains (files.map (·.path)))
    return files.map fun file =>
      (file, resolver.resolve file.path identity (some file.ownerId) records)

/-- The effective permissions on each of some paths that hold no file, in their order. -/
def onPaths (resolver : Resolver) (db : Database) (paths : List String) (identity : Identity) :
    Except DriveError (List (String × Permissions)) :=
  if resolver.isAdmin identity then .ok (paths.map (·, .all))
  else do
    let records ← db.recordsOn (chains paths)
    return paths.map fun path => (path, resolver.resolve path identity none records)

end FileDrive.Resolver
