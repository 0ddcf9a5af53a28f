import FileDrive.Metadata.Database
import FileDrive.Settings
import FileDrive.Storage.Opening
import FileDrive.Text.Percent

/-!
# Database files

The metadata database of a drive is a file, which is made with all its tables when there is none.
Its path is part of an address, where percent signs start escapes and a question mark ends it.
-/

namespace FileDrive.Database

open Text

/-- The path of the file that an address with this path is about. No options are known that could
follow it. -/
def filePath (path : String) : Except DriveError String := do
  let (before, options) := (cutFirst '?' path.toList).getD (path.toList, [])
  if !options.isEmpty then throw (.database "unknown option of the database")
  match percentDecoded? (String.ofList before) with
  | some path => return path
  | none => throw (.database "the path of the database is no text")

/-- Opens the file of a database, the directory for it being there. -/
def openAt (path : String) (tree : Tree) : Except DriveError Tree := do
  (tree.openFile (← filePath path)).mapError fun _ => .database "unable to open the database file"

/-- Opens the database that the settings name. -/
def openFile (settings : DatabaseSettings) (tree : Tree) : Except DriveError Database × Tree :=
  if settings.kind ≠ .sqlite then
    (.error (.config "this build supports database.type = \"sqlite\" only"), tree)
  else match tree.prepareParent settings.path with
    | (.error e, tree) => (.error (.io e), tree)
    | (.ok (), tree) =>
      match openAt settings.path tree with
      | .error e => (.error e, tree)
      | .ok tree => (.ok empty, tree)

end FileDrive.Database
