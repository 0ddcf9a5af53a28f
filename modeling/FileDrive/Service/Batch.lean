import FileDrive.Service.Basic

/-!
# Moving and deleting

A single file is moved or deleted as a whole or not at all. Of the files below a directory as many
as possible are; each of the others is reported with the reason why it was not.
-/

namespace FileDrive

/-- A file that was passed over, and why. -/
structure BatchWarning where
  path : String
  message : String
  deriving DecidableEq, Repr

/-- What came of moving or deleting files. -/
structure BatchReport where
  /-- The paths that files were moved to or deleted from. -/
  succeeded : List String
  warnings : List BatchWarning
  deriving DecidableEq, Repr

namespace BatchReport

/-- Whether no file was passed over. -/
def isComplete (report : BatchReport) : Bool := report.warnings.isEmpty

end BatchReport

namespace Service

variable {σ : Type}

/-- The files whose entry of a directory is one of some names; all of them when no names are
given. -/
def select (files : List File) (dir : String) (names : Option (List String)) : List File :=
  match names with
  | none | some [] => files
  | some names => files.filter fun file => (Path.entryBelow file.path dir).any names.contains

/-- Whether the files found for a path are the one file at it. -/
def isSingle (files : List File) (path : String) : Bool :=
  match files with
  | [file] => file.path = path
  | _ => false

/-- Does something with each of some files, and reports what came of it: what a file is to be
reported as when it went well, and the error for its path when it did not. -/
def each {α : Type} (act : α → DriveM σ Unit) (path result : α → String) :
    List α → DriveM σ BatchReport
  | [] => return ⟨[], []⟩
  | item :: rest => do
    let outcome ← DriveM.attempt (act item)
    let report ← each act path result rest
    match outcome with
    | .ok () => return { report with succeeded := result item :: report.succeeded }
    | .error e => return { report with warnings := ⟨path item, e.message⟩ :: report.warnings }

/-- Moves a file, its row and its object. -/
def relocate (service : Service σ) (source target : String) : DriveM σ Unit := do
  let now ← DriveM.now
  let prepared ← DriveM.query (·.moveFile now source target)
  DriveM.object (service.store.move source target)
  DriveM.commit prepared

/-- Moves one file for somebody who may update it and create at its new path. -/
def moveOne (service : Service σ) (identity : Identity) (source target : String) :
    DriveM σ Unit := do
  service.authorize identity .update source
  DriveM.query (checkPlacement target)
  service.authorize identity .create target
  service.relocate source target

/-- A file of a directory that is being moved: its path, its new path, and what the caller holds on
each. -/
structure MoveItem where
  source : String
  target : String
  heldSource : Permissions
  heldTarget : Permissions

/-- Moves one file of a directory. -/
def moveItem (service : Service σ) (item : MoveItem) : DriveM σ Unit := do
  require item.heldSource .update item.source
  require item.heldTarget .create item.target
  DriveM.query (checkPlacement item.target)
  service.relocate item.source item.target

/-- Moves a file, or files below a directory, to another path. With names, only the files in the
entries of those names. -/
def movePath (service : Service σ) (identity : Identity) (source target : String)
    (names : Option (List String)) : DriveM σ BatchReport := do
  let source := Path.normalize source
  let target := Path.normalize target
  if source = target ∨ Path.isBelow target source then
    throw (.validation ("cannot move " ++ source ++ " into " ++ target))
  let found ← DriveM.query (·.filesAt source)
  if isSingle found source then
    let target ← filePath target
    service.moveOne identity source target
    return ⟨[target], []⟩
  let selected := select found source names
  if selected.isEmpty then throw (.fileNotFound source)
  let targets := selected.map fun file => (Path.rebase file.path source target).getD file.path
  let sources ← DriveM.query (service.resolver.onFiles · selected identity)
  let targets ← DriveM.query (service.resolver.onPaths · targets identity)
  let items := sources.zipWith
    (fun (file, held) (target, heldTarget) => MoveItem.mk file.path target held heldTarget) targets
  each service.moveItem (·.source) (·.target) items

/-- Deletes a file, its row and its object. An object that is missing already is passed over. -/
def remove (service : Service σ) (path : String) : DriveM σ Unit := do
  let prepared ← DriveM.query (·.deleteFile path)
  match ← DriveM.attempt (DriveM.object (service.store.delete path)) with
  | .ok () | .error (.storage (.notFound _)) => DriveM.commit prepared
  | .error e => throw e

/-- Deletes one file of a directory, given what the caller holds on it. -/
def deleteItem (service : Service σ) (item : File × Permissions) : DriveM σ Unit := do
  require item.2 .delete item.1.path
  service.remove item.1.path

/-- Deletes a file, or files below a directory. With names, only the files in the entries of those
names; without, the root cannot be deleted. -/
def deletePath (service : Service σ) (identity : Identity) (path : String)
    (names : Option (List String)) : DriveM σ BatchReport := do
  let path := Path.normalize path
  if path = Path.root ∧ names.all (·.isEmpty) then
    throw (.validation "deleting from the root needs a list of names")
  let found ← DriveM.query (·.filesAt path)
  if isSingle found path then
    service.authorize identity .delete path
    service.remove path
    return ⟨[path], []⟩
  let selected := select found path names
  if selected.isEmpty then throw (.fileNotFound path)
  let permitted ← DriveM.query (service.resolver.onFiles · selected identity)
  each service.deleteItem (·.1.path) (·.1.path) permitted

end Service

end FileDrive
