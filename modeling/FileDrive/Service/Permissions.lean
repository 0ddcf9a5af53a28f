import FileDrive.Service.Basic

/-!
# Reading and replacing permission records
-/

namespace FileDrive.Service

variable {σ : Type}

/-- The records on exactly a path, for somebody who may read it. -/
def getPermissions (service : Service σ) (identity : Identity) (path : String) :
    DriveM σ (List PermissionRecord) := do
  let path := Path.normalize path
  service.authorize identity .read path
  DriveM.query (·.recordsAt path)

/-- Replaces the records on exactly a path, for somebody who may update permissions there. -/
def setPermissions (service : Service σ) (identity : Identity) (path : String)
    (records : List PermissionRecord) : DriveM σ (List PermissionRecord) := do
  let path := Path.normalize path
  service.authorize identity .updatePermissions path
  let records := records.map fun record => { record with path := Path.normalize record.path }
  DriveM.change (·.replaceRecords path records)
  DriveM.query (·.recordsAt path)

end FileDrive.Service
