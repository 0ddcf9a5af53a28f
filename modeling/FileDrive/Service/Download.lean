import FileDrive.Service.Basic

/-!
# Downloads
-/

namespace FileDrive

/-- A file that has been opened. -/
structure Download where
  file : File
  /-- The part of it that was asked for, when one was. -/
  range : Option ByteRange
  body : ByteStream

namespace Service

variable {σ : Type}

/-- Opens a stored file, or the part of it that a header asks for. -/
def openFile (service : Service σ) (file : File) (rangeHeader : Option String) :
    DriveM σ Download := do
  match RangeRequest.resolveHeader rangeHeader file.size.toNat with
  | .error detail => throw (.rangeNotSatisfiable detail)
  | .ok range =>
    let body ← DriveM.object (service.store.get file.path range)
    return { file, range, body }

/-- Opens the file at a path for somebody who may read it, or the part of it that a header asks
for. -/
def download (service : Service σ) (identity : Identity) (path : String)
    (rangeHeader : Option String) : DriveM σ Download := do
  let path ← filePath path
  service.authorize identity .read path
  let file ← DriveM.query (·.file path)
  service.openFile file rangeHeader

end Service

end FileDrive
