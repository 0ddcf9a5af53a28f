import FileDrive.Storage.Bucket
import FileDrive.Storage.Directory

/-!
# The kinds of object store

Objects are kept in a directory or in a bucket, as the drive is set up.
-/

namespace FileDrive

/-- Where objects are kept. -/
inductive Storage where
  | directory (tree : Tree)
  | bucket (server : Bucket.Server)

namespace Storage

/-- Makes a call on whichever store there is. -/
def call {α : Type} (onTree : Tree → Except StorageError α × Tree)
    (onServer : Bucket.Server → Except StorageError α × Bucket.Server) :
    Storage → Except StorageError α × Storage
  | directory tree =>
    let (result, tree) := onTree tree
    (result, directory tree)
  | bucket server =>
    let (result, server) := onServer server
    (result, bucket server)

/-- The store that passes each call on to the one that there is. -/
def store : ObjectStore Storage where
  get path range := call (Directory.store.get path range) (Bucket.store.get path range)
  put path size stream contentType :=
    call (Directory.store.put path size stream contentType)
      (Bucket.store.put path size stream contentType)
  move source target :=
    call (Directory.store.move source target) (Bucket.store.move source target)
  delete path := call (Directory.store.delete path) (Bucket.store.delete path)

end Storage

end FileDrive
