import FileDrive.Error
import FileDrive.Range

/-!
# Object stores

An object store keeps the contents of files under their paths. What it keeps is a value of a type of
its own, and each call gives that value as it is afterwards, also when it fails.
-/

namespace FileDrive

/-- A stream of bytes, which may break off at its end. -/
structure ByteStream where
  data : ByteArray
  /-- Why the stream breaks off behind its data, if it does. -/
  failure : Option IoError := none

namespace ByteStream

/-- The stream without bytes. -/
def empty : ByteStream := ⟨ByteArray.empty, none⟩

/-- The bytes of a stream that can be read to its end. -/
def read (stream : ByteStream) : Except IoError ByteArray :=
  match stream.failure with
  | none => .ok stream.data
  | some failure => .error failure

end ByteStream

/-- The calls of an object store that keeps a value of type `σ`. -/
structure ObjectStore (σ : Type) where
  /-- Opens the object at a path, or a range of it. -/
  get : String → Option ByteRange → σ → Except StorageError ByteStream × σ
  /-- Stores a stream at a path, given the length and the content type it is declared to have. -/
  put : String → Nat → ByteStream → String → σ → Except StorageError Unit × σ
  /-- Moves the object at a path to another one. -/
  move : String → String → σ → Except StorageError Unit × σ
  /-- Takes out the object at a path. -/
  delete : String → σ → Except StorageError Unit × σ

/-- Which calls of a store are to fail before they do anything. -/
structure StoreFaults where
  put : Bool
  get : String → Bool
  /-- By the path that is moved from. -/
  move : String → Bool
  delete : String → Bool

namespace StoreFaults

/-- No call fails. -/
def none : StoreFaults := ⟨false, fun _ => false, fun _ => false, fun _ => false⟩

/-- The failure of a call that is to fail. -/
def injected (call : String) : StorageError := .backend ("injected " ++ call ++ " failure")

end StoreFaults

/-- The store whose calls fail where the faults say so. -/
def ObjectStore.withFaults {σ : Type} (store : ObjectStore σ) (faults : StoreFaults) :
    ObjectStore σ where
  get path range objects :=
    if faults.get path then (.error (StoreFaults.injected "get"), objects)
    else store.get path range objects
  put path size stream contentType objects :=
    if faults.put then (.error (StoreFaults.injected "put"), objects)
    else store.put path size stream contentType objects
  move source target objects :=
    if faults.move source then (.error (StoreFaults.injected "move"), objects)
    else store.move source target objects
  delete path objects :=
    if faults.delete path then (.error (StoreFaults.injected "delete"), objects)
    else store.delete path objects

end FileDrive
