import FileDrive.Metadata.Files
import FileDrive.Storage.Store

/-!
# The drive

The state that requests work on: the metadata, the objects, a clock and a supply of random names. A
change of the metadata is prepared first and takes effect only when it is committed, after the object
store has done its part; what is not committed is as if it had never been. What a request did before
it failed stays.
-/

namespace FileDrive

open FileDrive.Time

/-- The state of a drive whose object store keeps a value of type `σ`. -/
structure Drive (σ : Type) where
  db : Database
  objects : σ
  /-- The latest time that the clock gave. -/
  clock : Timestamp
  /-- The number of random names that were drawn. -/
  drawn : Nat

/-- What a request does with a drive. -/
abbrev DriveM (σ : Type) := ExceptT DriveError (StateM (Drive σ))

namespace DriveM

variable {σ α : Type}

/-- The time, later each time it is asked for. -/
def now : DriveM σ Timestamp :=
  modifyGet fun drive => (drive.clock.next, { drive with clock := drive.clock.next })

/-- A random name out of a supply, a different one each time. -/
def draw (supply : Nat → String) : DriveM σ String :=
  modifyGet fun drive => (supply drive.drawn, { drive with drawn := drive.drawn + 1 })

/-- An answer from the metadata, or what it fails with. -/
def query (ask : Database → Except DriveError α) : DriveM σ α := do
  match ask (← get).db with
  | .ok answer => return answer
  | .error e => throw e

/-- Puts a prepared change of the metadata into effect. -/
def commit (db : Database) : DriveM σ Unit := modify ({ · with db })

/-- A change of the metadata that takes effect at once. -/
def change (prepare : Database → Except DriveError Database) : DriveM σ Unit := do
  commit (← query prepare)

/-- A call of the object store. -/
def object (call : σ → Except StorageError α × σ) : DriveM σ α := do
  let drive ← get
  let (result, objects) := call drive.objects
  set { drive with objects }
  match result with
  | .ok answer => return answer
  | .error e => throw (.ofStorage e)

/-- What an action comes to, its failure included. -/
def attempt (action : DriveM σ α) : DriveM σ (Except DriveError α) := ExceptT.lift action.run

end DriveM

end FileDrive
