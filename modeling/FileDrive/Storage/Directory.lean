import FileDrive.Storage.Store
import FileDrive.Storage.Tree
import FileDrive.Text.Pieces

/-!
# Objects in a directory

A store that keeps its objects as files below a directory, each at the place that its path names. No
path leads out of the directory. Directories are made when an object needs them and taken out when
they have become empty.
-/

namespace FileDrive.Directory

open FileDrive.Text

/-- The place of an object: the names between the slashes of its path, those that are a single dot
left out. There is none when no name is left, or when one leads upwards. -/
def place (path : String) : Except StorageError Place :=
  let names := (pieces '/' path.toList).filter fun name => name ≠ [] && name ≠ ['.']
  if names = [] ∨ ['.', '.'] ∈ names then .error (.invalidPath path)
  else .ok (names.map String.ofList)

/-- The failure of a call on an object: what is missing is the object. -/
def failure (path : String) : IoError → StorageError
  | .notFound => .notFound path
  | cause => .io cause

/-- The bytes that the name of a temporary file has beyond that of its object. -/
def temporaryNameExtra : Nat := 39

/-- Whether a temporary file can be made for an object, its directory being there. -/
def temporaryFile (place : Place) : Except IoError Unit :=
  let name := place.getLastD ""
  if Tree.hasNul [name] then .error .nulInName
  else if Tree.longestName < name.utf8ByteSize + temporaryNameExtra then .error .nameTooLong
  else .ok ()

/-- The length that a range is checked against when it is asked of a directory. -/
def directoryLength : Nat := 4096

/-- Opens an object, or a range of it. -/
def get (path : String) (range : Option ByteRange) (tree : Tree) : Except StorageError ByteStream := do
  let place ← place path
  let (stream, length) ← match (tree.find place).mapError (failure path) with
    | .error e => throw e
    | .ok none => throw (.notFound path)
    | .ok (some (.file data)) => pure (⟨data, none⟩, data.size)
    | .ok (some .directory) => pure (⟨ByteArray.empty, some .isDirectory⟩, directoryLength)
  match range with
  | none => return stream
  | some range =>
    if length ≤ range.first then
      throw (.rangeNotSatisfiable
        (range.contentRange ++ " outside " ++ path ++ " of " ++ toString length ++ " bytes"))
    return { stream with data := range.slice stream.data }

/-- Writes a stream to an object whose directory and temporary file have been made. -/
def write (path : String) (place : Place) (size : Nat) (stream : ByteStream) (tree : Tree) :
    Except StorageError Tree := do
  if Tree.largestFile < stream.data.size then throw (.io .fileTooLarge)
  let data ← stream.read.mapError .io
  if data.size ≠ size then throw (.sizeMismatch path size data.size)
  (tree.writeFile place data).mapError .io

/-- Stores a stream at a path. It shows only when all of it has been written; when it has not, the
directories that are empty are taken out. -/
def put (path : String) (size : Nat) (stream : ByteStream) (tree : Tree) :
    Except StorageError Unit × Tree :=
  match place path with
  | .error e => (.error e, tree)
  | .ok place =>
    match tree.makeDirectories place.dropLast with
    | (.error e, tree) => (.error (.io e), tree)
    | (.ok (), tree) =>
      match temporaryFile place with
      | .error e => (.error (.io e), tree)
      | .ok () =>
        match write path place size stream tree with
        | .ok tree => (.ok (), tree)
        | .error e => (.error e, tree.cleanUp place.dropLast)

/-- Moves an object, and takes out the directories that it leaves empty. -/
def move (source target : String) (tree : Tree) : Except StorageError Unit × Tree :=
  match (return (← place source, ← place target) : Except StorageError (Place × Place)) with
  | .error e => (.error e, tree)
  | .ok (sourcePlace, targetPlace) =>
    match tree.makeDirectories targetPlace.dropLast with
    | (.error e, tree) => (.error (.io e), tree)
    | (.ok (), tree) =>
      match tree.rename sourcePlace targetPlace with
      | .error e => (.error (failure source e), tree)
      | .ok tree => (.ok (), tree.cleanUp sourcePlace.dropLast)

/-- Takes out an object, and the directories that it leaves empty. -/
def delete (path : String) (tree : Tree) : Except StorageError Unit × Tree :=
  match place path with
  | .error e => (.error e, tree)
  | .ok place =>
    match tree.removeFile place with
    | .error e => (.error (failure path e), tree)
    | .ok tree => (.ok (), tree.cleanUp place.dropLast)

/-- The store that keeps its objects as files below a directory. -/
def store : ObjectStore Tree where
  get path range tree := (get path range tree, tree)
  put path size stream _ tree := put path size stream tree
  move := move
  delete := delete

/-- Makes sure that the directory at a place is there, for a store to keep its objects in. -/
def prepare (place : Place) (tree : Tree) : Except StorageError Unit × Tree :=
  match tree.makeDirectories place with
  | (.ok (), tree) => (.ok (), tree)
  | (.error e, tree) => (.error (.io e), tree)

end FileDrive.Directory
