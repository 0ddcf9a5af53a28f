import FileDrive.Path
import FileDrive.Storage.Tree

/-!
# Opening files

A program that keeps a file of its own makes the directory for it when that is missing, and then
opens the file, which is made when there is none.
-/

namespace FileDrive.Tree

/-- The place below the root that a path leads to. -/
def placeOf (path : String) : Place := (Path.resolve path.toList).map String.ofList

/-- Makes sure that there is something at the place above a path, where the directory for a file
should be. -/
def prepareParent (tree : Tree) (path : String) : Except IoError Unit × Tree :=
  let parent := (placeOf path).dropLast
  match tree.find parent with
  | .ok (some _) => (.ok (), tree)
  | _ => tree.makeDirectories parent

/-- Opens the file at a path for writing, which is made when there is none. -/
def openFile (tree : Tree) (path : String) : Except IoError Tree := do
  let place := placeOf path
  match ← tree.find place with
  | some .directory => throw .isDirectory
  | some (.file _) => if path.endsWith "/" then throw .notDirectory else return tree
  | none =>
    if path.endsWith "/" then throw .isDirectory
    else return tree.insert place (.file ByteArray.empty)

end FileDrive.Tree
