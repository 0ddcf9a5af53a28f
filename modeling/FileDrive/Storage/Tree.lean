import FileDrive.Error

/-!
# Directory trees

A tree of directories and files below a root, and the operations of a file system on it. A place in
the tree is the list of the names that lead to it. Each operation looks at the names from the root
on, and fails at the first one that it cannot pass.
-/

namespace FileDrive

/-- What is at a place in a tree. -/
inductive Entry where
  | file (data : ByteArray)
  | directory

/-- Whether an entry is a directory. -/
def Entry.isDirectory : Entry → Bool
  | directory => true
  | file _ => false

/-- The names that lead from the root of a tree to a place in it. -/
abbrev Place := List String

/-- A tree, by what is at each place but the root. Above everything there are directories. -/
structure Tree where
  entries : List (Place × Entry)

namespace Tree

/-- The tree with nothing below its root. -/
def empty : Tree := ⟨[]⟩

/-- What is at a place: a directory at the root. -/
def entry? (tree : Tree) (place : Place) : Option Entry :=
  if place = [] then some .directory else tree.entries.lookup place

/-- The tree with nothing at a place. -/
def erase (tree : Tree) (place : Place) : Tree := ⟨tree.entries.filter (·.1 ≠ place)⟩

/-- The tree with an entry at a place. -/
def insert (tree : Tree) (place : Place) (entry : Entry) : Tree :=
  ⟨(tree.erase place).entries ++ [(place, entry)]⟩

/-- Whether there is something below a place. -/
def hasBelow (tree : Tree) (place : Place) : Bool :=
  tree.entries.any fun (other, _) => place.isPrefixOf other && other ≠ place

/-- The longest name of a file or directory, in bytes. -/
def longestName : Nat := 255

/-- The size of the largest file, in bytes. -/
def largestFile : Nat := 0x7FFFFFFFFFFFFFFF

/-- Whether a name is longer than names can be. -/
def isTooLong (name : String) : Bool := longestName < name.utf8ByteSize

/-- Whether a name can be handed to the file system. -/
def hasNul (place : Place) : Bool := place.any fun name => name.toList.contains '\x00'

/-- What is at a place below a directory, which is passed through to get there. -/
def findBelow (tree : Tree) (above : Place) : Place → Except IoError (Option Entry)
  | [] => .ok (tree.entry? above)
  | name :: rest =>
    if isTooLong name then .error .nameTooLong
    else if rest = [] then .ok (tree.entry? (above ++ [name]))
    else match tree.entry? (above ++ [name]) with
      | none => .error .notFound
      | some (.file _) => .error .notDirectory
      | some .directory => findBelow tree (above ++ [name]) rest

/-- What is at a place, if the way to it is passable. -/
def find (tree : Tree) (place : Place) : Except IoError (Option Entry) :=
  if hasNul place then .error .nulInName else tree.findBelow [] place

/-- Makes directories below one that is there. Those made before a failure stay. -/
def makeDirectoriesBelow (tree : Tree) (above : Place) : Place → Except IoError Unit × Tree
  | [] => (.ok (), tree)
  | name :: rest =>
    if isTooLong name then (.error .nameTooLong, tree)
    else
      let here := above ++ [name]
      match tree.entry? here with
      | none => makeDirectoriesBelow (tree.insert here .directory) here rest
      | some .directory => makeDirectoriesBelow tree here rest
      | some (.file _) => (.error (if rest = [] then .alreadyExists else .notDirectory), tree)

/-- Makes the directory at a place and those above it, where they are missing. -/
def makeDirectories (tree : Tree) (place : Place) : Except IoError Unit × Tree :=
  if hasNul place then (.error .nulInName, tree) else tree.makeDirectoriesBelow [] place

/-- Takes out the empty directory at a place. -/
def removeDirectory (tree : Tree) (place : Place) : Except IoError Tree := do
  match ← tree.find place with
  | none => throw .notFound
  | some (.file _) => throw .notDirectory
  | some .directory => if tree.hasBelow place then throw .directoryNotEmpty else return tree.erase place

/-- Takes out the file at a place. -/
def removeFile (tree : Tree) (place : Place) : Except IoError Tree := do
  match ← tree.find place with
  | none => throw .notFound
  | some .directory => throw .isDirectory
  | some (.file _) => return tree.erase place

/-- Puts a file at a place, where nothing or a file is. -/
def writeFile (tree : Tree) (place : Place) (data : ByteArray) : Except IoError Tree := do
  match ← tree.find place with
  | some .directory => throw .isDirectory
  | _ => return tree.insert place (.file data)

/-- The place that lies from `target` as `place` lies from `source`. -/
def rerooted (source target place : Place) : Place :=
  if source.isPrefixOf place then target ++ place.drop source.length else place

/-- Gives what is at a place, and below it, another place. It takes the place of a file by a file
and of an empty directory by a directory. -/
def rename (tree : Tree) (source target : Place) : Except IoError Tree := do
  match ← tree.find source with
  | none => throw .notFound
  | some moved =>
    let replaced ← tree.find target
    if source = target then return tree
    if source.isPrefixOf target then throw .invalidArgument
    if target.isPrefixOf source then throw .directoryNotEmpty
    match moved, replaced with
    | .file _, some .directory => throw .isDirectory
    | .directory, some (.file _) => throw .notDirectory
    | _, _ =>
      if tree.hasBelow target then throw .directoryNotEmpty
      return ⟨(tree.erase target).entries.map fun (place, entry) =>
        (rerooted source target place, entry)⟩

/-- Takes out the directory at a place and those above it, the place being given from its last name
on, as long as they are empty. What is missing is passed over. The root stays. -/
def cleanUpwards (tree : Tree) : (reversed : List String) → Tree
  | [] => tree
  | name :: above =>
    match tree.removeDirectory (name :: above).reverse with
    | .ok tree => cleanUpwards tree above
    | .error .notFound => cleanUpwards tree above
    | .error _ => tree

/-- Takes out the directory at a place and those above it, as long as they are empty. -/
def cleanUp (tree : Tree) (place : Place) : Tree := tree.cleanUpwards place.reverse

end Tree

end FileDrive
