import FileDrive.Text.Pieces

/-!
# Paths

A path names a place in the drive: the root `/`, or segments with a slash before each. Directories
are implicit, a path being a directory when some stored file lies below it. Requests spell paths
freely; `normalize` gives the one canonical spelling that is stored.
-/

namespace FileDrive.Path

open FileDrive.Text

/-- The root path. -/
def root : String := "/"

/-- The segments that a text between slashes leaves on the stack of those before it, the last
one on top: nothing for the empty text and `.`, one less for `..`, one more otherwise. -/
def push (stack : List (List Char)) (segment : List Char) : List (List Char) :=
  if segment = [] ∨ segment = ['.'] then stack
  else if segment = ['.', '.'] then stack.tail
  else segment :: stack

/-- The segments that a text resolves to, `..` never climbing above the root. -/
def resolve (s : List Char) : List (List Char) :=
  ((pieces '/' s).foldl push []).reverse

/-- Segments, each with a slash before it. -/
def spell (segments : List (List Char)) : List Char := segments.flatMap ('/' :: ·)

/-- The path with the given segments: the root when there are none. -/
def ofSegments (segments : List (List Char)) : String :=
  if segments = [] then root else String.ofList (spell segments)

/-- The canonical spelling of a path: repeated slashes are one, `.` and `..` are resolved, there
is a slash in front and none at the end. -/
def normalize (path : String) : String := ofSegments (resolve path.toList)

/-- The non-empty texts between the slashes of a path. -/
def segments (path : String) : List (List Char) := (pieces '/' path.toList).filter (· ≠ [])

/-- A segment of a canonical path. -/
def IsSegment (s : List Char) : Prop := s ≠ [] ∧ s ≠ ['.'] ∧ s ≠ ['.', '.'] ∧ '/' ∉ s

/-- A path in its canonical spelling. -/
def Canonical (path : String) : Prop :=
  ∃ segs : List (List Char), (∀ s ∈ segs, IsSegment s) ∧ path = ofSegments segs

/-- The paths that the first one, two, … of the segments spell behind `above`. -/
def chain (above : List Char) : List (List Char) → List String
  | [] => []
  | s :: rest =>
    let here := above ++ '/' :: s
    String.ofList here :: chain here rest

/-- The root, then one segment more at a time, up to the path itself. -/
def ancestors (path : String) : List String := root :: chain [] (segments path)

/-- The directory that holds a path. The root holds itself. -/
def parent (path : String) : String :=
  match (path.toList.reverse.dropWhile (· ≠ '/')).reverse.dropLast with
  | [] => root
  | above => String.ofList above

/-- What stands behind the last slash; the whole path when it has none. -/
def fileName (path : String) : String :=
  String.ofList (path.toList.reverse.takeWhile (· ≠ '/')).reverse

/-- The path of a name in a directory, in canonical spelling. -/
def join (dir name : String) : String := normalize (dir ++ "/" ++ name)

/-- The text that every path below `dir` starts with. -/
def stem (dir : String) : String := if dir = root then root else dir ++ "/"

/-- Whether `path` lies strictly below `dir`. -/
def isBelow (path dir : String) : Bool :=
  path ≠ dir && (stem dir).toList.isPrefixOf path.toList

/-- What stands behind the stem of `dir` in a path below it. -/
def tailBelow (path dir : String) : List Char := path.toList.drop (stem dir).toList.length

/-- The name of the entry of `dir` that is or holds `path`. -/
def entryBelow (path dir : String) : Option String :=
  if isBelow path dir then
    match (tailBelow path dir).takeWhile (· ≠ '/') with
    | [] => none
    | name => some (String.ofList name)
  else none

/-- The path that lies from `target` as `path` lies from `source`; `none` when `path` is neither
`source` nor below it. -/
def rebase (path source target : String) : Option String :=
  if path = source then some target
  else if isBelow path source then some (join target (String.ofList (tailBelow path source)))
  else none

@[simp] theorem ofSegments_nil : ofSegments [] = root := rfl

@[simp] theorem rebase_self (source target : String) : rebase source source target = some target := by
  simp [rebase]

@[simp] theorem isBelow_self (path : String) : isBelow path path = false := by simp [isBelow]

end FileDrive.Path
