import FileDrive.Text.Percent
import FileDrive.Text.Pieces
import FileDrive.Text.Utf8

/-!
# Query strings

The names and values that the query of an address holds, and reading flags and texts among them. A
known name that comes twice, or a flag that is neither true nor false, spoils the query.
-/

namespace FileDrive.Web

namespace Query

open FileDrive.Text

/-- The text that a part of a query stands for: a plus sign is a space, then escapes are read. -/
def decoded (part : List Char) : String :=
  let spaced := String.ofList (part.map fun c => if c = '+' then ' ' else c)
  lossyText (percentDecode spaced.toUTF8.toList)

/-- The name and the value of one part; the value is empty without an equals sign. -/
def pair (part : List Char) : String × String :=
  match cutFirst '=' part with
  | some (name, value) => (decoded name, decoded value)
  | none => (decoded part, "")

/-- The names and values of a query, in order. -/
def pairs (query : String) : List (String × String) :=
  ((pieces '&' query.toList).filter (· ≠ [])).map pair

/-- The value of a name, which may not come twice; none for a spoilt query. -/
def value? (given : List (String × String)) (name : String) : Option (Option String) :=
  match given.filter (·.1 = name) with
  | [] => some none
  | [(_, value)] => some (some value)
  | _ => none

/-- The flag of a name, false when the name is missing. -/
def flag? (given : List (String × String)) (name : String) : Option Bool := do
  match ← value? given name with
  | none => some false
  | some "true" => some true
  | some "false" => some false
  | some _ => none

end Query

/-- What a query says on getting a file. -/
structure GetQuery where
  /-- Whether the file is to be saved rather than shown. -/
  download : Bool
  /-- Whether a listing is wanted even of a file. -/
  list : Bool

/-- Reads the query on getting a file. -/
def GetQuery.ofQuery? (query : String) : Option GetQuery := do
  let given := Query.pairs query
  return ⟨← Query.flag? given "download", ← Query.flag? given "list"⟩

/-- What a query says on putting a file. -/
structure UploadQuery where
  description : Option String
  overwrite : Bool

/-- Reads the query on putting a file. -/
def UploadQuery.ofQuery? (query : String) : Option UploadQuery := do
  let given := Query.pairs query
  return ⟨← Query.value? given "description", ← Query.flag? given "overwrite"⟩

/-- What a query says on changing a file. -/
structure UpdateQuery where
  /-- Whether the body is new content. -/
  replace : Bool
  newPath : Option String
  description : Option String

/-- Reads the query on changing a file. -/
def UpdateQuery.ofQuery? (query : String) : Option UpdateQuery := do
  let given := Query.pairs query
  return ⟨← Query.flag? given "replace", ← Query.value? given "new_path",
    ← Query.value? given "description"⟩

end FileDrive.Web
