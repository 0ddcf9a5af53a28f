/-!
# Values of TOML

The values that a TOML document is made of. The document itself is a table.
-/

namespace FileDrive.Toml

/-- A value of a document. -/
inductive Value where
  | string (text : String)
  | integer (n : Int)
  /-- A number that is not written as an integer. Which one it is does not matter: no setting is
  one. -/
  | float
  | boolean (b : Bool)
  /-- A date, a time of the day, or both. -/
  | moment
  | array (items : List Value)
  | table (members : List (String × Value))

/-- Whether a value is an array or a table with nothing in it. -/
def Value.isEmptyContainer : Value → Bool
  | array items => items.isEmpty
  | table members => members.isEmpty
  | _ => false

end FileDrive.Toml
