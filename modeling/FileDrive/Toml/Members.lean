import FileDrive.Toml.Value

/-!
# Tables of TOML being made

What a document has put into its tables so far. No key is given twice. A table that a header has
named is complete with its section; one that only stands above others may still be named, and one
that dotted keys have made may get more of those.
-/

namespace FileDrive.Toml

/-- How a table has come to be. -/
inductive Making where
  /-- By a header. -/
  | named
  /-- As one above a table that a header has named. -/
  | implied
  /-- By dotted keys. -/
  | dotted
  deriving DecidableEq, Repr

/-- What is at a key. -/
inductive Item where
  | value (v : Value)
  | table (making : Making) (members : List (String × Item))
  /-- An array of tables that headers have named, the latest first. -/
  | tables (last : List (String × Item)) (before : List (List (String × Item)))

/-- The keys of a table and what is at them. -/
abbrev Members := List (String × Item)

namespace Members

/-- The members with what `f` makes of what is at a key. -/
def alter (key : String) (f : Option Item → Option Item) : Members → Option Members
  | [] => (f none).map fun item => [(key, item)]
  | (k, item) :: rest =>
    if k = key then (f (some item)).map fun item => (k, item) :: rest
    else (alter key f rest).map ((k, item) :: ·)

/-- The members with a value at a dotted key, `path` being its parts but the last. Neither the key
nor a table with a name of its own may be there. -/
def assign (key : String) (v : Value) : (path : List String) → Members → Option Members
  | [] => alter key fun item => if item.isSome then none else some (.value v)
  | first :: path => alter first fun
    | none => (assign key v path []).map (.table .dotted)
    | some (.value _) => none
    | some (.table making members) =>
      if making = .named ∨ (path = [] ∧ making ≠ .dotted) then none
      else (assign key v path members).map (.table making)
    | some (.tables last before) =>
      if path = [] then none else (assign key v path last).map (.tables · before)

/-- The members with what `f` makes of those of the table at a path, which is made if it is
missing. Of an array of tables the latest is meant. -/
def within (f : Members → Option Members) : (path : List String) → Members → Option Members
  | [] => f
  | first :: path => alter first fun
    | none => (within f path []).map (.table .implied)
    | some (.value _) => none
    | some (.table making members) => (within f path members).map (.table making)
    | some (.tables last before) => (within f path last).map (.tables · before)

end Members

mutual

/-- The value of what is at a key. -/
def Item.toValue : Item → Value
  | .value v => v
  | .table _ members => .table (Members.toValues members)
  | .tables last before =>
    .array ((tablesToValues before).reverse ++ [.table (Members.toValues last)])

/-- The values of what is at the keys of a table. -/
def Members.toValues : List (String × Item) → List (String × Value)
  | [] => []
  | (key, item) :: rest => (key, item.toValue) :: Members.toValues rest

/-- The values of some tables. -/
def tablesToValues : List (List (String × Item)) → List Value
  | [] => []
  | members :: rest => .table (Members.toValues members) :: tablesToValues rest

end

end FileDrive.Toml
