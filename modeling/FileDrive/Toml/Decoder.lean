import FileDrive.Toml.Value

/-!
# Typed values of TOML documents

A decoder gives the typed value of a value of a document, if it has one. The fields of a record are
the members of a table, or the items of an array in the order of the fields; what is missing keeps
its default, and what is no field is passed over.
-/

namespace FileDrive.Toml

/-- A reader of values of one type. -/
abbrev Decoder (α : Type) := Value → Option α

namespace Decoder

/-- A string. -/
def string : Decoder String
  | .string s => some s
  | _ => none

/-- A truth value. -/
def boolean : Decoder Bool
  | .boolean b => some b
  | _ => none

/-- An integer from zero on and below a bound. -/
def natBelow (bound : Nat) : Decoder Nat
  | .integer n => if 0 ≤ n ∧ n < bound then some n.toNat else none
  | _ => none

/-- A value with a name: the name alone, or with an empty array or table. -/
def named {α : Type} (ofName? : String → Option α) : Decoder α
  | .string name => ofName? name
  | .table [(name, content)] => if content.isEmptyContainer then ofName? name else none
  | _ => none

/-- What is given of the fields of a record. A date has nothing of them. -/
def fields (names : List String) : Decoder (List (String × Value))
  | .table members => some members
  | .array items => some (names.zip items)
  | .moment => some []
  | _ => none

/-- The value of a field, or the one it has when it is not given. -/
def field {α : Type} (given : List (String × Value)) (name : String) (decoder : Decoder α)
    (default : α) : Option α :=
  match given.lookup name with
  | some v => decoder v
  | none => some default

@[simp] theorem field_nil {α : Type} (name : String) (decoder : Decoder α) (default : α) :
    field [] name decoder default = some default := rfl

end Decoder

end FileDrive.Toml
