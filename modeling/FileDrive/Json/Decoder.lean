import FileDrive.Json.Document

/-!
# Typed values of JSON documents

A decoder takes a document from its start and fails at the first thing it cannot take: a value that
does not fit, or the place where the document is broken off, whichever comes first.
-/

namespace FileDrive.Json

/-- Why a document has no typed value. -/
inductive DecodeError where
  /-- The text stops being JSON. -/
  | malformed
  /-- A value is not of the kind expected, or is missing, repeated or unknown. -/
  | unfit
  deriving DecidableEq, Repr

/-- A reader of values of one type. -/
abbrev Decoder (α : Type) := Node → Except DecodeError α

namespace Decoder

/-- The error of a node that is not of the kind expected: where a scalar is broken, that shows
first. -/
def unexpected {α : Type} : Decoder α
  | .broken | .string none | .number false => .error .malformed
  | _ => .error .unfit

/-- A string. -/
def string : Decoder String
  | .string (some s) => .ok s
  | node => unexpected node

/-- Null for none, or a value. -/
def optional {α : Type} (decoder : Decoder α) : Decoder (Option α)
  | .null => .ok none
  | node => some <$> decoder node

/-- An array, its items from first to last. -/
def list {α : Type} (decoder : Decoder α) : Decoder (List α)
  | .array items closed => do
    let values ← items.mapM decoder
    if closed then return values else throw .malformed
  | node => unexpected node

/-- Any value that can be read to its end. -/
def ignored : Decoder Unit := fun node => if node.isWhole then .ok () else .error .malformed

/-- A value of one of several names: the name alone, or an object with the name and null. -/
def named {α : Type} (ofName? : String → Option α) : Decoder α
  | .string (some s) => (ofName? s).elim (.error .unfit) .ok
  | .object ((name, value) :: more) closed => do
    let result ← (ofName? name).elim (.error .unfit) .ok
    match value with
    | .null => if more.isEmpty && closed then return result else throw .malformed
    | node => unexpected node
  | _ => .error .malformed

/-- The fields of a record that a document has: their names, and what checks the value of each. -/
abbrev Fields := List (String × Decoder Unit)

/-- Checks the members of an object from first to last. Members that are no fields are passed over,
and no field may come twice. -/
def checkMembers (fields : Fields) : (seen : List String) → List (String × Node) →
    Except DecodeError Unit
  | _, [] => .ok ()
  | seen, (key, node) :: rest => do
    match fields.lookup key with
    | some check =>
      if seen.contains key then throw .unfit
      check node
    | none => ignored node
    checkMembers fields (key :: seen) rest

/-- Gives the items of an array to the fields, in order. The array may end early. -/
def checkItems : Fields → List Node → Except DecodeError (List (String × Node))
  | [], [] => .ok []
  | [], _ :: _ => .error .malformed
  | _ :: _, [] => .ok []
  | (name, check) :: fields, node :: rest => do
    check node
    return (name, node) :: (← checkItems fields rest)

/-- The values of the fields of a record, which a document gives as an object, or as an array in the
order of the fields. -/
def members (fields : Fields) : Decoder (List (String × Node))
  | .object given closed => do
    checkMembers fields [] given
    if closed then return given.filter fun (key, _) => (fields.lookup key).isSome
    else throw .malformed
  | .array items closed => do
    let given ← checkItems fields items
    if closed then return given else throw .malformed
  | node => unexpected node

/-- The check that a field has a value of some type. -/
def check {α : Type} (decoder : Decoder α) : Decoder Unit := fun node => Functor.discard (decoder node)

/-- The value of a field that has to be there. -/
def required {α : Type} (given : List (String × Node)) (name : String) (decoder : Decoder α) :
    Except DecodeError α :=
  match given.lookup name with
  | some node => decoder node
  | none => .error .unfit

/-- The value of a field, or one that stands for it. -/
def defaulted {α : Type} (given : List (String × Node)) (name : String) (decoder : Decoder α)
    (default : α) : Except DecodeError α :=
  match given.lookup name with
  | some node => decoder node
  | none => .ok default

end Decoder

/-- The value at the start of a text. What stands behind it is not looked at. -/
def decodeStart {α : Type} (decoder : Decoder α) (bytes : ByteArray) : Except DecodeError α :=
  decoder (parse bytes).1

/-- The value that a text consists of. -/
def decode {α : Type} (decoder : Decoder α) (bytes : ByteArray) : Except DecodeError α := do
  let (node, alone) := parse bytes
  let value ← decoder node
  if alone then return value else throw .malformed

end FileDrive.Json
