import FileDrive.Text.Number

/-!
# JSON values and their text

The values that answers are made of, and the text of a value: no blanks, members in the order given,
and in strings nothing escaped but the quote, the backslash and the control characters.
-/

namespace FileDrive.Json

open FileDrive.Text

/-- A value of an answer. Answers have no numbers but integers. -/
inductive Value where
  | null
  | bool (b : Bool)
  | num (n : Int)
  | str (s : String)
  | arr (items : List Value)
  | obj (members : List (String × Value))

/-- A character inside a string of JSON. -/
def escape (c : Char) : List Char :=
  if c = '"' then ['\\', '"']
  else if c = '\\' then ['\\', '\\']
  else if c = '\n' then ['\\', 'n']
  else if c = '\r' then ['\\', 'r']
  else if c = '\t' then ['\\', 't']
  else if c.toNat = 0x8 then ['\\', 'b']
  else if c.toNat = 0xC then ['\\', 'f']
  else if c.toNat < 0x20 then '\\' :: 'u' :: hexDigits 4 c.toNat
  else [c]

/-- A string of JSON, with its quotes. -/
def quote (s : String) : String :=
  s.foldl (fun out c => out ++ String.ofList (escape c)) "\"" ++ "\""

namespace Value

mutual

/-- The text of a value. -/
def render : Value → String
  | null => "null"
  | bool true => "true"
  | bool false => "false"
  | num n => toString n
  | str s => quote s
  | arr items => "[" ++ renderItems items ++ "]"
  | obj members => "\x7b" ++ renderMembers members ++ "\x7d"

/-- The items of an array, with commas between them. -/
def renderItems : List Value → String
  | [] => ""
  | [v] => render v
  | v :: rest => render v ++ "," ++ renderItems rest

/-- The members of an object, with commas between them. -/
def renderMembers : List (String × Value) → String
  | [] => ""
  | [(k, v)] => quote k ++ ":" ++ render v
  | (k, v) :: rest => quote k ++ ":" ++ render v ++ "," ++ renderMembers rest

end

/-- The value of an optional one, null when there is none. -/
def ofOption {α : Type} (f : α → Value) : Option α → Value
  | some a => f a
  | none => null

/-- An array of strings. -/
def ofStrings (ss : List String) : Value := arr (ss.map str)

/-- The value of a member of an object; null when there is none of the name. -/
def member (v : Value) (name : String) : Value :=
  match v with
  | obj members => (members.lookup name).getD null
  | _ => null


end Value

end FileDrive.Json
