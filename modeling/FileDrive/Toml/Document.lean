import FileDrive.Toml.Members
import FileDrive.Toml.Moment
import FileDrive.Toml.Number
import FileDrive.Toml.Quoted

/-!
# TOML documents

A document is a text of lines: pairs of a key and a value, and headers that name the table to which
the pairs behind them belong. Values may hold others, to a limited depth.
-/

namespace FileDrive.Toml

open FileDrive.Text (Reader)
open FileDrive.Text.Reader

/-- As many brackets around a value, and as many parts of a key, are too many. -/
def depthLimit : Nat := 80

/-- Blanks, if there are any. -/
def spaces : Reader Unit := discard (span isSpace)

/-- A comment, up to the end of its line. -/
def comment : Reader Unit := do
  char '#'
  discard (span isPrintable)

/-- Blanks, line ends and comments, if there are any. -/
def gap : Reader Unit := discard (many (discard (span1 isSpace) <|> newline <|> comment))

/-- What may stand between a value or header and the end of its line. -/
def lineEnd : Reader Unit := do
  spaces
  discard (maybe comment)
  newline <|> atEnd

/-- Whether a character may stand in a key without quotes. -/
def isBareKey (c : Char) : Bool := c.isAlphanum || c = '-' || c = '_'

/-- A part of a key. -/
def keyPart : Reader String :=
  shortString '"' <|> shortString '\'' <|> String.ofList <$> span1 isBareKey

/-- A key: its parts but the last, and the last. -/
def key : Reader (List String × String) := do
  let parts ← separated1 (spaces *> keyPart <* spaces) (char '.')
  if parts.length < depthLimit then return (parts.dropLast, parts.getLastD "") else failure

/-- A key and its value. -/
structure Pair where
  path : List String
  key : String
  value : Value

/-- The members with those of a pair. -/
def Pair.addTo (pair : Pair) (members : Members) : Option Members :=
  members.assign pair.key pair.value pair.path

/-- A key and its value, with an equals sign between them. -/
def pair (value : Reader Value) : Reader Pair := do
  let (path, key) ← key
  char '='
  spaces
  return ⟨path, key, ← value⟩

/-- An array of values, which may go over lines. -/
def array (value : Reader Value) : Reader Value := do
  char '['
  let items ← separated (gap *> value <* gap) (char ',')
  if !items.isEmpty then discard (maybe (char ','))
  gap
  char ']'
  return .array items

/-- A table in a single line. -/
def inlineTable (value : Reader Value) : Reader Value := do
  char (Char.ofNat 0x7B)
  let pairs ← separated (pair value <* spaces) (char ',')
  spaces
  char (Char.ofNat 0x7D)
  return .table (Members.toValues (← pairs.foldlM (fun members pair => pair.addTo members) []))

/-- A value that holds no others. -/
def scalar : Reader Value :=
  .string <$> quoted <|> word "true" *> pure (.boolean true) <|>
    word "false" *> pure (.boolean false) <|> moment <|> number

/-- A value with at most `depth` brackets around each one inside it. -/
def value : (depth : Nat) → Reader Value
  | 0 => scalar
  | depth + 1 => scalar <|> array (value depth) <|> inlineTable (value depth)

/-- A header: the table it names, and whether that is one more of an array of tables. -/
structure Header where
  path : List String
  key : String
  isOfArray : Bool

/-- The header of a table. -/
def header : Reader Header := do
  let headed (opening closing : String) (isOfArray : Bool) : Reader Header := do
    word opening
    let (path, key) ← key
    word closing
    return ⟨path, key, isOfArray⟩
  headed "[[" "]]" true <|> headed "[" "]" false

/-- A line of a document. -/
inductive Line where
  | blank
  | pair (p : Pair)
  | header (h : Header)

/-- A line, which is no empty text. -/
def line : Reader Line := do
  notAtEnd
  spaces
  let found ← .pair <$> pair (value (depthLimit - 1)) <|> .header <$> header <|> pure .blank
  lineEnd
  return found

/-- A header and the pairs behind it. -/
structure Section where
  header : Header
  pairs : List Pair

/-- The pairs in front of the first header, and the sections. -/
def sections : List Line → List Pair × List Section
  | [] => ([], [])
  | .blank :: rest => sections rest
  | .pair p :: rest => let (pairs, more) := sections rest; (p :: pairs, more)
  | .header h :: rest => let (pairs, more) := sections rest; ([], ⟨h, pairs⟩ :: more)

/-- The members with those of a section. A table may be named once. -/
def Section.addTo (part : Section) : Members → Option Members :=
  let filled (members : Members) : Option Members :=
    part.pairs.foldlM (fun members pair => pair.addTo members) members
  Members.within (Members.alter part.header.key fun
    | none =>
      if part.header.isOfArray then (filled []).map (.tables · [])
      else (filled []).map (.table .named)
    | some (.tables last before) =>
      if part.header.isOfArray then (filled []).map (.tables · (last :: before)) else none
    | some (.table .implied members) =>
      if part.header.isOfArray then none else (filled members).map (.table .named)
    | some _ => none) part.header.path

/-- The table that a text is a document of. -/
def parse? (text : String) : Option Value := do
  let (lines, rest) ← (maybe (char '\ufeff') *> many line).run text.toList
  if !rest.isEmpty then none
  let (pairs, sections) := sections lines
  let root ← pairs.foldlM (fun members pair => pair.addTo members) []
  let members ← sections.foldlM (fun members part => part.addTo members) root
  return .table (Members.toValues members)

end FileDrive.Toml
