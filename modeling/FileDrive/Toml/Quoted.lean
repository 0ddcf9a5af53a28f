import FileDrive.Text.Number
import FileDrive.Text.Reader

/-!
# Strings of TOML

Strings in double quotes, where a backslash starts an escape, and in single quotes, where all
characters stand for themselves. Either kind may go over lines when it has three quotes at each end;
then a line end directly behind the first quotes is left out and every line end is a line feed.
-/

namespace FileDrive.Toml

open FileDrive.Text (Reader isDigitOf valueOf)
open FileDrive.Text.Reader

/-- Whether a character may stand in a line: a tab, or no ASCII control character. -/
def isPrintable (c : Char) : Bool := c = '\t' || (0x20 ≤ c.toNat && c.toNat ≠ 0x7F)

/-- Whether a character is a space or a tab. -/
def isSpace (c : Char) : Bool := c = ' ' || c = '\t'

/-- The end of a line. -/
def newline : Reader Unit := char '\n' <|> word "\r\n"

/-- A character given by its number in `width` hexadecimal digits. -/
def codePoint (width : Nat) : Reader Char := do
  let n := valueOf 16 (← times (charIf (isDigitOf 16)) width)
  if n.isValidChar then return Char.ofNat n else failure

/-- The character that an escape of one letter stands for. -/
def escaped? (c : Char) : Option Char :=
  match c with
  | '"' | '\\' => some c
  | 'b' => some (Char.ofNat 0x8)
  | 't' => some '\t'
  | 'n' => some '\n'
  | 'f' => some (Char.ofNat 0xC)
  | 'r' => some '\r'
  | _ => none

/-- An escape. -/
def escape : Reader Char := do
  char '\\'
  charMap escaped? <|> char 'u' *> codePoint 4 <|> char 'U' *> codePoint 8

/-- A backslash at the end of a line, which leaves out the line end and all blanks and line ends
behind it. -/
def lineSplice : Reader Unit := do
  char '\\'
  discard (span isSpace)
  newline
  discard (many (discard (span1 isSpace) <|> newline))

/-- A part of a string between quotes of some kind: characters that stand for themselves, or an
escape where the kind has them. -/
def part (quote : Char) : Reader (List Char) :=
  if quote = '"' then
    span1 (fun c => isPrintable c && c ≠ '"' && c ≠ '\\') <|> (fun c => [c]) <$> escape
  else span1 fun c => isPrintable c && c ≠ quote

/-- A string in a single line. -/
def shortString (quote : Char) : Reader String := do
  char quote
  let parts ← many (part quote)
  char quote
  return String.ofList parts.flatten

/-- One or two quotes inside a string that ends with three. -/
def innerQuotes (quote : Char) : Reader (List Char) := do
  let quotes ← span1 (· = quote)
  if quotes.length < 3 then return quotes else failure

/-- The quotes that end a string of several lines. Two more may stand before them. -/
def closingQuotes (quote : Char) : Reader (List Char) := do
  let quotes ← span (· = quote)
  if 3 ≤ quotes.length ∧ quotes.length ≤ 5 then return quotes.drop 3 else failure

/-- A part of a string of several lines. -/
def longPart (quote : Char) : Reader (List Char) :=
  let splice : Reader (List Char) :=
    if quote = '"' then lineSplice *> pure [] else failure
  splice <|> part quote <|> newline *> pure ['\n'] <|> innerQuotes quote

/-- A string of several lines. -/
def longString (quote : Char) : Reader String := do
  word (String.ofList [quote, quote, quote])
  discard (maybe newline)
  let parts ← many (longPart quote)
  let last ← closingQuotes quote
  return String.ofList (parts.flatten ++ last)

/-- A string. -/
def quoted : Reader String :=
  longString '"' <|> shortString '"' <|> longString '\'' <|> shortString '\''

end FileDrive.Toml
