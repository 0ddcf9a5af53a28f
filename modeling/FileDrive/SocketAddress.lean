import FileDrive.Settings
import FileDrive.Text.Number
import FileDrive.Text.Reader

/-!
# Socket addresses

An address of version 4 is four octets, one of version 6 is eight groups of 16 bits, and each has a
port. Of the latter's longest run of zero groups the first is written as two colons, if it has more
than one group; reading takes two colons for the groups that are missing.
-/

namespace FileDrive

open Text (Reader isDigitOf valueOf)
open Text.Reader

/-- An address that a server can listen on. -/
inductive SocketAddress where
  | v4 (octets : List Nat) (port : Nat)
  | v6 (groups : List Nat) (scope port : Nat)
  deriving DecidableEq, Repr

namespace SocketAddress

/-- The number below `bound` that some digits of a base write. -/
def numberBelow (base bound : Nat) : Reader Nat := do
  let n := valueOf base (← span1 (isDigitOf base))
  if n < bound then return n else failure

/-- An octet: at most three digits, without zeros in front. -/
def octet : Reader Nat := do
  let digits ← span1 Char.isDigit
  let n := valueOf 10 digits
  if n < 256 ∧ digits.length ≤ 3 ∧ (digits.length = 1 ∨ digits.head? ≠ some '0') then return n
  else failure

/-- Four octets with points between them. -/
def octets : Reader (List Nat) := do
  return (← octet) :: (← times (char '.' *> octet) 3)

/-- A group: at most four hexadecimal digits. -/
def group : Reader Nat := do
  let digits ← span1 (isDigitOf 16)
  if digits.length ≤ 4 then return valueOf 16 digits else failure

/-- Groups with colons between them, as many as there are and `most` at most, and whether the last
two of them were written as four octets. -/
def groups : (most : Nat) → (first : Bool) → Reader (List Nat × Bool)
  | 0, _ => pure ([], false)
  | most + 1, first =>
    let separator : Reader Unit := if first then pure () else char ':'
    let embedded : Reader (List Nat × Bool) := do
      separator
      match ← octets with
      | [a, b, c, d] =>
        if most = 0 then failure else return ([a * 256 + b, c * 256 + d], true)
      | _ => failure
    let plain : Reader (List Nat × Bool) := do
      separator
      let n ← group
      let (more, isEmbedded) ← groups most false
      return (n :: more, isEmbedded)
    embedded <|> plain <|> pure ([], false)

/-- Eight groups, some of which may be left out. -/
def allGroups : Reader (List Nat) := do
  let (front, isEmbedded) ← groups 8 true
  if front.length = 8 then return front
  if isEmbedded then failure
  word "::"
  let (back, _) ← groups (7 - front.length) true
  return front ++ List.replicate (8 - front.length - back.length) 0 ++ back

/-- The port behind an address. -/
def port : Reader Nat := char ':' *> numberBelow 10 0x10000

/-- An address and a port. -/
def reader : Reader SocketAddress :=
  (do return v4 (← octets) (← port)) <|> do
    char '['
    let groups ← allGroups
    let scope ← maybe (char '%' *> numberBelow 10 0x100000000)
    char ']'
    return v6 groups (scope.getD 0) (← port)

/-- The address that a text consists of. -/
def parse? (s : String) : Option SocketAddress := reader.readAll? s.toList

/-- Octets as they are written. -/
def octetsText (octets : List Nat) : String := String.intercalate "." (octets.map toString)

/-- Groups as they are written, with a colon between any two. -/
def groupsText (groups : List Nat) : String :=
  String.intercalate ":" (groups.map fun n => String.ofList (Nat.toDigits 16 n))

/-- Where the first of the longest runs of zero groups starts, and its length. -/
def zeroRun (groups : List Nat) : Nat × Nat :=
  (List.range groups.length).foldl (fun best start =>
    let length := ((groups.drop start).takeWhile (· = 0)).length
    if best.2 < length then (start, length) else best) (0, 0)

/-- All groups as they are written. An address of version 4 that they stand for shows as one. -/
def allGroupsText (groups : List Nat) : String :=
  match groups with
  | [0, 0, 0, 0, 0, 0xFFFF, high, low] =>
    "::ffff:" ++ octetsText [high / 256, high % 256, low / 256, low % 256]
  | _ =>
    let (start, length) := zeroRun groups
    if 1 < length then
      groupsText (groups.take start) ++ "::" ++ groupsText (groups.drop (start + length))
    else groupsText groups

/-- An address as it is written. -/
def text : SocketAddress → String
  | v4 octets port => octetsText octets ++ ":" ++ toString port
  | v6 groups scope port =>
    "[" ++ allGroupsText groups ++ (if scope = 0 then "" else "%" ++ toString scope) ++ "]:" ++
      toString port

end SocketAddress

/-- The address that the server listens on. -/
def ServerSettings.address (settings : ServerSettings) : Except DriveError SocketAddress :=
  let text := settings.host ++ ":" ++ toString settings.port
  match SocketAddress.parse? text with
  | some address => .ok address
  | none =>
    .error (.config ("invalid server address " ++ text ++ ": invalid socket address syntax"))

end FileDrive
